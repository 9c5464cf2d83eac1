import Mathlib.Data.Rat.Defs
import SpendingTracker.Lib.DocumentStore
import SpendingTracker.Lib.TrappingInt
import SpendingTracker.Model.Platform

/-!
# The persisted format of a transaction

Transactions are stored as documents of one Firestore collection.  This file holds the values
a document field can have, the dictionaries that the two writers build
(`addTransactionsToDatabase` and `updateTransactionInDatabase` in
`Models/TransactionsManager.swift`), and the reader: the decode loop of
`getTransactionsForUser` in `Controllers/LoginViewController.swift`.

The decode loop runs over a Swift dictionary, whose enumeration order is arbitrary.  It is
defined here on one enumeration; `readRecords_perm` makes it a function of the dictionary.
-/

namespace SpendingTracker

open Lib

/-- The value of a document field.  Numbers come back as `NSNumber`s. -/
inductive Value
  /-- `NSNull`, which is also what an optional holding `nil` is stored as. -/
  | null
  | boolean (b : Bool)
  | integer (n : Int64)
  /-- A floating point number; `none` stands for the values that are not finite. -/
  | double (q : Option ℚ)
  /-- An instant, as `timestampWithDate` has made it of a date. -/
  | timestamp (d : Date)
  | string (s : String)
  /-- Bytes, references, geographical points, arrays and maps: no cast of the app applies. -/
  | other (content : String)
deriving DecidableEq

namespace Value

/-- `as? String`. -/
def asString : Value → Option String
  | string s => some s
  | _ => none

/-- `as? Int`: a number that an `Int` represents exactly. -/
def asInt : Value → Option Int64
  | integer n => some n
  | boolean b => some (if b then 1 else 0)
  | double (some q) => if q.den = 1 then fit q.num else none
  | _ => none

/-- `as? Date`: a timestamp is passed to the app as a date. -/
def asDate [FIRTimestamp] : Value → Option Date
  | timestamp d => some (dateValue d)
  | _ => none

/-- A date, as it is stored. -/
def ofDate [FIRTimestamp] (d : Date) : Value := timestamp (timestampWithDate d)

/-- `value as Any` for an optional value: `nil` is stored as the null value. -/
def asAny {α : Type} (f : α → Value) : Option α → Value
  | some a => f a
  | none => null

lemma asString_eq_some_iff {v : Value} {s : String} : v.asString = some s ↔ v = string s := by
  cases v <;> simp [asString]

@[simp] lemma asString_asAny (o : Option String) : (asAny string o).asString = o := by
  cases o <;> rfl

@[simp] lemma asInt_asAny (o : Option Int64) : (asAny integer o).asInt = o := by
  cases o <;> rfl

@[simp] lemma asDate_asAny [FIRTimestamp] (o : Option Date) :
    (asAny ofDate o).asDate = o.map fun d => dateValue (timestampWithDate d) := by
  cases o <;> rfl

lemma asAny_injective {α : Type} {f : α → Value} (hf : Function.Injective f)
    (hnull : ∀ a, f a ≠ null) : Function.Injective (asAny f) := by
  rintro (_ | a) (_ | b) h
  · rfl
  · exact absurd h.symm (hnull b)
  · exact absurd h (hnull a)
  · rw [hf h]

end Value

/-- The fields of a document. -/
abbrev Fields := Finmap fun _ : String => Value

/-- A document of the collection of transactions. -/
abbrev Doc := Document String String Value

/-- The collection of transactions. -/
abbrev Transactions := Collection String String Value

/-! ### The writers -/

namespace Transaction

variable [FIRTimestamp]

/-- The dictionary `addTransactionsToDatabase` passes to `addDocument`. -/
def addDocumentData (t : Transaction) (userId : String) : Fields :=
  List.toFinmap
    [⟨"id", .asAny .string t.id⟩,
     ⟨"transactionType", .asAny .string (t.transactionType.map TransactionType.description)⟩,
     ⟨"category", .asAny .string (t.category.map Category.description)⟩,
     ⟨"amount", .asAny .integer t.amount⟩,
     ⟨"date", .asAny .ofDate t.date⟩,
     ⟨"user_id", .string userId⟩]

/-- The dictionary `updateTransactionInDatabase` passes to `updateData`. -/
def updateData (t : Transaction) : Fields :=
  List.toFinmap
    [⟨"transactionType", .asAny .string (t.transactionType.map TransactionType.description)⟩,
     ⟨"category", .asAny .string (t.category.map Category.description)⟩,
     ⟨"amount", .asAny .integer t.amount⟩,
     ⟨"date", .asAny .ofDate t.date⟩]

end Transaction

/-! ### The reader -/

section Reader

variable [FIRTimestamp]

/-- A field of a document as a loop over its dictionary sees it. -/
abbrev FieldEntry := Sigma fun _ : String => Value

/-- The body of `for record in document.data()`.  The names of the fields consist of letters to
which no other scalar decomposes. -/
def Transaction.readRecord (t : Transaction) (record : FieldEntry) : Transaction :=
  match record.1 with
  | "id" => { t with id := record.2.asString }
  | "transactionType" => t.setTransactionType (record.2.asString.getD "unknown")
  | "category" => t.setCategory (record.2.asString.getD "unknown")
  | "amount" => { t with amount := record.2.asInt }
  | "date" => { t with date := record.2.asDate }
  | _ => t

/-- The loop over the fields of one document, in the order in which they are enumerated. -/
def readRecords (records : List FieldEntry) : Transaction :=
  records.foldl Transaction.readRecord Transaction.init

/-- What is stored about a transaction itself: the five fields besides the owner. -/
@[ext]
structure Record where
  /-- The identifier of the transaction. -/
  id : Option Value
  /-- The name of the transaction type. -/
  transactionType : Option Value
  /-- The name of the category. -/
  category : Option Value
  /-- The amount. -/
  amount : Option Value
  /-- The date. -/
  date : Option Value
deriving DecidableEq

/-- The stored record of a document. -/
def recordOf (f : Fields) : Record :=
  ⟨f.lookup "id", f.lookup "transactionType", f.lookup "category", f.lookup "amount",
    f.lookup "date"⟩

/-- The record that the writers store for a transaction. -/
def Transaction.record (t : Transaction) : Record where
  id := some (.asAny .string t.id)
  transactionType := some (.asAny .string (t.transactionType.map TransactionType.description))
  category := some (.asAny .string (t.category.map Category.description))
  amount := some (.asAny .integer t.amount)
  date := some (.asAny .ofDate t.date)

/-- What the loader makes of a record. -/
def Record.decode (r : Record) : Transaction where
  id := r.id.bind Value.asString
  transactionType := (r.transactionType.bind Value.asString).bind TransactionType.ofName
  category := (r.category.bind Value.asString).bind Category.ofName
  amount := r.amount.bind Value.asInt
  date := r.date.bind Value.asDate

/-- The effect of reading the fields `look` into a transaction. -/
def Transaction.overlay (t : Transaction) (look : String → Option Value) : Transaction where
  id := (look "id").elim t.id Value.asString
  transactionType := ((look "transactionType").bind fun v =>
    TransactionType.ofName (v.asString.getD "unknown")).or t.transactionType
  category := ((look "category").bind fun v =>
    Category.ofName (v.asString.getD "unknown")).or t.category
  amount := (look "amount").elim t.amount Value.asInt
  date := (look "date").elim t.date Value.asDate

/-- One pass of the loop, as an overlay of one field. -/
lemma Transaction.readRecord_eq (t : Transaction) (k : String) (v : Value) :
    t.readRecord ⟨k, v⟩ = t.overlay fun x => if x = k then some v else none := by
  have key : ∀ x, (if x = k then some v else Option.none) = none ∨ x = k := fun x => by
    by_cases hx : x = k <;> simp [hx]
  unfold readRecord
  split
  case h_6 =>
    rename_i name h₁ h₂ h₃ h₄ h₅
    simp only at h₁ h₂ h₃ h₄ h₅
    rw [overlay, (key "id").resolve_right fun h => h₁ h.symm,
      (key "transactionType").resolve_right fun h => h₂ h.symm,
      (key "category").resolve_right fun h => h₃ h.symm,
      (key "amount").resolve_right fun h => h₄ h.symm,
      (key "date").resolve_right fun h => h₅ h.symm]
    rfl
  all_goals
    rename_i hk
    simp only at hk
    subst hk
    simp [overlay, setTransactionType_eq, setCategory_eq]

/-- Overlays of separate fields compose. -/
lemma Transaction.overlay_overlay (t : Transaction) {f g : String → Option Value}
    (h : ∀ x, f x ≠ none → g x = none) :
    (t.overlay f).overlay g = t.overlay fun x => (f x).or (g x) := by
  have key : ∀ x, g x = none ∨ f x = none := fun x => by
    by_cases hf : f x = none
    · exact Or.inr hf
    · exact Or.inl (h x hf)
  unfold overlay
  congr 1
  · rcases key "id" with hx | hx <;> simp [hx]
  · rcases key "transactionType" with hx | hx <;> simp [hx]
  · rcases key "category" with hx | hx <;> simp [hx]
  · rcases key "amount" with hx | hx <;> simp [hx]
  · rcases key "date" with hx | hx <;> simp [hx]

lemma Transaction.foldl_readRecord (t : Transaction) {records : List FieldEntry}
    (h : records.NodupKeys) :
    records.foldl readRecord t = t.overlay fun x => records.dlookup x := by
  induction records generalizing t with
  | nil => rfl
  | cons r records ih =>
      obtain ⟨k, v⟩ := r
      rw [List.nodupKeys_cons] at h
      rw [List.foldl_cons, ih _ h.2, readRecord_eq, overlay_overlay]
      · congr 1
        funext x
        by_cases hx : x = k
        · subst hx; simp
        · simp [hx, List.dlookup_cons_ne records (⟨k, v⟩ : FieldEntry) hx]
      · intro x hx
        by_cases hxk : x = k
        · subst hxk; exact List.dlookup_eq_none.mpr h.1
        · simp [hxk] at hx

/-- The loop over an enumeration of a document's fields computes what the loader makes of the
document's record: fields of other names have no effect. -/
lemma readRecords_eq (a : AList fun _ : String => Value) :
    readRecords a.entries = (recordOf a.toFinmap).decode := by
  have elim_none : ∀ {α : Type} (o : Option Value) (f : Value → Option α),
      o.elim none f = o.bind f := fun o f => by cases o <;> rfl
  rw [readRecords, Transaction.foldl_readRecord _ a.nodupKeys]
  simp only [Transaction.overlay, Transaction.init, recordOf, Record.decode, Option.or_none,
    elim_none, TransactionType.ofName_getD_unknown, Category.ofName_getD_unknown,
    Option.bind_assoc]
  rfl

/-- The loop yields the same transaction for every order of the fields. -/
lemma readRecords_perm {a b : AList fun _ : String => Value} (h : a.entries.Perm b.entries) :
    readRecords a.entries = readRecords b.entries := by
  rw [readRecords_eq, readRecords_eq, AList.toFinmap_eq.mpr h]

/-- The transaction that the loader makes of a document's fields. -/
def decode (f : Fields) : Transaction :=
  f.liftOn (fun a => readRecords a.entries) fun _ _ h => readRecords_perm h

lemma decode_toFinmap (a : AList fun _ : String => Value) :
    decode a.toFinmap = readRecords a.entries := rfl

lemma decode_eq (f : Fields) : decode f = (recordOf f).decode := by
  induction f using Finmap.induction_on with
  | H a => rw [decode_toFinmap, readRecords_eq]

end Reader

/-! ### What is read back -/

namespace Transaction

section

variable [FIRTimestamp]

@[simp] lemma recordOf_addDocumentData (t : Transaction) (userId : String) :
    recordOf (t.addDocumentData userId) = t.record := rfl

@[simp] lemma lookup_user_id_addDocumentData (t : Transaction) (userId : String) :
    (t.addDocumentData userId).lookup "user_id" = some (.string userId) := rfl

/-- The fields an update writes. -/
lemma mem_updateData {t : Transaction} {k : String} : k ∈ t.updateData ↔
    k ∈ ["transactionType", "category", "amount", "date"] := by
  simp [updateData, Finmap.mem_list_toFinmap, exists_or]

/-- What remains of a transaction after it has been stored and loaded: a category or a type
without a case in the reader is lost, and the date is what its timestamp says. -/
def reloaded (t : Transaction) : Transaction :=
  { t with
    transactionType := t.transactionType.bind fun k => if k = .none then none else some k
    category := t.category.bind fun c => if c.Readable then some c else none
    date := t.date.map fun d => dateValue (timestampWithDate d) }

/-- The reader applied to what the writer stores. -/
lemma decode_record (t : Transaction) : t.record.decode = t.reloaded := by
  simp only [record, Record.decode, reloaded, Option.bind_some, Value.asString_asAny,
    Value.asInt_asAny, Value.asDate_asAny]
  congr 1
  · cases ht : t.transactionType with
    | none => rfl
    | some k => cases k <;> decide
  · cases t.category with
    | none => rfl
    | some c => simp [Category.ofName_description]

end

lemma reloaded_eq_self_iff {t : Transaction} : t.reloaded = t ↔
    t.transactionType ≠ some .none ∧ ∀ c, t.category = some c → c.Readable := by
  obtain ⟨id, k, c, amount, date⟩ := t
  simp only [reloaded, mk.injEq, true_and]
  refine and_congr ?_ ?_
  · rcases k with _ | _ | _ | _ <;> decide
  · rcases c with _ | c
    · simp
    · by_cases hc : c.Readable <;> simp [hc]

end Transaction

end SpendingTracker
