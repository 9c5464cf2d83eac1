import Mathlib.Data.Finmap

/-!
# Transactions

The data of one bank transaction as the app holds it: `Models/Category.swift`,
`Models/TransactionType.swift` and `Models/Transaction.swift`.  Every field of a
`Transaction` is optional in the source, and so it is here.

`Transaction` is a class.  The structure below is the contents of one object; the identity of
the object is a reference into the heap of `Model/App.lean`.
-/

namespace SpendingTracker

/-- An instant, in microseconds from Swift's reference date, 2001-01-01 00:00:00 UTC. -/
abbrev Date := Int

/-! ### Literals -/

/-- The canonical decomposition of a scalar, as far as it leads to ASCII: besides the ASCII
scalars, only these three decompose into one. -/
def asciiDecomposition (c : Char) : Char :=
  if c = '\u037e' then ';' else if c = '\u1fef' then '\x60' else if c = '\u212a' then 'K' else c

/-- `==` of a string with an ASCII literal, as the cases of a `switch` use it.  Swift compares
canonical decompositions, and the decomposition of a string is the literal if the scalars
decompose into those of the literal, one by one. -/
def EqualsLiteral (s literal : String) : Prop :=
  s.toList.map asciiDecomposition = literal.toList

instance (s literal : String) : Decidable (EqualsLiteral s literal) :=
  inferInstanceAs (Decidable (_ = _))

lemma asciiDecomposition_eq_iff {c c' : Char} (hc : c'.isAlpha ∧ c' ≠ 'K') :
    asciiDecomposition c = c' ↔ c = c' := by
  unfold asciiDecomposition
  split_ifs with h₁ h₂ h₃
  · subst h₁
    constructor <;> (rintro rfl; exact absurd hc (by decide))
  · subst h₂
    constructor <;> (rintro rfl; exact absurd hc (by decide))
  · subst h₃
    constructor <;> (rintro rfl; exact absurd hc (by decide))
  · rfl

/-- A literal of letters without the letter `K` is equal to itself only. -/
lemma equalsLiteral_iff_eq {s literal : String}
    (h : ∀ c ∈ literal.toList, c.isAlpha ∧ c ≠ 'K') : EqualsLiteral s literal ↔ s = literal := by
  rw [EqualsLiteral, ← String.toList_inj]
  generalize s.toList = l, literal.toList = l' at h
  induction l generalizing l' with
  | nil => simp
  | cons c l ih =>
      cases l' with
      | nil => simp
      | cons c' l' =>
          obtain ⟨hc, hl⟩ := List.forall_mem_cons.mp h
          rw [List.map_cons, List.cons.injEq, List.cons.injEq, asciiDecomposition_eq_iff hc,
            ih l' hl]

/-! ### The data of a transaction -/

/-- What a transaction was spent on. -/
inductive Category
  | clothes
  | eatingOut
  | entertainment
  | fuel
  | kids
  | shopping
  | sport
  | travel
  | other
  | none
deriving DecidableEq, Repr

/-- The name of a category, as it is shown and stored. -/
def Category.description : Category → String
  | clothes => "Clothes"
  | eatingOut => "Eating out"
  | entertainment => "Entertainment"
  | fuel => "Fuel"
  | kids => "Kids"
  | shopping => "Shopping"
  | sport => "Sport"
  | travel => "Travel"
  | other => "Other"
  | none => "None"

/-- The direction of a transaction. -/
inductive TransactionType
  | income
  | expense
  | none
deriving DecidableEq, Repr

/-- The name of a transaction type, as it is shown and stored. -/
def TransactionType.description : TransactionType → String
  | expense => "Expense"
  | income => "Income"
  | none => "None"

/-- The contents of a `Transaction` object. -/
structure Transaction where
  /-- The identifier the app generates; the documents of the transaction carry it too. -/
  id : Option String
  /-- Income or expense. -/
  transactionType : Option TransactionType
  /-- What the money was spent on. -/
  category : Option Category
  /-- The amount, a Swift `Int`. -/
  amount : Option Int64
  /-- The day of the transaction. -/
  date : Option Date
deriving DecidableEq, Repr

namespace Transaction

/-- `Transaction.init()`: all fields are `nil`. -/
def init : Transaction := ⟨none, none, none, none, none⟩

instance : Inhabited Transaction := ⟨init⟩

/-- `Transaction.init(id:transactionType:category:amount:date:)`. -/
def make (id : String) (transactionType : TransactionType) (category : Category) (amount : Int64)
    (date : Date) : Transaction :=
  ⟨some id, some transactionType, some category, some amount, some date⟩

/-- `setCategory(categoryName:)`.  There is no case for `Category.other` and none for
`Category.none`: their names fall into the default branch, which changes nothing. -/
def setCategory (t : Transaction) (categoryName : String) : Transaction :=
  if EqualsLiteral categoryName Category.clothes.description then
    { t with category := some .clothes }
  else if EqualsLiteral categoryName Category.eatingOut.description then
    { t with category := some .eatingOut }
  else if EqualsLiteral categoryName Category.entertainment.description then
    { t with category := some .entertainment }
  else if EqualsLiteral categoryName Category.fuel.description then
    { t with category := some .fuel }
  else if EqualsLiteral categoryName Category.kids.description then
    { t with category := some .kids }
  else if EqualsLiteral categoryName Category.shopping.description then
    { t with category := some .shopping }
  else if EqualsLiteral categoryName Category.sport.description then
    { t with category := some .sport }
  else if EqualsLiteral categoryName Category.travel.description then
    { t with category := some .travel }
  else t

/-- `setTransactionType(transactionTypeName:)`. -/
def setTransactionType (t : Transaction) (transactionTypeName : String) : Transaction :=
  if EqualsLiteral transactionTypeName TransactionType.expense.description then
    { t with transactionType := some .expense }
  else if EqualsLiteral transactionTypeName TransactionType.income.description then
    { t with transactionType := some .income }
  else t

end Transaction

/-! ### The names the loader recognises -/

/-- The categories `setCategory` has a case for. -/
def Category.Readable : Category → Prop
  | other => False
  | none => False
  | _ => True

instance : DecidablePred Category.Readable := fun c => by
  cases c <;> unfold Category.Readable <;> infer_instance

/-- The category `setCategory` recognises a name as. -/
def Category.ofName (name : String) : Option Category :=
  (Transaction.init.setCategory name).category

/-- The transaction type `setTransactionType` recognises a name as. -/
def TransactionType.ofName (name : String) : Option TransactionType :=
  (Transaction.init.setTransactionType name).transactionType

/-- `setCategory` touches the category only, and only with a recognised name. -/
lemma Transaction.setCategory_eq (t : Transaction) (name : String) :
    t.setCategory name = { t with category := (Category.ofName name).or t.category } := by
  unfold Category.ofName Transaction.setCategory
  split_ifs <;> rfl

/-- `setTransactionType` touches the type only, and only with a recognised name. -/
lemma Transaction.setTransactionType_eq (t : Transaction) (name : String) :
    t.setTransactionType name =
      { t with transactionType := (TransactionType.ofName name).or t.transactionType } := by
  unfold TransactionType.ofName Transaction.setTransactionType
  split_ifs <;> rfl

/-- A name is recognised as the category whose description it equals, if that category has a
case. -/
lemma Category.ofName_eq_some_iff {name : String} {c : Category} :
    ofName name = some c ↔ c.Readable ∧ EqualsLiteral name c.description := by
  constructor
  · intro h
    unfold ofName Transaction.setCategory at h
    split_ifs at h with h₁ h₂ h₃ h₄ h₅ h₆ h₇ h₈ <;> cases h <;> exact ⟨trivial, by assumption⟩
  · rintro ⟨hc, hname⟩
    -- the scalars of the name are known now, up to their decompositions
    unfold EqualsLiteral at hname
    unfold ofName Transaction.setCategory
    simp only [EqualsLiteral, hname]
    cases c with
    | other => exact hc.elim
    | none => exact hc.elim
    | _ => decide

/-- A name is recognised as the transaction type whose description it is; `none` has no case. -/
lemma TransactionType.ofName_eq_some_iff {name : String} {k : TransactionType} :
    ofName name = some k ↔ k ≠ none ∧ name = k.description := by
  have hletters : ∀ k : TransactionType, ∀ c ∈ k.description.toList, c.isAlpha ∧ c ≠ 'K' := by
    intro k
    rw [← List.forall_iff_forall_mem]
    cases k <;> decide
  unfold ofName Transaction.setTransactionType
  simp only [equalsLiteral_iff_eq (hletters _)]
  constructor
  · intro h
    split_ifs at h with h₁ h₂ <;> cases h <;> exact ⟨by decide, by assumption⟩
  · rintro ⟨hk, rfl⟩
    cases k with
    | none => exact absurd rfl hk
    | _ => decide

lemma Category.ofName_description (c : Category) :
    ofName c.description = if c.Readable then some c else Option.none := by
  cases c <;> decide

lemma TransactionType.ofName_getD_unknown (o : Option String) :
    ofName (o.getD "unknown") = o.bind ofName := by
  cases o with
  | none => decide
  | some s => rfl

lemma Category.ofName_getD_unknown (o : Option String) :
    ofName (o.getD "unknown") = o.bind ofName := by
  cases o with
  | none => decide
  | some s => rfl

lemma TransactionType.ofName_description {k : TransactionType} (hk : k ≠ none) :
    ofName k.description = some k :=
  ofName_eq_some_iff.mpr ⟨hk, rfl⟩

end SpendingTracker
