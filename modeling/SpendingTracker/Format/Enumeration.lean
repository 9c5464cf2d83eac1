import SpendingTracker.Format.RoundTrip

/-!
# The order in which fields are enumerated

The decode loop of `getTransactionsForUser` runs over the fields of a document in the order of
a Swift dictionary, which differs from run to run, and its body is a sequence of setters some of
which do nothing.  This file states what the loop computes in terms of the dictionaries alone.
-/

namespace SpendingTracker

open Lib

lemma bind_asString_eq_some_iff {o : Option Value} {s : String} :
    o.bind Value.asString = some s ↔ o = some (.string s) := by
  simp [Option.bind_eq_some_iff, Value.asString_eq_some_iff]

section Loop

variable [FIRTimestamp]

/-- The outer loop of the callback in `getTransactionsForUser`: each document is given by the
order in which its fields are enumerated. -/
def readDocuments (enumerations : List (List FieldEntry)) : List Transaction :=
  enumerations.foldl (fun transactions records => transactions ++ [readRecords records]) []

/-- The field names that the loop has a case for. -/
def knownFields : List String := ["id", "transactionType", "category", "amount", "date"]

/-- The transaction `t` is what a document with the fields `f` says: a value of the expected type
is taken over, and a type or a category is the one whose accepted name the stored string equals.
Of the types, only the name itself does. -/
structure LoadedFrom (f : Fields) (t : Transaction) : Prop where
  id : t.id = (f.lookup "id").bind Value.asString
  transactionType : ∀ k, t.transactionType = some k ↔
    k ≠ .none ∧ f.lookup "transactionType" = some (.string k.description)
  category : ∀ c, t.category = some c ↔ c.Readable ∧
    ∃ name, f.lookup "category" = some (.string name) ∧ EqualsLiteral name c.description
  amount : t.amount = (f.lookup "amount").bind Value.asInt
  date : t.date = (f.lookup "date").bind Value.asDate

/-- The documents do not meet in the loop: each contributes the transaction read from it. -/
lemma readDocuments_eq_map (enumerations : List (List FieldEntry)) :
    readDocuments enumerations = enumerations.map readRecords := by
  have key : ∀ transactions : List Transaction,
      enumerations.foldl (fun ts records => ts ++ [readRecords records]) transactions =
        transactions ++ enumerations.map readRecords := by
    induction enumerations with
    | nil => simp
    | cons records enumerations ih =>
        intro transactions
        rw [List.foldl_cons, ih, List.map_cons, List.append_assoc]
        rfl
  exact (key []).trans (List.nil_append _)

/-- Over enumerations of given documents, the loop is a function of the documents. -/
lemma readDocuments_entries (enumerations : List (AList fun _ : String => Value)) :
    readDocuments (enumerations.map AList.entries) =
      (enumerations.map AList.toFinmap).map decode := by
  rw [readDocuments_eq_map, List.map_map, List.map_map]
  rfl

/-- The loader of `Model/App.lean` is this loop, for any enumerations of the documents found. -/
lemma loaded_eq_readDocuments {documents : List Doc}
    {enumerations : List (AList fun _ : String => Value)}
    (h : enumerations.map AList.toFinmap = documents.map Document.data) :
    App.loaded documents = readDocuments (enumerations.map AList.entries) := by
  rw [readDocuments_entries, h, map_decode_data]

lemma loadedFrom_decode (f : Fields) : LoadedFrom f (decode f) := by
  rw [decode_eq]
  refine ⟨rfl, fun k => ?_, fun c => ?_, rfl, rfl⟩
  · show ((f.lookup "transactionType").bind Value.asString).bind TransactionType.ofName = some k ↔ _
    simp only [Option.bind_eq_some_iff (f := TransactionType.ofName), bind_asString_eq_some_iff,
      TransactionType.ofName_eq_some_iff]
    constructor
    · rintro ⟨name, hname, hk, rfl⟩
      exact ⟨hk, hname⟩
    · rintro ⟨hk, hname⟩
      exact ⟨_, hname, hk, rfl⟩
  · show ((f.lookup "category").bind Value.asString).bind Category.ofName = some c ↔ _
    simp only [Option.bind_eq_some_iff (f := Category.ofName), bind_asString_eq_some_iff,
      Category.ofName_eq_some_iff]
    constructor
    · rintro ⟨name, hname, hc, hequals⟩
      exact ⟨hc, name, hname, hequals⟩
    · rintro ⟨hc, name, hname, hequals⟩
      exact ⟨name, hname, hc, hequals⟩

/-- Documents that agree in the known fields are read as the same transaction. -/
lemma decode_congr {f g : Fields} (h : ∀ k ∈ knownFields, f.lookup k = g.lookup k) :
    decode f = decode g := by
  have hrecord : recordOf f = recordOf g := by
    unfold recordOf
    rw [h "id" (by decide), h "transactionType" (by decide), h "category" (by decide),
      h "amount" (by decide), h "date" (by decide)]
  rw [decode_eq, decode_eq, hrecord]

/-- **The order of the fields does not matter.**  Let the fields of the given documents be
enumerated in two ways.  The loop yields the same list for both; it has one transaction for each
document, in the order of the documents, and each says what its document says.  Moreover, a
document contributes the same transaction to any other list in which a document has the same
values in the known fields, whatever its other fields and the other documents are. -/
theorem readDocuments_enumerations {documents : List Fields}
    {enumerations enumerations' : List (AList fun _ : String => Value)}
    (order : enumerations.map AList.toFinmap = documents)
    (order' : enumerations'.map AList.toFinmap = documents) :
    readDocuments (enumerations.map AList.entries) =
        readDocuments (enumerations'.map AList.entries) ∧
      List.Forall₂ LoadedFrom documents (readDocuments (enumerations.map AList.entries)) ∧
      ∀ (others : List (AList fun _ : String => Value)) (i j : ℕ) (f : Fields)
        (a : AList fun _ : String => Value), documents[i]? = some f → others[j]? = some a →
        (∀ k ∈ knownFields, f.lookup k = a.lookup k) →
        (readDocuments (enumerations.map AList.entries))[i]? =
          (readDocuments (others.map AList.entries))[j]? := by
  simp only [readDocuments_entries, order, order', true_and]
  refine ⟨?_, fun others i j f a hf ha hknown => ?_⟩
  · exact List.forall₂_map_right_iff.mpr (List.forall₂_same.mpr fun f _ => loadedFrom_decode f)
  · have hsame : decode f = decode a.toFinmap := decode_congr hknown
    simp only [List.getElem?_map, hf, ha, Option.map_some, hsame]

end Loop

/-! ### Two orders -/

/-- The fields of a document, one of them unknown to the app and the amount mistyped. -/
def unorderedFields : AList fun _ : String => Value :=
  ⟨[⟨"amount", .string "5"⟩, ⟨"note", .null⟩, ⟨"id", .string "a"⟩, ⟨"category", .string "Other"⟩],
    show List.Nodup ["amount", "note", "id", "category"] by decide⟩

/-- The fields of a document whose category is spelled with a sign that Swift takes for a K. -/
def kelvinFields : AList fun _ : String => Value :=
  ⟨[⟨"category", .string "\u212Aids"⟩, ⟨"transactionType", .string "Income"⟩,
      ⟨"date", .timestamp 7⟩, ⟨"id", .string "b"⟩],
    show List.Nodup ["category", "transactionType", "date", "id"] by decide⟩

/-- The fields of a document that says the same, and has another field. -/
def commentedFields : AList fun _ : String => Value :=
  ⟨⟨"note", .string "a"⟩ :: kelvinFields.entries,
    show List.Nodup ["note", "category", "transactionType", "date", "id"] by decide⟩

/-- The fields from the last to the first. -/
def reversedFields (fields : AList fun _ : String => Value) : AList fun _ : String => Value :=
  ⟨fields.entries.reverse, (List.perm_nodupKeys (List.reverse_perm _)).mpr fields.nodupKeys⟩

lemma toFinmap_reversedFields (fields : AList fun _ : String => Value) :
    (reversedFields fields).toFinmap = fields.toFinmap :=
  AList.toFinmap_eq.mpr (List.reverse_perm _)

/-- Two documents are read in two ways, and the second one once more at the head of another
list. -/
theorem readDocuments_reversed :
    let read := readDocuments ([unorderedFields, kelvinFields].map AList.entries)
    read = readDocuments
        ([reversedFields unorderedFields, reversedFields kelvinFields].map AList.entries) ∧
      List.Forall₂ LoadedFrom [unorderedFields.toFinmap, kelvinFields.toFinmap] read ∧
      read[1]? = (readDocuments ([commentedFields, unorderedFields].map AList.entries))[0]? := by
  obtain ⟨hread, hloaded, hother⟩ := @readDocuments_enumerations .unchanged
    [unorderedFields.toFinmap, kelvinFields.toFinmap] [unorderedFields, kelvinFields]
    [reversedFields unorderedFields, reversedFields kelvinFields] rfl
    (by simp [toFinmap_reversedFields])
  exact ⟨hread, hloaded, hother [commentedFields, unorderedFields] 1 0 kelvinFields.toFinmap
    commentedFields rfl rfl (by decide)⟩

end SpendingTracker
