import SpendingTracker.Model.Identity

/-!
# Storing and loading

What `addTransactionsToDatabase` writes is read back by the decode loop of
`getTransactionsForUser`.  The writer stores the description of any category, but
`setCategory` has no case for two of them, so that the loaded list is a rearrangement of the
stored one exactly when neither of the two occurs in it.
-/

namespace SpendingTracker

open Lib

/-- A transaction that the Add screen can produce: a type has been chosen, and the category is
any of those the picker offers. -/
def Transaction.FromAddScreen (t : Transaction) : Prop :=
  ∃ id transactionType category amount date, transactionType ≠ TransactionType.none ∧
    t = make id transactionType category amount date

/-- Loading the documents of the user `u` can yield the list `ts`: the documents come in any
order, and the fields of each document are enumerated in any order. -/
def LoadResult (u : String) (c : Transactions) (ts : List Transaction) : Prop :=
  ∃ enumerations : List (AList fun _ : String => Value),
    (enumerations.map AList.toFinmap).Perm ((userDocuments u c).map Document.data) ∧
      ts = enumerations.map fun a => readRecords a.entries

lemma map_decode_data [FIRTimestamp] (documents : List Doc) :
    (documents.map Document.data).map decode = App.loaded documents := by
  rw [App.loaded, List.map_map]
  rfl

/-- Up to its order, the result of loading is determined by the documents. -/
lemma LoadResult.perm {u : String} {c : Transactions} {ts : List Transaction}
    (h : LoadResult u c ts) : ts.Perm (App.loaded (userDocuments u c)) := by
  obtain ⟨enumerations, hperm, rfl⟩ := h
  have hdecode := hperm.map decode
  rwa [List.map_map, map_decode_data] at hdecode

/-- Loading has a result. -/
lemma loadResult_loaded (u : String) (c : Transactions) :
    LoadResult u c (App.loaded (userDocuments u c)) := by
  have hsurj : Function.Surjective
      (AList.toFinmap : (AList fun _ : String => Value) → Fields) := fun f => by
    induction f using Finmap.induction_on with
    | H a => exact ⟨a, rfl⟩
  obtain ⟨enumerations, henum⟩ :=
    List.map_surjective_iff.mpr hsurj ((userDocuments u c).map Document.data)
  refine ⟨enumerations, henum ▸ List.Perm.refl _, ?_⟩
  rw [← map_decode_data, ← henum, List.map_map]
  rfl

/-- The documents may come the other way round. -/
lemma LoadResult.reverse {u : String} {c : Transactions} {ts : List Transaction}
    (h : LoadResult u c ts) : LoadResult u c ts.reverse := by
  obtain ⟨enumerations, hperm, rfl⟩ := h
  refine ⟨enumerations.reverse, ?_, List.map_reverse.symm⟩
  rw [List.map_reverse]
  exact (List.reverse_perm _).trans hperm

/-- What is loaded of the documents that an addition has written. -/
lemma loaded_newDocuments {u : String} {added : List (Transaction × Option String)}
    (hwritten : ∀ p ∈ added, p.2 ≠ none) :
    App.loaded (App.newDocuments u added) = added.map fun p => p.1.reloaded := by
  induction added with
  | nil => rfl
  | cons p added ih =>
      obtain ⟨t, o⟩ := p
      obtain ⟨i, rfl⟩ := Option.ne_none_iff_exists'.mp (hwritten _ List.mem_cons_self)
      have hrest := ih fun p hp => hwritten p (List.mem_cons_of_mem _ hp)
      have hfirst : decode (t.addDocumentData u) = t.reloaded := by
        rw [decode_eq, Transaction.recordOf_addDocumentData, Transaction.decode_record]
      have hcons : App.newDocuments u ((t, some i) :: added) =
          ⟨i, t.addDocumentData u⟩ :: App.newDocuments u added := rfl
      rw [hcons, App.loaded, List.map_cons, ← App.loaded, hrest, hfirst, List.map_cons]

/-- A list of transactions is a rearrangement of what remains of it after loading exactly if
every category in it has a case in the reader. -/
lemma map_reloaded_perm_iff {ts : List Transaction}
    (htype : ∀ t ∈ ts, t.transactionType ≠ some .none) :
    (ts.map Transaction.reloaded).Perm ts ↔ ∀ t ∈ ts, ∀ c, t.category = some c → c.Readable := by
  constructor
  · intro h t ht c hc
    obtain ⟨t', -, rfl⟩ := List.mem_map.mp (h.mem_iff.mpr ht)
    simp only [Transaction.reloaded, Option.bind_eq_some_iff] at hc
    obtain ⟨c', -, hc'⟩ := hc
    split_ifs at hc' with hread
    cases hc'
    exact hread
  · intro h
    have hself : ∀ t ∈ ts, t.reloaded = t := fun t ht =>
      Transaction.reloaded_eq_self_iff.mpr ⟨htype t ht, h t ht⟩
    rw [List.map_congr_left hself, List.map_id']

lemma Category.readable_iff {c : Category} : c.Readable ↔ c ≠ other ∧ c ≠ none := by
  cases c <;> decide

/-- **Decoding undoes encoding.**  Let transactions from the Add screen be added while the user
`u` is signed in, let all their documents be written, and let the documents of `u` be loaded
afterwards.  Whatever the order of the documents and of their fields, the result is a
rearrangement of what would have been loaded before, followed by the added transactions, if and
only if none of them is in the category `other` or in the category `none`. -/
theorem loadResult_add_iff {s s' : App} {u : String} {added : List (Transaction × Option String)}
    (user : s.currentUser = some u)
    (screen : ∀ p ∈ added, p.1.FromAddScreen) (written : ∀ p ∈ added, p.2 ≠ none)
    (step : s.step (.add added none) = some s') :
    (∀ ts, LoadResult u s'.collection ts →
      ts.Perm (App.loaded (userDocuments u s.collection) ++ added.map Prod.fst)) ↔
      ∀ p ∈ added, p.1.category ≠ some .other ∧ p.1.category ≠ some .none := by
  obtain ⟨⟨hnodup, hnew⟩, front, back, -, -, rfl⟩ := App.step_add_iff.mp step
  have hloaded : App.loaded (userDocuments u (s.collectionAfterAdd added)) =
      App.loaded (userDocuments u s.collection) ++
        (added.map Prod.fst).map Transaction.reloaded := by
    rw [App.userDocuments_collectionAfterAdd user hnodup hnew, App.loaded, List.map_append,
      ← App.loaded, ← App.loaded, loaded_newDocuments written, List.map_map]
    rfl
  have htype : ∀ t ∈ added.map Prod.fst, t.transactionType ≠ some .none := by
    intro t ht
    obtain ⟨p, hp, rfl⟩ := List.mem_map.mp ht
    obtain ⟨id, k, c, amount, date, hk, heq⟩ := screen p hp
    simpa [heq, Transaction.make] using hk
  have hread : (∀ t ∈ added.map Prod.fst, ∀ c, t.category = some c → c.Readable) ↔
      ∀ p ∈ added, p.1.category ≠ some .other ∧ p.1.category ≠ some .none := by
    simp only [List.forall_mem_map, Category.readable_iff]
    refine forall₂_congr fun p _ => ⟨fun h => ?_, fun h c hc => ?_⟩
    · exact ⟨fun hc => (h _ hc).1 rfl, fun hc => (h _ hc).2 rfl⟩
    · exact ⟨fun heq => h.1 (heq ▸ hc), fun heq => h.2 (heq ▸ hc)⟩
  rw [← hread, ← map_reloaded_perm_iff htype, ← List.perm_append_left_iff
    (App.loaded (userDocuments u s.collection)), ← hloaded]
  exact ⟨fun h => h _ (loadResult_loaded _ _), fun h ts hts => hts.perm.trans h⟩

/-! ### A category without a case -/

/-- The user `u` is signed in and has no transactions yet. -/
def noTransactions : App := ⟨⟨[]⟩, [], some "u", [], Collection.empty, []⟩

/-- One transaction from the Add screen, with the given category. -/
def expenseOn (c : Category) : Transaction := .make "a" .expense c 5 0

lemma fromAddScreen_expenseOn (c : Category) : (expenseOn c).FromAddScreen :=
  ⟨"a", .expense, c, 5, 0, by decide, rfl⟩

/-- Three transactions from the Add screen, with their new documents. -/
def threeAdded : List (Transaction × Option String) :=
  [(expenseOn .sport, some "d"), (.make "b" .income .kids 100 7, some "e"),
    (.make "c" .expense .travel 0 9, some "f")]

lemma fromAddScreen_threeAdded : ∀ p ∈ threeAdded, p.1.FromAddScreen := by
  intro p hp
  simp only [threeAdded, List.mem_cons, List.not_mem_nil, or_false] at hp
  rcases hp with rfl | rfl | rfl
  · exact fromAddScreen_expenseOn .sport
  · exact ⟨"b", .income, .kids, 100, 7, by decide, rfl⟩
  · exact ⟨"c", .expense, .travel, 0, 9, by decide, rfl⟩

/-- The three transactions are loaded in another order. -/
theorem loadResult_add_sport : ∃ s' ts,
    noTransactions.step (.add threeAdded none) = some s' ∧ LoadResult "u" s'.collection ts ∧
      ts ≠ threeAdded.map Prod.fst ∧ ts.Perm (threeAdded.map Prod.fst) :=
  ⟨_, _, rfl, (loadResult_loaded _ _).reverse, by decide,
    (@loadResult_add_iff noTransactions _ "u" threeAdded rfl fromAddScreen_threeAdded (by decide)
      rfl).mpr (by decide) _ (loadResult_loaded _ _).reverse⟩

/-- A transaction in the category `other` is loaded without a category. -/
theorem loadResult_add_other : ∃ s' ts,
    noTransactions.step (.add [(expenseOn .other, some "d")] none) = some s' ∧
      LoadResult "u" s'.collection ts ∧ ¬ ts.Perm [expenseOn .other] :=
  ⟨_, _, rfl, loadResult_loaded _ _, by decide⟩

end SpendingTracker
