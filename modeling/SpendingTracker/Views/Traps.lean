import SpendingTracker.Model.Views

/-!
# Which documents bring the app down

The loader accepts any document.  What it makes of a document with missing or wrongly typed
fields traps later, when the list is shown or the dashboard is refreshed.  This file says
exactly for which documents this happens, in terms of the stored fields alone.
-/

namespace SpendingTracker

open Lib

/-! ### What the screens need of a document -/

/-- The document stores the name of the transaction type `k`. -/
def StoresType (k : TransactionType) (d : Doc) : Prop :=
  d.data.lookup "transactionType" = some (.string k.description)

instance (k : TransactionType) : DecidablePred (StoresType k) := fun _ =>
  inferInstanceAs (Decidable (_ = _))

/-- The stored amount, if it is an `Int`. -/
def storedAmount (d : Doc) : Option Int64 := (d.data.lookup "amount").bind Value.asInt

/-- The stored date, if it is a `Date`. -/
def storedDate (d : Doc) : Option Date := (d.data.lookup "date").bind Value.asDate

/-- The amounts of the documents of a type, in order, where there are any. -/
def storedAmounts (k : TransactionType) (documents : List Doc) : List Int64 :=
  documents.filterMap fun d => if StoresType k d then storedAmount d else none

/-- The documents make `calculateData` trap: an amount is missing, a running sum leaves the
range of an `Int`, or the balance does. -/
def SumsTrap (documents : List Doc) : Prop :=
  (∃ d ∈ documents, (StoresType .income d ∨ StoresType .expense d) ∧ storedAmount d = none) ∨
    (∃ ys, ys <+: storedAmounts .income documents ∧ ¬ Fits (exactSum ys)) ∨
    (∃ ys, ys <+: storedAmounts .expense documents ∧ ¬ Fits (exactSum ys)) ∨
    ¬ Fits (exactSum (storedAmounts .income documents) -
      exactSum (storedAmounts .expense documents))

/-- The documents whose date meets a condition. -/
def documentsDated (condition : Date → Bool) (documents : List Doc) : List Doc :=
  documents.filter fun d => (storedDate d).any condition

lemma transactionType_decode_eq_some_iff {d : Doc} {k : TransactionType} :
    (decode d.data).transactionType = some k ↔ k ≠ .none ∧ StoresType k d := by
  simp only [decode_eq, Record.decode, recordOf, Option.bind_eq_some_iff,
    TransactionType.ofName_eq_some_iff, StoresType]
  constructor
  · rintro ⟨name, ⟨v, hv, hname⟩, hk, rfl⟩
    exact ⟨hk, hv.trans (congrArg some (Value.asString_eq_some_iff.mp hname))⟩
  · rintro ⟨hk, hv⟩
    exact ⟨_, ⟨_, hv, rfl⟩, hk, rfl⟩

lemma transactionType_decode_eq_none_iff {d : Doc} :
    (decode d.data).transactionType = none ↔ ¬ StoresType .income d ∧ ¬ StoresType .expense d := by
  rw [Option.eq_none_iff_forall_ne_some]
  simp only [ne_eq, transactionType_decode_eq_some_iff, not_and]
  constructor
  · exact fun h => ⟨h .income (by decide), h .expense (by decide)⟩
  · rintro ⟨hincome, hexpense⟩ k hk
    cases k with
    | income => exact hincome
    | expense => exact hexpense
    | none => exact absurd rfl hk

lemma amount_decode (d : Doc) : (decode d.data).amount = storedAmount d := by
  rw [decode_eq]
  rfl

lemma date_decode (d : Doc) : (decode d.data).date = storedDate d := by
  rw [decode_eq]
  rfl

lemma amountsOf_loaded {k : TransactionType} (hk : k ≠ .none) (documents : List Doc) :
    amountsOf k (App.loaded documents) = storedAmounts k documents := by
  rw [amountsOf, App.loaded, List.filterMap_map, storedAmounts]
  congr 1
  funext d
  simp only [Function.comp_apply, transactionType_decode_eq_some_iff, hk, ne_eq,
    not_false_eq_true, true_and, amount_decode]

/-! ### When the totals trap -/

/-- The computation of the totals traps exactly if an amount is missing, or one of the sums or
their difference does not fit. -/
lemma Dashboard.calculateData_eq_none_iff {d : Dashboard} {s : App} {documents : List Doc}
    (h : d.transactions.map s.transaction = App.loaded documents) :
    d.calculateData s = none ↔ SumsTrap documents := by
  have hpresent : ∀ k, k ≠ .none → (AmountsPresent k (App.loaded documents) ↔
      ∀ d ∈ documents, StoresType k d → storedAmount d ≠ none) := by
    intro k hk
    simp only [AmountsPresent, App.loaded, List.forall_mem_map,
      transactionType_decode_eq_some_iff, hk, ne_eq, not_false_eq_true, true_and, amount_decode]
  have hsome : ∀ d', d.calculateData s = some d' ↔ _ := fun d' => d.calculateData_eq_some_iff
  simp only [h, hpresent .income (by decide), hpresent .expense (by decide),
    amountsOf_loaded (show TransactionType.income ≠ .none by decide),
    amountsOf_loaded (show TransactionType.expense ≠ .none by decide)] at hsome
  rw [SumsTrap, ← sumTrapping_zero_eq_none_iff, ← sumTrapping_zero_eq_none_iff]
  constructor
  · intro hnone
    by_contra hcontra
    push Not at hcontra
    obtain ⟨hamounts, hincome, hexpense, hbalance⟩ := hcontra
    obtain ⟨i, hi⟩ := Option.ne_none_iff_exists'.mp hincome
    obtain ⟨e, he⟩ := Option.ne_none_iff_exists'.mp hexpense
    rw [← toInt_of_sumTrapping_zero hi, ← toInt_of_sumTrapping_zero he] at hbalance
    -- with all amounts present and all sums in range the totals can be computed
    have htotals := (hsome ⟨d.transactions, i, e, Int64.ofInt (i.toInt - e.toInt), d.segment⟩).mpr
      ⟨⟨fun x hx hk => hamounts x hx (Or.inl hk), fun x hx hk => hamounts x hx (Or.inr hk)⟩, hi, he,
        if_pos hbalance, rfl, rfl⟩
    rw [hnone] at htotals
    cases htotals
  · intro htrap
    cases htotals : d.calculateData s with
    | none => rfl
    | some d' =>
        obtain ⟨⟨hincome, hexpense⟩, hi, he, hb, -, -⟩ := (hsome d').mp htotals
        rcases htrap with ⟨x, hx, hk | hk, hnone⟩ | hnone | hnone | hfits
        · exact absurd hnone (hincome x hx hk)
        · exact absurd hnone (hexpense x hx hk)
        · exact absurd (hi.symm.trans hnone) (by simp)
        · exact absurd (he.symm.trans hnone) (by simp)
        · rw [← toInt_of_sumTrapping_zero hi, ← toInt_of_sumTrapping_zero he,
            ← subTrapping_eq_some_iff.mp hb] at hfits
          exact absurd (fits_toInt _) hfits

/-! ### The screens after a load -/

/-- The objects a load creates hold what it has made of the documents. -/
lemma map_transaction_load (s : App) (documents : List Doc) :
    (s.load documents).shared.map (s.load documents).transaction = App.loaded documents :=
  Heap.map_read_created s.heap (App.loaded documents)

lemma Dated_decode (d : Doc) (condition : Date → Bool) :
    (decode d.data).Dated condition = (storedDate d).any condition := by
  rw [Transaction.Dated, date_decode]

/-- The loop over the dates traps exactly if a date is missing; otherwise it finds the
transactions made of the documents of the period. -/
lemma transactionsDated_load (s : App) (documents : List Doc) (condition : Date → Bool) :
    ((s.load documents).transactionsDated condition = none ↔
      ∃ d ∈ documents, storedDate d = none) ∧
    ∀ rs, (s.load documents).transactionsDated condition = some rs →
      rs.map (s.load documents).transaction = App.loaded (documentsDated condition documents) := by
  have hdates : (∀ r ∈ (s.load documents).shared, ((s.load documents).transaction r).date ≠ none) ↔
      ∀ d ∈ documents, storedDate d ≠ none := by
    have hmap := map_transaction_load s documents
    rw [← List.forall_mem_map (P := fun t : Transaction => t.date ≠ none), hmap, App.loaded,
      List.forall_mem_map]
    simp only [date_decode]
  constructor
  · rw [← not_iff_not, ← ne_eq, Option.ne_none_iff_exists']
    simp only [App.transactionsDated_eq_some_iff, exists_and_left, exists_eq, and_true, hdates,
      not_exists, not_and, ne_eq]
  · intro rs hrs
    obtain ⟨-, rfl⟩ := App.transactionsDated_eq_some_iff.mp hrs
    -- the loop looks at objects, whose dates are those of the documents
    have hcomp : (fun r => ((s.load documents).transaction r).Dated condition) =
        (fun t : Transaction => t.Dated condition) ∘ (s.load documents).transaction := rfl
    rw [hcomp, ← List.filter_map, map_transaction_load, App.loaded, List.filter_map, App.loaded,
      documentsDated]
    congr 2
    funext d
    exact Dated_decode d condition

/-- Showing every row of a list that holds the loaded store. -/
lemma render_load_eq_none_iff (s : App) (documents : List Doc) (l : ListScreen) :
    ListScreen.render { l with transactions := (s.load documents).getTransactions }
        (s.load documents) = none ↔
      ∃ d ∈ documents, (¬ StoresType .income d ∧ ¬ StoresType .expense d) ∨
        storedDate d = none := by
  have hmap : ListScreen.render { l with transactions := (s.load documents).getTransactions }
      (s.load documents) = (App.loaded documents).mapM cellForRowAt := by
    rw [← map_transaction_load s documents, List.mapM_map]
    rfl
  rw [hmap, mapM_eq_none_iff]
  simp only [App.loaded, List.mem_map, exists_exists_and_eq_and, cellForRowAt_eq_none_iff,
    transactionType_decode_eq_none_iff, date_decode]

/-- Refreshing the dashboard on a segment that shows the transactions of a period. -/
lemma updateView_period_eq_none_iff {s : App} {documents : List Doc} {d : Dashboard}
    {calendar : Calendar} {now : Date} {condition : Date → Bool}
    (h : d.updateTransactions (s.load documents) calendar now =
      ((s.load documents).transactionsDated condition).map fun ts =>
        { d with transactions := ts }) :
    d.updateView (s.load documents) calendar now = none ↔
      (∃ x ∈ documents, storedDate x = none) ∨ SumsTrap (documentsDated condition documents) := by
  obtain ⟨hnone, hsome⟩ := transactionsDated_load s documents condition
  rw [Dashboard.updateView, h, ← hnone]
  cases hrs : (s.load documents).transactionsDated condition with
  | none => simp
  | some rs =>
      simp only [Option.map_some, Option.bind_some, reduceCtorEq, false_or]
      exact Dashboard.calculateData_eq_none_iff (hsome rs hrs)

/-- **What traps.**  Let `getTransactionsForUser` have loaded a list of documents with arbitrary
fields.

* Showing all rows of the list traps if and only if some document does not store one of the
  two transaction types, or does not store a date.
* Refreshing the dashboard on the segment "All-time" traps if and only if some document of a
  recognised type does not store an `Int` as its amount, or a running sum or the balance does
  not fit.
* On the segments "This Month" and "Today" it traps if and only if some document, in the period
  or not, does not store a date, or the same is the case for the documents of the period. -/
theorem load_traps_iff (s : App) (documents : List Doc) (l : ListScreen) (d : Dashboard)
    (calendar : Calendar) (now : Date) :
    (ListScreen.render { l with transactions := (s.load documents).getTransactions }
        (s.load documents) = none ↔
      ∃ x ∈ documents, (¬ StoresType .income x ∧ ¬ StoresType .expense x) ∨
        storedDate x = none) ∧
    (Dashboard.updateView { d with segment := some 0 } (s.load documents) calendar now = none ↔
      SumsTrap documents) ∧
    (Dashboard.updateView { d with segment := some 1 } (s.load documents) calendar now = none ↔
      (∃ x ∈ documents, storedDate x = none) ∨
        SumsTrap (documentsDated (calendar.isInThisMonth now) documents)) ∧
    (Dashboard.updateView { d with segment := some 2 } (s.load documents) calendar now = none ↔
      (∃ x ∈ documents, storedDate x = none) ∨
        SumsTrap (documentsDated (calendar.isDateInToday now) documents)) :=
  ⟨render_load_eq_none_iff s documents l,
    Dashboard.calculateData_eq_none_iff (map_transaction_load s documents),
    updateView_period_eq_none_iff rfl, updateView_period_eq_none_iff rfl⟩

end SpendingTracker
