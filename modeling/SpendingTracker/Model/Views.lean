import SpendingTracker.Model.Screens

/-!
# What the screens show

The cells of the list (`tableView(_:cellForRowAt:)` in
`Controllers/TransactionsTableViewController.swift`) and the numbers of the dashboard
(`Controllers/DashboardTableViewController.swift`).  Both unwrap optional fields of the
transactions, and the dashboard adds up 64-bit integers; `none` is a trap.

How numbers and dates are written out, the colours, the icons and the chart do not matter
here: a cell holds the values that are formatted.  The calendar is a parameter.
-/

namespace SpendingTracker

open Lib

/-! ### The list -/

/-- The contents of a cell. -/
structure Cell where
  categoryLabel : Option String
  sign : String
  /-- The amount, or `none` where the text "Error" stands in its place. -/
  amount : Option Int64
  date : Date
deriving DecidableEq

/-- `tableView(_:cellForRowAt:)` for the transaction of the row: the type and the date are
unwrapped. -/
def cellForRowAt (t : Transaction) : Option Cell :=
  t.transactionType.bind fun transactionType =>
    let sign :=
      match transactionType with
      | .income => "+"
      | .expense => "-"
      | .none => ""
    t.date.map fun date =>
      { categoryLabel := t.category.map Category.description
        sign := sign
        amount := t.amount
        date := date }

/-- All rows of the list. -/
def ListScreen.render (l : ListScreen) (s : App) : Option (List Cell) :=
  l.transactions.mapM fun r => cellForRowAt (s.transaction r)

/-! ### The dashboard -/

/-- What the dashboard asks of `Calendar.current`. -/
structure Calendar where
  /-- `component(.month, from:)`. -/
  month : Date → ℤ
  /-- `component(.year, from:)`. -/
  year : Date → ℤ
  /-- `isDateInToday(_:)`, for a clock that shows the first date. -/
  isDateInToday : Date → Date → Bool

/-- The condition in `getThisMonthTransactions`. -/
def Calendar.isInThisMonth (calendar : Calendar) (now date : Date) : Bool :=
  calendar.month date = calendar.month now && calendar.year date = calendar.year now

/-- The loop of `getThisMonthTransactions` and `getTodayTransactions`: the transactions of the
store whose date, which is unwrapped, meets a condition. -/
def App.transactionsDated (s : App) (condition : Date → Bool) : Option (List Ref) :=
  s.getTransactions.foldlM (fun output r =>
    (s.transaction r).date.map fun date => if condition date then output ++ [r] else output) []

def App.getThisMonthTransactions (s : App) (calendar : Calendar) (now : Date) :
    Option (List Ref) :=
  s.transactionsDated (calendar.isInThisMonth now)

def App.getTodayTransactions (s : App) (calendar : Calendar) (now : Date) : Option (List Ref) :=
  s.transactionsDated (calendar.isDateInToday now)

/-- One of the two conditional additions in `calculateData`: the amount of a transaction of the
type `k`, which is unwrapped, is added to a running sum. -/
def addAmount (k : TransactionType) (sum : Int64) (t : Transaction) : Option Int64 :=
  if t.transactionType = some k then t.amount.bind (addTrapping sum) else some sum

/-- The loop of `calculateData` over the contents of the transactions, from the given income
and expense. -/
def sumTransactions (income expense : Int64) : List Transaction → Option (Int64 × Int64)
  | [] => some (income, expense)
  | t :: ts =>
      (addAmount .income income t).bind fun income' =>
        (addAmount .expense expense t).bind fun expense' => sumTransactions income' expense' ts

/-- `DashboardTableViewController`. -/
structure Dashboard where
  transactions : List Ref
  income : Int64
  expense : Int64
  balance : Int64
  /-- `segment`, the index that is selected in the segmented control. -/
  segment : Option ℤ
deriving DecidableEq

namespace Dashboard

/-- `updateTransactions`. -/
def updateTransactions (d : Dashboard) (s : App) (calendar : Calendar) (now : Date) :
    Option Dashboard :=
  match d.segment with
  | some 0 => some { d with transactions := s.getTransactions }
  | some 1 => (s.getThisMonthTransactions calendar now).map fun ts => { d with transactions := ts }
  | some 2 => (s.getTodayTransactions calendar now).map fun ts => { d with transactions := ts }
  | _ => some d

/-- `calculateData`. -/
def calculateData (d : Dashboard) (s : App) : Option Dashboard :=
  (sumTransactions 0 0 (d.transactions.map s.transaction)).bind fun (income, expense) =>
    (subTrapping income expense).map fun balance =>
      { d with income := income, expense := expense, balance := balance }

/-- `updateView`. -/
def updateView (d : Dashboard) (s : App) (calendar : Calendar) (now : Date) : Option Dashboard :=
  (d.updateTransactions s calendar now).bind fun d' => d'.calculateData s

end Dashboard

/-! ### When the list traps -/

lemma cellForRowAt_eq_none_iff {t : Transaction} :
    cellForRowAt t = none ↔ t.transactionType = none ∨ t.date = none := by
  unfold cellForRowAt
  cases t.transactionType <;> simp

lemma mapM_eq_none_iff {α β : Type} {f : α → Option β} {l : List α} :
    l.mapM f = none ↔ ∃ a ∈ l, f a = none := by
  induction l with
  | nil => simp
  | cons a l ih =>
      rw [List.mapM_cons]
      cases ha : f a with
      | none => simp [ha]
      | some b =>
          cases hl : l.mapM f with
          | none =>
              obtain ⟨x, hx, hfx⟩ := ih.mp hl
              exact iff_of_true rfl ⟨x, List.mem_cons_of_mem a hx, hfx⟩
          | some bs =>
              have hnone : ¬ ∃ a ∈ l, f a = none := fun h => by simp [ih.mpr h] at hl
              simpa [ha] using hnone

/-! ### The transactions of a period -/

/-- The transaction has a date, and the date meets the condition. -/
def Transaction.Dated (t : Transaction) (condition : Date → Bool) : Bool := t.date.any condition

/-- The loop over the store keeps, in order, the transactions whose date meets the condition, if
all transactions have a date. -/
lemma App.transactionsDated_eq_some_iff {s : App} {condition : Date → Bool} {rs : List Ref} :
    s.transactionsDated condition = some rs ↔ (∀ r ∈ s.shared, (s.transaction r).date ≠ none) ∧
      rs = s.shared.filter fun r => (s.transaction r).Dated condition := by
  have key : ∀ (l output : List Ref), l.foldlM (fun output r =>
      (s.transaction r).date.map fun date => if condition date then output ++ [r] else output)
      output = some rs ↔ (∀ r ∈ l, (s.transaction r).date ≠ none) ∧
        rs = output ++ l.filter fun r => (s.transaction r).Dated condition := by
    intro l
    induction l with
    | nil =>
        intro output
        exact ⟨fun h => ⟨by simp, by simpa using (Option.some.inj h).symm⟩, fun h => by simp [h.2]⟩
    | cons r l ih =>
        intro output
        rw [List.foldlM_cons]
        cases hr : (s.transaction r).date with
        | none => simp [hr]
        | some date =>
            have hdated : (s.transaction r).Dated condition = condition date := by
              simp [Transaction.Dated, hr]
            simp only [Option.map_some, Option.bind_eq_bind, Option.bind_some, ih,
              List.forall_mem_cons, hr, ne_eq, reduceCtorEq, not_false_eq_true, true_and,
              List.filter_cons, hdated]
            split_ifs <;> simp
  exact (key s.shared []).trans (by simp)

/-! ### The sums of the dashboard -/

/-- The amounts of the transactions of a type, in order, where there are any. -/
def amountsOf (k : TransactionType) (ts : List Transaction) : List Int64 :=
  ts.filterMap fun t => if t.transactionType = some k then t.amount else none

/-- Every transaction of the type `k` has an amount. -/
def AmountsPresent (k : TransactionType) (ts : List Transaction) : Prop :=
  ∀ t ∈ ts, t.transactionType = some k → t.amount ≠ none

lemma addAmount_eq_some_iff {k : TransactionType} {a b : Int64} {t : Transaction} :
    addAmount k a t = some b ↔ (t.transactionType = some k → t.amount ≠ none) ∧
      sumTrapping a (amountsOf k [t]) = some b := by
  by_cases hk : t.transactionType = some k
  · cases hamount : t.amount with
    | none => simp [addAmount, hk, hamount]
    | some amount => simp [addAmount, amountsOf, hk, hamount, sumTrapping]
  · simp [addAmount, amountsOf, hk, sumTrapping]

lemma amountsOf_cons (k : TransactionType) (t : Transaction) (ts : List Transaction) :
    amountsOf k (t :: ts) = amountsOf k [t] ++ amountsOf k ts := by
  rw [amountsOf, amountsOf, amountsOf, ← List.filterMap_append]
  rfl

/-- The loop adds up the two lists of amounts, provided that all of them are there. -/
lemma sumTransactions_eq_some_iff {income expense : Int64} {ts : List Transaction}
    {p : Int64 × Int64} :
    sumTransactions income expense ts = some p ↔
      (AmountsPresent .income ts ∧ AmountsPresent .expense ts) ∧
        sumTrapping income (amountsOf .income ts) = some p.1 ∧
        sumTrapping expense (amountsOf .expense ts) = some p.2 := by
  induction ts generalizing income expense with
  | nil => simp [sumTransactions, AmountsPresent, amountsOf, sumTrapping, Prod.ext_iff]
  | cons t ts ih =>
      simp only [sumTransactions, Option.bind_eq_some_iff, addAmount_eq_some_iff, ih,
        AmountsPresent, List.forall_mem_cons, amountsOf_cons _ t ts, sumTrapping_append]
      constructor
      · rintro ⟨a, ⟨hi, ha⟩, b, ⟨he, hb⟩, ⟨his, hes⟩, hap, hbp⟩
        exact ⟨⟨⟨hi, his⟩, he, hes⟩, ⟨a, ha, hap⟩, b, hb, hbp⟩
      · rintro ⟨⟨⟨hi, his⟩, he, hes⟩, ⟨a, ha, hap⟩, b, hb, hbp⟩
        exact ⟨a, ⟨hi, ha⟩, b, ⟨he, hb⟩, ⟨his, hes⟩, hap, hbp⟩

/-- The totals that `calculateData` computes, if it does not trap. -/
lemma Dashboard.calculateData_eq_some_iff {d d' : Dashboard} {s : App} :
    d.calculateData s = some d' ↔
      (AmountsPresent .income (d.transactions.map s.transaction) ∧
        AmountsPresent .expense (d.transactions.map s.transaction)) ∧
      sumTrapping 0 (amountsOf .income (d.transactions.map s.transaction)) = some d'.income ∧
      sumTrapping 0 (amountsOf .expense (d.transactions.map s.transaction)) = some d'.expense ∧
      subTrapping d'.income d'.expense = some d'.balance ∧
      d'.transactions = d.transactions ∧ d'.segment = d.segment := by
  simp only [calculateData, Option.bind_eq_some_iff, Option.map_eq_some_iff, Prod.exists,
    sumTransactions_eq_some_iff]
  constructor
  · rintro ⟨i, e, ⟨hp, hi, he⟩, balance, hb, rfl⟩
    exact ⟨hp, hi, he, hb, rfl, rfl⟩
  · obtain ⟨ts, i, e, balance, segment⟩ := d'
    rintro ⟨hp, hi, he, hb, rfl, rfl⟩
    exact ⟨i, e, ⟨hp, hi, he⟩, balance, hb, rfl⟩

end SpendingTracker
