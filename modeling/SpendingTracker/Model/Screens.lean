import SpendingTracker.Model.AmountField
import SpendingTracker.Model.Identity

/-!
# The screens

The controllers through which the user works on the transactions, and the navigation between
them:

* `Controllers/TransactionsTableViewController.swift`, the list;
* `Controllers/AddTransactionTableViewController.swift`;
* `Controllers/TransactionDetailTableViewController.swift`;
* the pickers `Controllers/TransactionTypeTableViewController.swift` and
  `Controllers/CategoriesTableViewController.swift`.

The list keeps an array of its own next to the store, and the detail screen remembers a
position in it.  A date picker never shows a date past its maximum; what it shows when it is
set to such a date is up to UIKit, and so `showDate` is a parameter: `showDate m d` is the date
shown by a picker that is set to the date `d` while its maximum is `m`, or whose maximum is set
to `m` while it shows `d`.
-/

namespace SpendingTracker

open Lib

/-! ### The Add screen and the detail screen -/

/-- What the user enters on one of the two screens. -/
inductive Input
  /-- A row of the picker for the transaction type is selected. -/
  | selectType (row : ℕ)
  /-- A row of the picker for the category is selected. -/
  | selectCategory (section_ row : ℕ)
  /-- A part of the text in the amount field is replaced. -/
  | editAmount (location length : ℕ) (replacement : List Char)
  /-- The date picker is turned to a date. -/
  | pickDate (date : Date)
deriving DecidableEq

/-- `tableView(_:didSelectRowAt:)` of the picker for the transaction type. -/
def transactionTypeOfRow (row : ℕ) : TransactionType :=
  match row with
  | 0 => .income
  | 1 => .expense
  | _ => .none

/-- `tableView(_:didSelectRowAt:)` of the picker for the category; `none` where it assigns
nothing. -/
def categoryOfRow (section_ row : ℕ) : Option Category :=
  match section_, row with
  | 0, 0 => some .clothes
  | 0, 1 => some .eatingOut
  | 0, 2 => some .entertainment
  | 0, 3 => some .fuel
  | 0, 4 => some .kids
  | 0, 5 => some .shopping
  | 0, 6 => some .sport
  | 0, 7 => some .travel
  | 0, 8 => some .other
  -- the `default` of the inner `switch`
  | 0, _ => some .none
  | 1, _ => some .none
  | _, _ => none

/-- The rows that the storyboard gives the two pickers. -/
def Input.Offered : Input → Prop
  | selectType row => row < 2
  | selectCategory section_ row => section_ = 0 ∧ row < 9 ∨ section_ = 1 ∧ row = 0
  | editAmount _ _ _ => True
  | pickDate _ => True

instance : DecidablePred Input.Offered
  | .selectType _ => inferInstanceAs (Decidable (_ < _))
  | .selectCategory _ _ => inferInstanceAs (Decidable (_ ∨ _))
  | .editAmount _ _ _ | .pickDate _ => inferInstanceAs (Decidable True)

/-- The date both date pickers have in the storyboard, to the microsecond. -/
def storyboardDate : Date := 579865988053794

/-- The maximum date of both date pickers in the storyboard, 2020-12-31 11:00:00 UTC. -/
def storyboardMaximumDate : Date := 631105200000000

/-- `AddTransactionTableViewController`. -/
structure AddScreen where
  transactionType : TransactionType
  category : Category
  categorySelected : Bool
  amountField : List Char
  datePicker : Date
deriving DecidableEq

namespace AddScreen

/-- The screen after `viewDidLoad` at the instant `now`. -/
def viewDidLoad (showDate : Date → Date → Date) (now : Date) : AddScreen :=
  ⟨.none, .none, false, [], showDate now storyboardDate⟩

def input (a : AddScreen) : Input → AddScreen
  | .selectType row => { a with transactionType := transactionTypeOfRow row }
  | .selectCategory section_ row =>
      { a with
        category := (categoryOfRow section_ row).getD a.category
        categorySelected := true }
  | .editAmount location length replacement =>
      { a with amountField := editText a.amountField location length replacement }
  | .pickDate date => { a with datePicker := date }

/-- `CheckAttributes`. -/
def CheckAttributes (a : AddScreen) : Bool :=
  a.transactionType ≠ .none && a.categorySelected && a.amountField.length ≠ 0

/-- The transaction that `addTransactionButtonClicked` makes once the input has been checked;
there is none if the amount does not parse. -/
def transaction (a : AddScreen) (uuid : String) : Option Transaction :=
  (parseInt a.amountField).map fun amount =>
    .make uuid a.transactionType a.category amount a.datePicker

end AddScreen

/-- `TransactionDetailTableViewController`. -/
structure DetailScreen where
  transaction : Ref
  row : ℕ
  transactionType : Option TransactionType
  category : Option Category
  amountField : List Char
  datePicker : Date
deriving DecidableEq

namespace DetailScreen

/-- The screen for the object `r` with the contents `t` after `viewDidLoad` at the instant
`now`; the transaction's date is unwrapped.  The picker is set to the date of the transaction
before its maximum is changed. -/
def viewDidLoad (showDate : Date → Date → Date) (now : Date) (t : Transaction) (r : Ref)
    (row : ℕ) : Option DetailScreen :=
  t.date.map fun date =>
    { transaction := r
      row := row
      transactionType := t.transactionType
      category := t.category
      amountField := (t.amount.map amountDescription).getD []
      datePicker := showDate now (showDate storyboardMaximumDate date) }

def input (d : DetailScreen) : Input → DetailScreen
  | .selectType row => { d with transactionType := some (transactionTypeOfRow row) }
  | .selectCategory section_ row =>
      { d with category := (categoryOfRow section_ row).or d.category }
  | .editAmount location length replacement =>
      { d with amountField := editText d.amountField location length replacement }
  | .pickDate date => { d with datePicker := date }

/-- `CheckAttributes`. -/
def CheckAttributes (d : DetailScreen) : Bool := d.amountField.length ≠ 0

/-- The values that `saveButtonClicked` assigns once the input has been checked; there are none
if the amount does not parse. -/
def edit (d : DetailScreen) : Option Edit :=
  (parseInt d.amountField).map fun amount =>
    ⟨d.transactionType, d.category, amount, d.datePicker⟩

@[simp] lemma transaction_input (d : DetailScreen) (i : Input) :
    (d.input i).transaction = d.transaction := by
  cases i <;> rfl

lemma transaction_foldl_input (inputs : List Input) (d : DetailScreen) :
    (inputs.foldl input d).transaction = d.transaction := by
  induction inputs generalizing d with
  | nil => rfl
  | cons i inputs ih => rw [List.foldl_cons, ih, transaction_input]

@[simp] lemma row_input (d : DetailScreen) (i : Input) : (d.input i).row = d.row := by
  cases i <;> rfl

lemma viewDidLoad_eq_some {showDate : Date → Date → Date} {now : Date} {t : Transaction} {r : Ref}
    {row : ℕ} {d : DetailScreen} (h : viewDidLoad showDate now t r row = some d) :
    ∃ date, t.date = some date ∧
      d = ⟨r, row, t.transactionType, t.category, (t.amount.map amountDescription).getD [],
        showDate now (showDate storyboardMaximumDate date)⟩ := by
  obtain ⟨date, hdate, rfl⟩ := Option.map_eq_some_iff.mp h
  exact ⟨date, hdate, rfl⟩

end DetailScreen

/-! ### The list and the navigation -/

/-- `TransactionsTableViewController`. -/
structure ListScreen where
  transactions : List Ref
  addedTransaction : Bool
  /-- The number of rows that the table has asked for when it was last reloaded. -/
  rows : ℕ
deriving DecidableEq

/-- The list controller before its view has been loaded. -/
def ListScreen.init : ListScreen := ⟨[], false, 0⟩

/-- What the user sees. -/
inductive Top
  /-- The login screen. -/
  | login
  /-- The tabs; the list has not been shown yet. -/
  | tabs
  /-- The list is about to appear. -/
  | appearing
  | list
  | add (screen : AddScreen)
  | detail (screen : DetailScreen)
deriving DecidableEq

/-- The app together with its screens. -/
structure Screens where
  app : App
  list : ListScreen
  top : Top
deriving DecidableEq

/-- What can happen next, seen from the screens. -/
inductive ScreenEvent
  /-- An event that no button of these screens causes. -/
  | background (e : Event)
  /-- Another tabs screen is presented. -/
  | presentTabs
  /-- The view of the list is loaded.  What becomes of the row that it inserts then is left to
  `Model/Display.lean`. -/
  | viewDidLoad
  | viewWillAppear
  | openAdd (now : Date)
  | openDetail (row : ℕ) (now : Date)
  | input (i : Input)
  /-- The user leaves the Add screen or the detail screen without confirming. -/
  | back
  /-- `addTransactionButtonClicked`, with the identifier that `UUID()` yields and the identifier
  of the new document, or `none` if its write fails. -/
  | addButton (uuid : String) (documentID : Option String)
  /-- `saveButtonClicked`. -/
  | saveButton
  /-- `deleteTransactionButtonClicked`, answered with "Yes". -/
  | deleteButton
deriving DecidableEq

namespace Screens

/-- The screens when the app has been launched. -/
def launch (app : App) : Screens := ⟨app, .init, .login⟩

/-- `viewWillAppear` of the list, if it does not trap. -/
def viewWillAppear (s : Screens) : Screens :=
  -- only the Add screen sets the flag; otherwise the list keeps its entries
  let transactions := if s.list.addedTransaction then s.app.getTransactions else s.list.transactions
  { s with list := ⟨transactions, false, transactions.length⟩ }

/-- `insertRows` in `viewWillAppear` goes through: UIKit raises an exception unless the table has
one row more than when it was last reloaded. -/
def InsertsRow (s : Screens) : Prop :=
  s.list.addedTransaction = true → s.viewWillAppear.list.rows = s.list.rows + 1

instance (s : Screens) : Decidable s.InsertsRow := inferInstanceAs (Decidable (_ → _))

/-- The user has left the screens for the login screen, or has been brought from there to the
tabs by the end of a fetch. -/
def afterBackground (s : Screens) (e : Event) (app : App) : Screens :=
  if e = .signOut then ⟨app, .init, .login⟩
  else if s.top = .login ∧ (s.app.fetched e).isSome then ⟨app, .init, .tabs⟩
  else { s with app := app }

/-- `addTransactionButtonClicked`.  An identifier from `UUID()` is a new one. -/
def addButton [StringEquality] [FIRTimestamp] (s : Screens) (a : AddScreen) (uuid : String)
    (documentID : Option String) : Option Screens :=
  if a.CheckAttributes then
    -- not an event: `UUID()` does not yield an identifier in use
    if s.app.Uses uuid then none
    else
      (a.transaction uuid).bind fun t =>
        (s.app.step (.add [(t, documentID)] none)).map fun app =>
          { app := app
            list := { s.list with
              transactions := app.getTransactions
              addedTransaction := true }
            top := .appearing }
  else some s

/-- `saveButtonClicked`. -/
def saveButton [StringEquality] [FIRTimestamp] (s : Screens) (d : DetailScreen) : Option Screens :=
  if d.CheckAttributes then
    d.edit.bind fun e =>
      (s.app.step (.save d.transaction e)).map fun app => { s with app := app, top := .appearing }
  else some s

/-- `deleteTransactionButtonClicked`: the list drops its entry by position, which traps when
there is none, and the store drops it by id. -/
def deleteButton [StringEquality] [FIRTimestamp] (s : Screens) (d : DetailScreen) :
    Option Screens :=
  if d.row < s.list.transactions.length then
    (s.app.step (.remove (s.app.transaction d.transaction).id)).map fun app =>
      { app := app
        list := { s.list with transactions := s.list.transactions.eraseIdx d.row }
        top := .appearing }
  else none

/-- The effect of an event; `none` means that it cannot occur, or that the app traps. -/
def step [StringEquality] [FIRTimestamp] (showDate : Date → Date → Date) (s : Screens) :
    ScreenEvent → Option Screens
  | .background e =>
      if e.Background then (s.app.step e).map (s.afterBackground e) else none
  | .presentTabs => if s.top = .login then none else some { s with list := .init, top := .tabs }
  | .viewDidLoad =>
      if s.top = .tabs then
        some { s with
          list := { s.list with transactions := s.app.getTransactions }
          top := .appearing }
      else none
  | .viewWillAppear =>
      if s.InsertsRow then
        match s.top with
        | .login | .tabs => none
        | .appearing => some { s.viewWillAppear with top := .list }
        | .list | .add _ | .detail _ => some s.viewWillAppear
      else none
  | .openAdd now =>
      if s.top = .list then some { s with top := .add (.viewDidLoad showDate now) } else none
  | .openDetail row now =>
      if s.top = .list ∧ row < s.list.rows then
        s.list.transactions[row]?.bind fun r =>
          (DetailScreen.viewDidLoad showDate now (s.app.transaction r) r row).map fun d =>
            { s with top := .detail d }
      else none
  | .input i =>
      if i.Offered then
        match s.top with
        | .add a => some { s with top := .add (a.input i) }
        | .detail d => some { s with top := .detail (d.input i) }
        | _ => none
      else none
  | .back =>
      match s.top with
      | .add _ | .detail _ => some { s with top := .appearing }
      | _ => none
  | .addButton uuid documentID =>
      match s.top with
      | .add a => s.addButton a uuid documentID
      | _ => none
  | .saveButton =>
      match s.top with
      | .detail d => s.saveButton d
      | _ => none
  | .deleteButton =>
      match s.top with
      | .detail d => s.deleteButton d
      | _ => none

@[simp] lemma app_afterBackground (s : Screens) (e : Event) (app : App) :
    (s.afterBackground e app).app = app := by
  unfold afterBackground
  split_ifs <;> rfl

/-! ### What one event can do -/

section Inversion

variable [StringEquality] [FIRTimestamp] {showDate : Date → Date → Date} {s s' : Screens}

lemma step_background_iff {e : Event} :
    s.step showDate (.background e) = some s' ↔
      e.Background = true ∧ ∃ app, s.app.step e = some app ∧ s.afterBackground e app = s' := by
  simp only [step]
  split_ifs with he
  · simp [he]
  · simp [he]

lemma step_presentTabs (h : s.step showDate .presentTabs = some s') :
    s.top ≠ .login ∧ s' = { s with list := .init, top := .tabs } := by
  simp only [step] at h
  split_ifs at h with htop
  exact ⟨htop, (Option.some.inj h).symm⟩

lemma step_viewDidLoad (h : s.step showDate .viewDidLoad = some s') :
    s.top = .tabs ∧ s' = { s with
      list := { s.list with transactions := s.app.shared }
      top := .appearing } := by
  simp only [step] at h
  split_ifs at h with htop
  exact ⟨htop, (Option.some.inj h).symm⟩

lemma step_viewWillAppear (h : s.step showDate .viewWillAppear = some s') :
    (s.top = .appearing ∧ s' = { s.viewWillAppear with top := .list }) ∨
      ((s.top = .list ∨ (∃ a, s.top = .add a) ∨ ∃ d, s.top = .detail d) ∧
        s' = s.viewWillAppear) := by
  simp only [step] at h
  split_ifs at h
  split at h
  case h_1 => cases h
  case h_2 => cases h
  case h_3 htop => exact Or.inl ⟨htop, (Option.some.inj h).symm⟩
  case h_4 htop => exact Or.inr ⟨Or.inl htop, (Option.some.inj h).symm⟩
  case h_5 a htop => exact Or.inr ⟨Or.inr (Or.inl ⟨a, htop⟩), (Option.some.inj h).symm⟩
  case h_6 d htop => exact Or.inr ⟨Or.inr (Or.inr ⟨d, htop⟩), (Option.some.inj h).symm⟩

lemma step_openAdd {now : Date} (h : s.step showDate (.openAdd now) = some s') :
    s.top = .list ∧ s' = { s with top := .add (.viewDidLoad showDate now) } := by
  simp only [step] at h
  split_ifs at h with htop
  exact ⟨htop, (Option.some.inj h).symm⟩

lemma step_openDetail {row : ℕ} {now : Date}
    (h : s.step showDate (.openDetail row now) = some s') :
    s.top = .list ∧ ∃ r d, s.list.transactions[row]? = some r ∧
      DetailScreen.viewDidLoad showDate now (s.app.transaction r) r row = some d ∧
      s' = { s with top := .detail d } := by
  simp only [step] at h
  split_ifs at h with hguard
  simp only [Option.bind_eq_some_iff, Option.map_eq_some_iff] at h
  obtain ⟨r, hr, d, hd, rfl⟩ := h
  exact ⟨hguard.1, r, d, hr, hd, rfl⟩

lemma step_input {i : Input} (h : s.step showDate (.input i) = some s') :
    i.Offered ∧ ((∃ a, s.top = .add a ∧ s' = { s with top := .add (a.input i) }) ∨
      ∃ d, s.top = .detail d ∧ s' = { s with top := .detail (d.input i) }) := by
  simp only [step] at h
  split_ifs at h with hi
  refine ⟨hi, ?_⟩
  split at h
  case h_1 a htop => exact Or.inl ⟨a, htop, (Option.some.inj h).symm⟩
  case h_2 d htop => exact Or.inr ⟨d, htop, (Option.some.inj h).symm⟩
  case h_3 => cases h

lemma step_back (h : s.step showDate .back = some s') :
    ((∃ a, s.top = .add a) ∨ ∃ d, s.top = .detail d) ∧ s' = { s with top := .appearing } := by
  simp only [step] at h
  split at h
  case h_1 a htop => exact ⟨Or.inl ⟨a, htop⟩, (Option.some.inj h).symm⟩
  case h_2 d htop => exact ⟨Or.inr ⟨d, htop⟩, (Option.some.inj h).symm⟩
  case h_3 => cases h

lemma step_addButton {uuid : String} {documentID : Option String}
    (h : s.step showDate (.addButton uuid documentID) = some s') :
    ∃ a, s.top = .add a ∧ (a.CheckAttributes = false ∧ s' = s ∨
      a.CheckAttributes = true ∧ ¬ s.app.Uses uuid ∧ ∃ t app, a.transaction uuid = some t ∧
        s.app.step (.add [(t, documentID)] none) = some app ∧
        s' = ⟨app, { s.list with transactions := app.shared, addedTransaction := true },
          .appearing⟩) := by
  simp only [step] at h
  split at h
  case h_2 => cases h
  case h_1 a htop =>
    refine ⟨a, htop, ?_⟩
    unfold addButton at h
    split_ifs at h with hcheck huuid
    · simp only [Option.bind_eq_some_iff, Option.map_eq_some_iff] at h
      obtain ⟨t, ht, app, happ, rfl⟩ := h
      exact Or.inr ⟨hcheck, huuid, t, app, ht, happ, rfl⟩
    · exact Or.inl ⟨by simpa using hcheck, (Option.some.inj h).symm⟩

lemma step_saveButton (h : s.step showDate .saveButton = some s') :
    ∃ d, s.top = .detail d ∧ (d.CheckAttributes = false ∧ s' = s ∨
      d.CheckAttributes = true ∧ ∃ e app, d.edit = some e ∧
        s.app.step (.save d.transaction e) = some app ∧
        s' = { s with app := app, top := .appearing }) := by
  simp only [step] at h
  split at h
  case h_2 => cases h
  case h_1 d htop =>
    refine ⟨d, htop, ?_⟩
    unfold saveButton at h
    split_ifs at h with hcheck
    · simp only [Option.bind_eq_some_iff, Option.map_eq_some_iff] at h
      obtain ⟨e, he, app, happ, rfl⟩ := h
      exact Or.inr ⟨hcheck, e, app, he, happ, rfl⟩
    · exact Or.inl ⟨by simpa using hcheck, (Option.some.inj h).symm⟩

lemma step_deleteButton (h : s.step showDate .deleteButton = some s') :
    ∃ d, s.top = .detail d ∧ d.row < s.list.transactions.length ∧ ∃ app,
      s.app.step (.remove (s.app.transaction d.transaction).id) = some app ∧
      s' = ⟨app, { s.list with transactions := s.list.transactions.eraseIdx d.row },
        .appearing⟩ := by
  simp only [step] at h
  split at h
  case h_2 => cases h
  case h_1 d htop =>
    unfold deleteButton at h
    split_ifs at h with hrow
    obtain ⟨app, happ, rfl⟩ := Option.map_eq_some_iff.mp h
    exact ⟨d, htop, hrow, app, happ, rfl⟩

end Inversion

end Screens

end SpendingTracker
