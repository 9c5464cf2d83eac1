import SpendingTracker.Lib.Grouping
import SpendingTracker.Model.Views

/-!
# Texts, colours and tabs

What `Model/Views.lean` computes, as it is written on the screen: `formattedWithSeparator` of
`Models/Helper.swift`, the amount label of a row, and the labels and the icon that `updateView`
sets in `Controllers/DashboardTableViewController.swift`.

The second part puts the dashboard beside the list in the tab bar of `Tabs.storyboard`, which
starts with the dashboard.  A tab can be selected only while the tab bar is visible, which the
Add screen and the detail screen hide.  The views of the dashboard and of the list are loaded
when their tabs are shown for the first time.  The dashboard is brought up to date when it
appears and when a segment is selected, and at no other time.

`viewDidLoad` of the list inserts a row into a table that has not asked for its rows yet.
Whether UIKit takes this or raises an exception is not documented, and so it is a parameter:
`acceptsRow n` says that it goes through while the list has `n` transactions.
-/

namespace SpendingTracker

open Lib

/-! ### Texts -/

section Texts

variable [NumberFormat]

/-- The digits of a number in the user's locale. -/
def localDigits (n : ℕ) : List Char :=
  (Nat.toDigits 10 n).map fun c => NumberFormat.digit (c.toNat - '0'.toNat)

/-- The digits of a number in groups. -/
def groupedDigits (n : ℕ) : List Char :=
  grouped (NumberFormat.endsGroup (localDigits n).length) ' ' (localDigits n)

/-- `Int.formattedWithSeparator`. -/
def formattedWithSeparator (n : Int64) : List Char :=
  if n.toInt < 0 then NumberFormat.minusSign ++ groupedDigits n.toInt.natAbs
  else groupedDigits n.toInt.natAbs

/-- The text behind every amount. -/
def currency : List Char := " Kč".toList

/-- The colours of the labels. -/
inductive Colour
  /-- The asset `IncomeColor`. -/
  | income
  /-- The asset `ExpenseColor`. -/
  | expense
  | black
deriving DecidableEq

/-- The name of the image of a transaction type. -/
def TransactionType.image : TransactionType → String
  | income => "IncomeIcon"
  | expense => "ExpenseIcon"
  | none => "NoneIcon"

/-- The name of the image of a category. -/
def Category.image : Category → String
  | clothes => "ClothesIcon"
  | eatingOut => "EatingOutIcon"
  | entertainment => "EntertainmentIcon"
  | fuel => "FuelIcon"
  | kids => "KidsIcon"
  | shopping => "ShoppingIcon"
  | sport => "SportsIcon"
  | travel => "TravelIcon"
  | other => "SpendingIcon"
  | none => "NoneIcon"

/-- The text of `amountLabel` in a cell. -/
def Cell.amountLabel (c : Cell) : List Char :=
  c.sign.toList ++ (c.amount.map formattedWithSeparator).getD "Error".toList ++ currency

/-- The colour of `amountLabel` in the cell of a transaction of a type. -/
def TransactionType.amountColour : TransactionType → Colour
  | income => .income
  | expense => .expense
  | none => .black

/-- What `updateView` sets on the dashboard. -/
structure Labels where
  balanceIcon : String
  balanceColour : Colour
  balanceField : List Char
  incomeField : List Char
  expenseField : List Char
deriving DecidableEq

namespace Dashboard

/-- `getBalanceIcon`. -/
def getBalanceIcon (d : Dashboard) : String :=
  if d.balance.toInt < 0 then "ExpenseIcon"
  else if 0 < d.balance.toInt then "IncomeIcon"
  else "NoneIcon"

/-- The second half of `updateView`. -/
def labels (d : Dashboard) : Labels :=
  let sign := if d.balance.toInt < 0 then "" else if 0 < d.balance.toInt then "+" else ""
  { balanceIcon := d.getBalanceIcon
    balanceColour :=
      if d.balance.toInt < 0 then .expense else if 0 < d.balance.toInt then .income else .black
    balanceField := sign.toList ++ formattedWithSeparator d.balance ++ currency
    incomeField := '+' :: formattedWithSeparator d.income ++ currency
    expenseField := '-' :: formattedWithSeparator d.expense ++ currency }

end Dashboard

end Texts

/-! ### The tab bar -/

/-- The tabs, in their order. -/
inductive Tab
  | transactions
  | report
  | settings
deriving DecidableEq

/-- The dashboard with what it shows. -/
structure Report where
  dashboard : Dashboard
  labels : Labels
  /-- The instant of the last refresh. -/
  refreshed : Date
deriving DecidableEq

/-- The screens in the tab bar. -/
structure Tabs where
  screens : Screens
  /-- The dashboard, once its view has been loaded. -/
  report : Option Report
  selected : Tab
deriving DecidableEq

/-- What can happen next. -/
inductive TabsEvent
  | screens (e : ScreenEvent)
  /-- The dashboard appears at the instant `now`. -/
  | viewDidAppear (now : Date)
  /-- A tab is selected at the instant `now`. -/
  | select (tab : Tab) (now : Date)
  /-- A segment of the dashboard is selected at the instant `now`. -/
  | segmentControlClicked (segment : ℕ) (now : Date)
deriving DecidableEq

/-- The event does not belong to the tab of the list. -/
def ScreenEvent.Anywhere : ScreenEvent → Bool
  | background _ | presentTabs => true
  | _ => false

namespace Tabs

/-- The tab bar when the app has been launched; it is not on the screen yet. -/
def launch (app : App) : Tabs := ⟨.launch app, none, .report⟩

/-- The user can select a tab. -/
def Visible (s : Tabs) : Prop := s.screens.top = .list ∨ s.screens.top = .tabs

instance (s : Tabs) : Decidable s.Visible := inferInstanceAs (Decidable (_ ∨ _))

/-- The controller of the dashboard after `viewDidLoad`, which reads the segment selected in the
storyboard. -/
def viewDidLoad : Dashboard := ⟨[], 0, 0, 0, some 0⟩

/-- The controller of the dashboard; its view is loaded if this has not been done. -/
def dashboard (s : Tabs) : Dashboard := (s.report.map Report.dashboard).getD viewDidLoad

/-- The tab bar after an event of the screens.  The login screen covers it; after a sign-in, and
when a fetch presents one, another tab bar starts, in which nothing has been loaded. -/
def afterScreens (s : Tabs) (e : ScreenEvent) (screens : Screens) : Tabs :=
  if screens.top = .login ∨ screens.top = .tabs ∧ (s.screens.top = .login ∨ e = .presentTabs) then
    ⟨screens, none, .report⟩
  else { s with screens := screens }

section Step

variable [NumberFormat] [FIRTimestamp] (showDate : Date → Date → Date) (calendar : Calendar)
  (acceptsRow : ℕ → Bool)

/-- `updateView`, with the labels it sets. -/
def updateView (s : Tabs) (d : Dashboard) (now : Date) : Option Tabs :=
  (d.updateView s.screens.app calendar now).map fun d' =>
    { s with report := some ⟨d', d'.labels, now⟩ }

/-- The tab of the list is selected: its view is loaded, or, if this has been done, it appears. -/
def selectTransactions (s : Tabs) : Option Tabs :=
  if s.screens.top = .tabs then
    if acceptsRow s.screens.app.getTransactions.length then
      (s.screens.step showDate .viewDidLoad).map fun screens =>
        { s with screens := screens, selected := .transactions }
    else none
  else
    (s.screens.step showDate .viewWillAppear).map fun screens =>
      { s with screens := screens, selected := .transactions }

/-- The effect of an event; `none` means that it cannot occur, or that the app traps. -/
def step (s : Tabs) : TabsEvent → Option Tabs
  | .screens e =>
      -- the list and its buttons can be reached only in their own tab
      if s.selected = .transactions ∨ e.Anywhere then
        (s.screens.step showDate e).map (s.afterScreens e)
      else none
  | .viewDidAppear now =>
      if s.selected = .report ∧ s.Visible then s.updateView calendar s.dashboard now else none
  | .select tab now =>
      if s.Visible then
        if tab = s.selected then some s
        else
          match tab with
          | .transactions => s.selectTransactions showDate acceptsRow
          | .report => updateView calendar { s with selected := .report } s.dashboard now
          | .settings => some { s with selected := .settings }
      else none
  | .segmentControlClicked segment now =>
      match s.selected, s.report with
      | .report, some r =>
          if segment < 3 then
            s.updateView calendar { r.dashboard with segment := some (segment : ℤ) } now
          else none
      | _, _ => none

end Step

end Tabs

end SpendingTracker
