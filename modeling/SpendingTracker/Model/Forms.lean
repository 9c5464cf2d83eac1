import SpendingTracker.Model.Display

/-!
# The Add screen and the detail screen as they look

The two screens keep the type and the category of a transaction twice: as values, which their
buttons use, and as images and texts, which the user sees.  `Model/Screens.lean` has the values.
This file adds what is seen: what `viewDidLoad` of the two controllers sets, what the pickers set
after they have assigned a value, and the alerts of `CheckAttributes`, which both screens create
with `CreateAlert` of `Models/Helper.swift`.

The text fields for the type and the category are disabled in the storyboard, so that only the
controllers change them.  A field or a label whose text is set to `nil` is empty.
-/

namespace SpendingTracker

open Lib

/-- What a screen shows of the type and the category. -/
structure Shown where
  transactionImage : Option String
  transactionTypeField : String
  categoryImage : Option String
  categoryField : String
deriving DecidableEq

/-- An alert with a button that closes it. -/
structure Alert where
  title : String
  message : String
deriving DecidableEq

/-- `CreateAlert`; the title is the same on both screens. -/
def CreateAlert (message : String) : Alert := ⟨"Cannot add transaction", message⟩

namespace AddScreen

/-- What `viewDidLoad` shows: it sets the images, and the text fields are empty. -/
def firstShown (a : AddScreen) : Shown :=
  ⟨some a.transactionType.image, "", some a.category.image, ""⟩

/-- What the pickers show after they have assigned a value. -/
def showInput (a : AddScreen) (w : Shown) : Input → Shown
  | .selectType _ =>
      { w with
        transactionImage := some a.transactionType.image
        transactionTypeField := a.transactionType.description }
  | .selectCategory _ _ =>
      { w with
        categoryImage := some a.category.image
        categoryField := a.category.description }
  | .editAmount _ _ _ | .pickDate _ => w

/-- The alert that `CheckAttributes` creates, if it creates one. -/
def alert (a : AddScreen) : Option Alert :=
  if a.transactionType = .none then some (CreateAlert "Transaction type was not selected")
  else if !a.categorySelected then some (CreateAlert "Category was not selected")
  else if a.amountField.length = 0 then some (CreateAlert "Amount was not entered")
  else none

lemma alert_eq_none_iff {a : AddScreen} : a.alert = none ↔ a.CheckAttributes = true := by
  unfold alert CheckAttributes
  split_ifs <;> simp_all

end AddScreen

namespace DetailScreen

/-- What `viewDidLoad` shows. -/
def firstShown (d : DetailScreen) : Shown where
  transactionImage := d.transactionType.map TransactionType.image
  transactionTypeField := (d.transactionType.map TransactionType.description).getD ""
  categoryImage := d.category.map Category.image
  categoryField := (d.category.map Category.description).getD ""

/-- What the pickers show after they have assigned a value. -/
def showInput (d : DetailScreen) (w : Shown) : Input → Shown
  | .selectType _ =>
      { w with
        transactionImage := d.transactionType.map TransactionType.image
        transactionTypeField := (d.transactionType.map TransactionType.description).getD "" }
  | .selectCategory _ _ =>
      { w with
        categoryImage := d.category.map Category.image
        categoryField := (d.category.map Category.description).getD "" }
  | .editAmount _ _ _ | .pickDate _ => w

/-- The alert that `CheckAttributes` creates, if it creates one. -/
def alert (d : DetailScreen) : Option Alert :=
  if d.amountField.length = 0 then some (CreateAlert "Amount was not entered") else none

lemma alert_eq_none_iff {d : DetailScreen} : d.alert = none ↔ d.CheckAttributes = true := by
  unfold alert CheckAttributes
  split_ifs <;> simp_all

end DetailScreen

/-- A row of the list as it looks. -/
structure Row where
  categoryImage : Option String
  categoryLabel : String
  amountLabel : List Char
  amountColour : Colour
  /-- The date that `dateLabel` writes out. -/
  date : Date
deriving DecidableEq

/-- What `tableView(_:cellForRowAt:)` sets; the type, which is unwrapped, gives the colour. -/
def Transaction.row [NumberFormat] (t : Transaction) : Option Row :=
  t.transactionType.bind fun transactionType =>
    (cellForRowAt t).map fun c =>
      { categoryImage := t.category.map Category.image
        categoryLabel := c.categoryLabel.getD ""
        amountLabel := c.amountLabel
        amountColour := transactionType.amountColour
        date := c.date }

/-- The screens with what they show. -/
structure Forms where
  screens : Screens
  /-- What the Add screen or the detail screen shows, if one is open. -/
  shown : Option Shown
  /-- The alert that the last event has created, if it has created one. -/
  alert : Option Alert
deriving DecidableEq

namespace Forms

/-- The screens when the app has been launched. -/
def launch (app : App) : Forms := ⟨.launch app, none, none⟩

/-- What is shown after an event that has led to the given screen. -/
def shownAfter (f : Forms) (e : ScreenEvent) : Top → Option Shown
  | .add a =>
      match e with
      | .openAdd _ => some a.firstShown
      | .input i => f.shown.map fun w => a.showInput w i
      | _ => f.shown
  | .detail d =>
      match e with
      | .openDetail _ _ => some d.firstShown
      | .input i => f.shown.map fun w => d.showInput w i
      | _ => f.shown
  | _ => none

/-- The alert that an event leads to. -/
def alertAfter (f : Forms) (e : ScreenEvent) : Option Alert :=
  match e, f.screens.top with
  | .addButton _ _, .add a => a.alert
  | .saveButton, .detail d => d.alert
  | _, _ => none

/-- The effect of an event; `none` means that it cannot occur, or that the app traps. -/
def step [FIRTimestamp] (showDate : Date → Date → Date) (f : Forms) (e : ScreenEvent) :
    Option Forms :=
  (f.screens.step showDate e).map fun screens =>
    ⟨screens, f.shownAfter e screens.top, f.alertAfter e⟩

end Forms

end SpendingTracker
