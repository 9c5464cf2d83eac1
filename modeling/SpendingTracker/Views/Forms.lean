import SpendingTracker.Model.Forms
import SpendingTracker.Views.Report

/-!
# What is seen is what is stored

The buttons of the Add screen and of the detail screen read the variables of the controllers,
which the user does not see.  Whatever happens in between, the two are in step: what a button
does is a function of the texts on the screen.  The alert is for the first text that is missing;
and if none is, the transaction is stored, listed and opened again as it has been seen.
-/

namespace SpendingTracker

open Lib

/-! ### What is seen -/

/-- What the user sees of a transaction before a button is tapped. -/
structure Seen where
  shown : Shown
  amountField : List Char
  datePicker : Date
deriving DecidableEq

/-- What the Add screen or the detail screen lets the user see, if one is open. -/
def Forms.seen (f : Forms) : Option Seen :=
  match f.screens.top with
  | .add a => f.shown.map fun w => ⟨w, a.amountField, a.datePicker⟩
  | .detail d => f.shown.map fun w => ⟨w, d.amountField, d.datePicker⟩
  | _ => none

namespace Seen

/-- The number in the amount field. -/
def number (v : Seen) : ℕ := Nat.ofDigitChars 10 v.amountField 0

/-- The alert for the first text that is missing. -/
def missing (v : Seen) : Option Alert :=
  if v.shown.transactionTypeField = "" then
    some (CreateAlert "Transaction type was not selected")
  else if v.shown.categoryField = "" then some (CreateAlert "Category was not selected")
  else if v.amountField = [] then some (CreateAlert "Amount was not entered")
  else none

/-- The alert for the amount, if it is missing. -/
def missingAmount (v : Seen) : Option Alert :=
  if v.amountField = [] then some (CreateAlert "Amount was not entered") else none

/-- The texts as fields of a document; no category is the null value. -/
def data [FIRTimestamp] (v : Seen) : Fields :=
  List.toFinmap
    [⟨"transactionType", .string v.shown.transactionTypeField⟩,
     ⟨"category",
      if v.shown.categoryField = "" then .null else .string v.shown.categoryField⟩,
     ⟨"amount", .integer (Int64.ofInt v.number)⟩,
     ⟨"date", .ofDate v.datePicker⟩]

/-- The row of the list says what is seen. -/
structure Listed [NumberFormat] (v : Seen) (row : Row) : Prop where
  categoryImage : row.categoryImage = v.shown.categoryImage
  categoryLabel : row.categoryLabel = v.shown.categoryField
  amountLabel : readLabel row.amountLabel =
    some (if v.shown.transactionTypeField = "Income" then (v.number : ℤ) else -v.number)
  amountColour : row.amountColour =
    if v.shown.transactionTypeField = "Income" then .income else .expense
  date : row.date = v.datePicker

/-- The transaction is the one that is seen: so it is stored, listed and opened again, with the
date as far as the picker can show it. -/
structure IsOf [NumberFormat] [FIRTimestamp] (v : Seen) (t : Transaction) : Prop where
  stored : t.updateData = v.data
  listed : ∃ row, t.row = some row ∧ v.Listed row
  opened : ∀ (showDate : Date → Date → Date) (now : Date) (r : Ref) (row : ℕ) (d : DetailScreen),
    DetailScreen.viewDidLoad showDate now t r row = some d →
      d.firstShown = v.shown ∧ Nat.ofDigitChars 10 d.amountField 0 = v.number ∧
        d.datePicker = showDate now (showDate storyboardMaximumDate v.datePicker)

end Seen

/-! ### A transaction and its texts -/

/-- A new document has the fields of an update among its own. -/
lemma Transaction.lookup_addDocumentData [FIRTimestamp] {t : Transaction} {k : String}
    (hk : k ∈ t.updateData) (u : String) :
    (t.addDocumentData u).lookup k = t.updateData.lookup k := by
  simp only [mem_updateData, List.mem_cons, List.not_mem_nil, or_false] at hk
  rcases hk with rfl | rfl | rfl | rfl <;> rfl

lemma TransactionType.description_ne_empty (k : TransactionType) : k.description ≠ "" := by
  cases k <;> decide

lemma Category.description_ne_empty (c : Category) : c.description ≠ "" := by
  cases c <;> decide

/-- The text of an optional category is empty if there is none. -/
lemma Category.text_eq_empty_iff {c : Option Category} :
    (c.map Category.description).getD "" = "" ↔ c = Option.none := by
  cases c with
  | none => simp
  | some c => simpa using c.description_ne_empty

/-- What the two screens show of a type and a category. -/
def Shown.of (k : TransactionType) (c : Option Category) : Shown where
  transactionImage := some k.image
  transactionTypeField := k.description
  categoryImage := c.map Category.image
  categoryField := (c.map Category.description).getD ""

/-- The row of a transaction with a type and a date. -/
lemma Transaction.exists_row [NumberFormat] {t : Transaction} {k : TransactionType}
    {date : Date} (htype : t.transactionType = some k) (hdate : t.date = some date) :
    ∃ c, cellForRowAt t = some c ∧ t.row = some
      ⟨t.category.map Category.image, (t.category.map Category.description).getD "",
        c.amountLabel, k.amountColour, date⟩ := by
  refine ⟨_, by rw [cellForRowAt, htype, hdate]; rfl, ?_⟩
  rw [row, cellForRowAt, htype, hdate]
  rfl

/-- Values and their texts: a transaction with the values is the one that is seen. -/
theorem Seen.isOf [NumberFormat] [FIRTimestamp] {t : Transaction} {k : TransactionType}
    {amount : Int64} {text : List Char} {date : Date} (hk : k ≠ .none)
    (htype : t.transactionType = some k) (hamount : t.amount = some amount)
    (hrange : AmountInRange amount) (hvalue : amount.toInt = Nat.ofDigitChars 10 text 0)
    (hdate : t.date = some date) : Seen.IsOf ⟨.of k t.category, text, date⟩ t where
  stored := by
    have hnumber : Int64.ofInt (Nat.ofDigitChars 10 text 0 : ℕ) = amount := by
      rw [← hvalue, Int64.ofInt_toInt]
    have hcategory : Value.asAny .string (t.category.map Category.description) =
        if (t.category.map Category.description).getD "" = "" then .null
        else .string ((t.category.map Category.description).getD "") := by
      simp only [Category.text_eq_empty_iff]
      cases t.category <;> rfl
    rw [Transaction.updateData, Seen.data, htype, hamount, hdate, hcategory, Seen.number, hnumber]
    rfl
  listed := by
    have hread : t.signedAmount =
        if k.description = "Income" then (Nat.ofDigitChars 10 text 0 : ℤ)
        else -(Nat.ofDigitChars 10 text 0 : ℕ) := by
      rw [Transaction.signedAmount, htype, hamount, ← hvalue]
      cases k with
      | income => rfl
      | expense => rfl
      | none => exact absurd rfl hk
    obtain ⟨c, hc, hrow⟩ := t.exists_row htype hdate
    have hlabel := readLabel_amountLabel hc
    rw [hamount, Option.bind_some, if_neg (by simp [htype, hk]), if_pos hrange.1, hread] at hlabel
    refine ⟨_, hrow, rfl, rfl, hlabel, ?_, rfl⟩
    cases k with
    | income => rfl
    | expense => rfl
    | none => exact absurd rfl hk
  opened := by
    intro showDate now r row d hd
    obtain ⟨date', hdate', rfl⟩ := DetailScreen.viewDidLoad_eq_some hd
    obtain rfl := Option.some.inj (hdate.symm.trans hdate')
    refine ⟨by rw [DetailScreen.firstShown, htype]; rfl, ?_, rfl⟩
    have hnonneg := hrange.1
    rw [hamount, Option.map_some, Option.getD_some, amountDescription, if_neg (by omega),
      Nat.ofDigitChars_ten_toDigits]
    show _ = Nat.ofDigitChars 10 text 0
    omega

/-! ### The screens and their texts -/

namespace AddScreen

/-- What the screen shows of its values: a text is missing until a value has been selected. -/
def seen (a : AddScreen) : Shown where
  transactionImage := some a.transactionType.image
  transactionTypeField :=
    if a.transactionType = .none then "" else a.transactionType.description
  categoryImage := some a.category.image
  categoryField := if a.categorySelected then a.category.description else ""

lemma seen_viewDidLoad (showDate : Date → Date → Date) (now : Date) :
    (viewDidLoad showDate now).seen = (viewDidLoad showDate now).firstShown := rfl

/-- An input brings the texts up to date. -/
lemma seen_input {i : Input} (hi : i.Offered) (a : AddScreen) :
    (a.input i).seen = (a.input i).showInput a.seen i := by
  cases i with
  | selectType row =>
      have hk : (a.input (.selectType row)).transactionType ≠ .none := by
        rcases transactionTypeOfRow_of_lt hi with hk | hk <;> simp [input, hk]
      simp only [seen, showInput, if_neg hk]
      rfl
  | selectCategory section_ row => rfl
  | editAmount location length replacement => rfl
  | pickDate date => rfl

/-- With a type and a category selected, the texts are those of the values. -/
lemma seen_of_selected {a : AddScreen} (hk : a.transactionType ≠ .none)
    (hc : a.categorySelected = true) : a.seen = .of a.transactionType (some a.category) := by
  rw [seen, if_neg hk, if_pos hc]
  rfl

/-- The alert is for the first text that is missing. -/
lemma alert_eq_missing (a : AddScreen) :
    a.alert = Seen.missing ⟨a.seen, a.amountField, a.datePicker⟩ := by
  have htype : a.seen.transactionTypeField = "" ↔ a.transactionType = .none := by
    simp [seen, a.transactionType.description_ne_empty]
  have hcategory : a.seen.categoryField = "" ↔ (!a.categorySelected) = true := by
    simp [seen, a.category.description_ne_empty]
  simp only [alert, Seen.missing, htype, hcategory, List.length_eq_zero_iff]

end AddScreen

namespace DetailScreen

/-- An input brings the texts up to date. -/
lemma firstShown_input (i : Input) (d : DetailScreen) :
    (d.input i).firstShown = (d.input i).showInput d.firstShown i := by
  cases i <;> rfl

lemma firstShown_eq_of {d : DetailScreen} {k : TransactionType} (h : d.transactionType = some k) :
    d.firstShown = .of k d.category := by
  rw [firstShown, h]
  rfl

lemma alert_eq_missingAmount (d : DetailScreen) (w : Shown) :
    d.alert = Seen.missingAmount ⟨w, d.amountField, d.datePicker⟩ := by
  simp only [alert, Seen.missingAmount, List.length_eq_zero_iff]

end DetailScreen

/-! ### The texts over a run -/

/-- The texts that belong to what is open. -/
def Top.texts : Top → Option Shown
  | .add a => some a.seen
  | .detail d => some d.firstShown
  | _ => none

/-- The event opens or changes one of the two screens. -/
def ScreenEvent.Fills : ScreenEvent → Bool
  | openAdd _ | openDetail _ _ | input _ => true
  | _ => false

/-- Any other event leaves the two screens as they are, or closes them. -/
lemma Screens.top_of_step [FIRTimestamp] {showDate : Date → Date → Date} {s s' : Screens}
    {e : ScreenEvent} (he : e.Fills = false) (hs : s.step showDate e = some s') :
    s'.top = s.top ∨ (∀ a, s'.top ≠ .add a) ∧ ∀ d, s'.top ≠ .detail d := by
  cases e with
  | background event =>
      obtain ⟨-, app, -, rfl⟩ := step_background_iff.mp hs
      unfold afterBackground
      split_ifs
      · exact Or.inr ⟨by simp, by simp⟩
      · exact Or.inr ⟨by simp, by simp⟩
      · exact Or.inl rfl
  | presentTabs =>
      obtain ⟨-, rfl⟩ := step_presentTabs hs
      exact Or.inr ⟨by simp, by simp⟩
  | viewDidLoad =>
      obtain ⟨-, rfl⟩ := step_viewDidLoad hs
      exact Or.inr ⟨by simp, by simp⟩
  | viewWillAppear =>
      obtain ⟨-, rfl⟩ | ⟨-, rfl⟩ := step_viewWillAppear hs
      · exact Or.inr ⟨by simp, by simp⟩
      · exact Or.inl rfl
  | openAdd now => cases he
  | openDetail row now => cases he
  | input i => cases he
  | back =>
      obtain ⟨-, rfl⟩ := step_back hs
      exact Or.inr ⟨by simp, by simp⟩
  | addButton uuid documentID =>
      obtain ⟨a, -, ⟨-, rfl⟩ | ⟨-, -, t, app, -, -, rfl⟩⟩ := step_addButton hs
      · exact Or.inl rfl
      · exact Or.inr ⟨by simp, by simp⟩
  | saveButton =>
      obtain ⟨d, -, ⟨-, rfl⟩ | ⟨-, e, app, -, -, rfl⟩⟩ := step_saveButton hs
      · exact Or.inl rfl
      · exact Or.inr ⟨by simp, by simp⟩
  | deleteButton =>
      obtain ⟨d, -, -, app, -, rfl⟩ := step_deleteButton hs
      exact Or.inr ⟨by simp, by simp⟩

namespace Forms

section Rules

variable [FIRTimestamp] {showDate : Date → Date → Date} {f f' : Forms} {e : ScreenEvent} {v : Seen}

lemma step_eq_some (h : f.step showDate e = some f') : ∃ s,
    f.screens.step showDate e = some s ∧ f' = ⟨s, f.shownAfter e s.top, f.alertAfter e⟩ := by
  obtain ⟨s, hs, rfl⟩ := Option.map_eq_some_iff.mp h
  exact ⟨s, hs, rfl⟩

/-- What is shown belongs to what is open. -/
structure Kept (f : Forms) : Prop where
  screens : f.screens.WellKept
  shown : f.shown = f.screens.top.texts

namespace Kept

lemma launch : (Forms.launch (.launch .empty)).Kept := ⟨.launch, rfl⟩

/-- An event that does not fill in a screen leaves what is shown. -/
lemma shownAfter_of_not_fills (h : f.Kept) (he : e.Fills = false) {top : Top}
    (htop : top = f.screens.top ∨ (∀ a, top ≠ .add a) ∧ ∀ d, top ≠ .detail d) :
    f.shownAfter e top = top.texts := by
  have hshown := h.shown
  cases top with
  | add a =>
      have hsame := htop.resolve_right fun hother => hother.1 a rfl
      rw [← hsame] at hshown
      cases e <;> first | exact hshown | cases he
  | detail d =>
      have hsame := htop.resolve_right fun hother => hother.2 d rfl
      rw [← hsame] at hshown
      cases e <;> first | exact hshown | cases he
  | _ => rfl

/-- Every event keeps what is shown and what is open in step. -/
theorem step (h : f.Kept) (hs : f.step showDate e = some f') : f'.Kept := by
  obtain ⟨s, hscreens, rfl⟩ := step_eq_some hs
  refine ⟨h.screens.step hscreens, ?_⟩
  show f.shownAfter e s.top = s.top.texts
  have hshown := h.shown
  cases e with
  | openAdd now =>
      obtain ⟨-, rfl⟩ := Screens.step_openAdd hscreens
      exact congrArg some (AddScreen.seen_viewDidLoad showDate now).symm
  | openDetail row now =>
      obtain ⟨-, r, d, -, -, rfl⟩ := Screens.step_openDetail hscreens
      rfl
  | input i =>
      obtain ⟨hi, ⟨a, htop, rfl⟩ | ⟨d, htop, rfl⟩⟩ := Screens.step_input hscreens
      · rw [htop] at hshown
        show (f.shown.map fun w => (a.input i).showInput w i) = some (a.input i).seen
        rw [hshown, AddScreen.seen_input hi]
        rfl
      · rw [htop] at hshown
        show (f.shown.map fun w => (d.input i).showInput w i) = some (d.input i).firstShown
        rw [hshown, DetailScreen.firstShown_input]
        rfl
  | _ => exact h.shownAfter_of_not_fills rfl (Screens.top_of_step rfl hscreens)

lemma of_run {es : List ScreenEvent}
    (run : Run (Forms.step showDate) (Forms.launch (.launch .empty)) es f) : f.Kept :=
  run.invariant (C := fun _ _ => True) (fun _ _ _ h _ hs => h.step hs)
    (.of_forall (fun _ _ => trivial) _ _) launch

/-- What is seen on the Add screen. -/
lemma seen_add (h : f.Kept) {a : AddScreen} (htop : f.screens.top = .add a) :
    f.seen = some ⟨a.seen, a.amountField, a.datePicker⟩ := by
  have hshown := h.shown
  rw [htop] at hshown
  rw [Forms.seen, htop, hshown]
  rfl

/-- What is seen on the detail screen. -/
lemma seen_detail (h : f.Kept) {d : DetailScreen} (htop : f.screens.top = .detail d) :
    f.seen = some ⟨d.firstShown, d.amountField, d.datePicker⟩ := by
  have hshown := h.shown
  rw [htop] at hshown
  rw [Forms.seen, htop, hshown]
  rfl

end Kept

/-! ### The buttons -/

/-- What the button of the Add screen does if a text is missing, and if none is. -/
structure Adds [NumberFormat] (f : Forms) (v : Seen) (documentID : Option String)
    (f' : Forms) : Prop where
  alert : f'.alert = v.missing
  refused : v.missing ≠ none → f'.screens = f.screens
  added : v.missing = none → ∃ r, f'.screens.app.shared = f.screens.app.shared ++ [r] ∧
    v.IsOf (f'.screens.app.transaction r)
  /-- The new document says what has been seen. -/
  written : v.missing = none → ∀ u i, f.screens.app.currentUser = some u → documentID = some i →
    ∃ d ∈ f'.screens.app.collection.documents, d.documentID = i ∧
      ∀ k ∈ v.data, d.data.lookup k = v.data.lookup k

/-- What the button of the detail screen does if the amount is missing, and if it is not. -/
structure Saves [NumberFormat] (f : Forms) (v : Seen) (r : Ref) (f' : Forms) : Prop where
  alert : f'.alert = v.missingAmount
  refused : v.missingAmount ≠ none → f'.screens = f.screens
  saved : v.missingAmount = none → v.IsOf (f'.screens.app.transaction r)
  frame : ∀ x, x ≠ r → f'.screens.app.transaction x = f.screens.app.transaction x
  /-- If the store has an entry with the id of the transaction, the update of the documents with
  this id is outstanding. -/
  issued : v.missingAmount = none → f.screens.app.Finds r → ∃ i,
    (f.screens.app.transaction r).id = some i ∧
      f'.screens.app.requests = f.screens.app.requests ++ [⟨.updateTransactionInDatabase i r, none⟩]
  unissued : v.missingAmount = none → ¬ f.screens.app.Finds r →
    f'.screens.app.requests = f.screens.app.requests

namespace Kept

/-- The transaction that the Add screen makes is the one that is seen. -/
lemma isOf_transaction [NumberFormat] (h : f.Kept) {a : AddScreen} (htop : f.screens.top = .add a)
    (hcheck : a.CheckAttributes = true) {uuid : String} {t : Transaction}
    (ht : a.transaction uuid = some t) :
    Seen.IsOf ⟨a.seen, a.amountField, a.datePicker⟩ t := by
  simp only [AddScreen.CheckAttributes, Bool.and_eq_true, decide_eq_true_eq] at hcheck
  obtain ⟨⟨hk, hc⟩, hlength⟩ := hcheck
  have hne : a.amountField ≠ [] := fun hnil => hlength (by simp [hnil])
  obtain ⟨amount, hparse, hrange, hvalue⟩ := (h.screens.add a htop).parseInt hne
  rw [AddScreen.transaction, hparse] at ht
  cases ht
  rw [AddScreen.seen_of_selected hk hc]
  exact Seen.isOf (t := .make uuid a.transactionType a.category amount a.datePicker) hk rfl rfl
    hrange hvalue rfl

/-- The transaction that the detail screen leaves is the one that is seen. -/
lemma isOf_edited [NumberFormat] (h : f.Kept) {d : DetailScreen} (htop : f.screens.top = .detail d)
    (hcheck : d.CheckAttributes = true) {e : Edit} (he : d.edit = some e) {t : Transaction} :
    Seen.IsOf ⟨d.firstShown, d.amountField, d.datePicker⟩ (t.edited e) := by
  simp only [DetailScreen.CheckAttributes, decide_eq_true_eq] at hcheck
  have hne : d.amountField ≠ [] := fun hnil => hcheck (by simp [hnil])
  have hwf := (h.screens.detail d htop).2
  obtain ⟨amount, hparse, hrange, hvalue⟩ := hwf.amountField.parseInt hne
  rw [DetailScreen.edit, hparse] at he
  cases he
  obtain ⟨k, hk, htype⟩ : ∃ k, k ≠ TransactionType.none ∧ d.transactionType = some k := by
    rcases hwf.transactionType with hk | hk
    · exact ⟨.income, by decide, hk⟩
    · exact ⟨.expense, by decide, hk⟩
  rw [DetailScreen.firstShown_eq_of htype]
  exact Seen.isOf (t := t.edited ⟨d.transactionType, d.category, amount, d.datePicker⟩) hk htype
    rfl hrange hvalue rfl

lemma adds [NumberFormat] (h : f.Kept) (hseen : f.seen = some v) {uuid : String}
    {documentID : Option String}
    (hs : f.step showDate (.addButton uuid documentID) = some f') : f.Adds v documentID f' := by
  obtain ⟨s, hscreens, rfl⟩ := step_eq_some hs
  obtain ⟨a, htop, hcases⟩ := Screens.step_addButton hscreens
  obtain rfl := Option.some.inj (hseen.symm.trans (h.seen_add htop))
  have halert : f.alertAfter (.addButton uuid documentID) = a.alert := by
    simp only [alertAfter, htop]
  have hmissing := a.alert_eq_missing
  obtain ⟨hcheck, rfl⟩ | ⟨hcheck, -, t, app, ht, happ, rfl⟩ := hcases
  · have hsome : Seen.missing ⟨a.seen, a.amountField, a.datePicker⟩ ≠ none := by
      rw [← hmissing, ne_eq, AddScreen.alert_eq_none_iff, hcheck]
      decide
    exact ⟨halert.trans hmissing, fun _ => rfl, fun hnone => absurd hnone hsome,
      fun hnone => absurd hnone hsome⟩
  · have hnone := AddScreen.alert_eq_none_iff.mpr hcheck
    have hof := h.isOf_transaction htop hcheck ht
    obtain ⟨⟨hnodup, hnew⟩, front, back, hshared, rfl, rfl⟩ := App.step_add_iff.mp happ
    rw [List.append_nil] at hshared
    subst hshared
    have hread : (f.screens.app.heap.create [t]).read f.screens.app.heap.size = t :=
      (List.cons.inj (Heap.map_read_created f.screens.app.heap [t])).1
    refine ⟨halert.trans hmissing, fun hsome => absurd (hmissing.symm.trans hnone) hsome,
      fun _ => ⟨f.screens.app.heap.size, List.append_nil _, ?_⟩, fun _ u i hu hi => ?_⟩
    · show Seen.IsOf _ ((f.screens.app.heap.create [t]).read f.screens.app.heap.size)
      rw [hread]
      exact hof
    · subst hi
      refine ⟨⟨i, t.addDocumentData u⟩, ?_, rfl, fun k hk => ?_⟩
      · show _ ∈ (f.screens.app.collectionAfterAdd [(t, some i)]).documents
        rw [App.documents_collectionAfterAdd hnodup hnew, hu]
        exact List.mem_append_right _ (App.mem_newDocuments.mpr ⟨t, i, List.mem_cons_self, rfl⟩)
      · rw [← hof.stored] at hk ⊢
        exact Transaction.lookup_addDocumentData hk u

lemma saves [NumberFormat] (h : f.Kept) (hseen : f.seen = some v) {d : DetailScreen}
    (htop : f.screens.top = .detail d) (hs : f.step showDate .saveButton = some f') :
    f.Saves v d.transaction f' := by
  obtain ⟨s, hscreens, rfl⟩ := step_eq_some hs
  obtain ⟨d', htop', hcases⟩ := Screens.step_saveButton hscreens
  cases htop.symm.trans htop'
  obtain rfl := Option.some.inj (hseen.symm.trans (h.seen_detail htop))
  have halert : f.alertAfter .saveButton = d.alert := by
    simp only [alertAfter, htop]
  have hmissing := d.alert_eq_missingAmount d.firstShown
  obtain ⟨hcheck, rfl⟩ | ⟨hcheck, e, app, he, happ, rfl⟩ := hcases
  · have hsome : Seen.missingAmount ⟨d.firstShown, d.amountField, d.datePicker⟩ ≠ none := by
      rw [← hmissing, ne_eq, DetailScreen.alert_eq_none_iff, hcheck]
      decide
    exact ⟨halert.trans hmissing, fun _ => rfl, fun hnone => absurd hnone hsome,
      fun _ _ => rfl, fun hnone => absurd hnone hsome, fun hnone => absurd hnone hsome⟩
  · have hnone := DetailScreen.alert_eq_none_iff.mpr hcheck
    obtain ⟨hr, hsaved⟩ := App.step_save_iff.mp happ
    have hheap : app.heap = f.screens.app.heapAfterSave d.transaction e := by
      obtain ⟨-, rfl⟩ | ⟨front, x, back, -, -, -, i, -, rfl⟩ := hsaved <;> rfl
    have hread : ∀ x, app.transaction x = if x = d.transaction then
        (f.screens.app.transaction d.transaction).edited e else f.screens.app.transaction x := by
      intro x
      rw [App.transaction, hheap, App.read_heapAfterSave hr]
    refine ⟨halert.trans hmissing, fun hsome => absurd (hmissing.symm.trans hnone) hsome,
      fun _ => ?_, fun x hx => ?_, fun _ hfinds => ?_, fun _ hfinds => ?_⟩
    · show Seen.IsOf _ (app.transaction d.transaction)
      rw [hread, if_pos rfl]
      exact h.isOf_edited htop hcheck he
    · exact (hread x).trans (if_neg hx)
    · obtain ⟨hno, -⟩ | ⟨front, x, back, -, -, -, i, hi, rfl⟩ := hsaved
      · exact absurd hfinds hno
      · exact ⟨i, hi, rfl⟩
    · obtain ⟨-, rfl⟩ | ⟨front, x, back, hshared, -, hx, i, -, rfl⟩ := hsaved
      · rfl
      · exact absurd ⟨x, by simp [hshared], hx⟩ hfinds

end Kept

end Rules

/-- **What is seen is what is stored.**  Start the app over an empty collection.  Whatever has
happened, in whatever order the user has filled in an open Add screen or detail screen, its
button goes by the texts on the screen.  The button of the Add screen raises the alert for the
first that is missing and leaves everything else alone, or the transaction that is seen becomes
the last one of the store and a document of the user.  The button of the detail screen minds the
amount only; if it is there, the transaction that has been opened becomes the one that is seen,
and its documents are going to be updated if the store has an entry with its id. -/
theorem seen_is_stored [NumberFormat] [FIRTimestamp] {showDate : Date → Date → Date} {f : Forms}
    {es : List ScreenEvent} (run : Run (step showDate) (launch (.launch .empty)) es f) :
    (∀ a, f.screens.top = .add a → ∃ v, f.seen = some v ∧ ∀ uuid documentID f',
      f.step showDate (.addButton uuid documentID) = some f' → f.Adds v documentID f') ∧
    ∀ d, f.screens.top = .detail d → ∃ v, f.seen = some v ∧ ∀ f',
      f.step showDate .saveButton = some f' → f.Saves v d.transaction f' := by
  have hkept := Kept.of_run run
  constructor
  · intro a htop
    exact ⟨_, hkept.seen_add htop, fun uuid documentID f' hs => hkept.adds (hkept.seen_add htop) hs⟩
  · intro d htop
    exact ⟨_, hkept.seen_detail htop, fun f' hs => hkept.saves (hkept.seen_detail htop) htop hs⟩

/-- The user signs in, fills in the Add screen from the bottom, and changes the category while
another login screen's fetch is still on its way. -/
def filledIn : List ScreenEvent :=
  [.background .viewDidAppear, .background .viewDidAppear, .background (.signIn "u"),
    .background (.callListener 0), .background (.callListener 1), .background (.answer 0 []),
    .background (.deliver 0 (.succeeded [])), .viewDidLoad, .viewWillAppear, .openAdd 9,
    .input (.editAmount 0 0 ['4', '2']), .input (.selectCategory 0 3), .input (.selectType 1),
    .background (.answer 0 []), .input (.selectCategory 1 0)]

/-- What the user sees then. -/
def seenFilledIn : Seen := ⟨⟨some "ExpenseIcon", "Expense", some "NoneIcon", "None"⟩, ['4', '2'], 9⟩

/-- The user confirms, opens the transaction, and changes the date, the amount and the type. -/
def changed : List ScreenEvent :=
  filledIn ++ [.addButton "a" (some "d"), .viewWillAppear, .openDetail 0 9, .input (.pickDate 5),
    .input (.editAmount 0 1 []), .input (.selectType 0)]

/-- What the user sees then. -/
def seenChanged : Seen := ⟨⟨some "IncomeIcon", "Income", some "NoneIcon", "None"⟩, ['2'], 5⟩

theorem filledIn_is_stored :
    (∃ f f', Run (step min) (launch (.launch .empty)) filledIn f ∧
      f.step min (.addButton "a" (some "d")) = some f' ∧ f.Adds seenFilledIn (some "d") f') ∧
    ∃ f f', Run (step min) (launch (.launch .empty)) changed f ∧
      f.step min .saveButton = some f' ∧ f.Saves seenChanged 0 f' := by
  constructor
  · obtain ⟨f, a, f', run, htop, hseen, hs⟩ : ∃ f a f',
        Run (step min) (launch (.launch .empty)) filledIn f ∧ f.screens.top = .add a ∧
        f.seen = some seenFilledIn ∧ f.step min (.addButton "a" (some "d")) = some f' :=
      ⟨_, _, _, exec_eq_some_iff.mp rfl, rfl, by decide, rfl⟩
    obtain ⟨v, hv, hadds⟩ := (seen_is_stored run).1 a htop
    cases hseen.symm.trans hv
    exact ⟨f, f', run, hs, hadds "a" (some "d") f' hs⟩
  · obtain ⟨f, d, f', run, htop, hd, hseen, hs⟩ : ∃ f d f',
        Run (step min) (launch (.launch .empty)) changed f ∧ f.screens.top = .detail d ∧
        d.transaction = 0 ∧ f.seen = some seenChanged ∧ f.step min .saveButton = some f' :=
      ⟨_, _, _, exec_eq_some_iff.mp rfl, rfl, rfl, by decide, rfl⟩
    obtain ⟨v, hv, hsaves⟩ := (seen_is_stored run).2 d htop
    cases hseen.symm.trans hv
    exact ⟨f, f', run, hs, hd ▸ hsaves f' hs⟩

end Forms

end SpendingTracker
