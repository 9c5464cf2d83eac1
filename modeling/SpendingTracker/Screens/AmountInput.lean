import SpendingTracker.Lib.Characters
import SpendingTracker.Model.Screens

/-!
# The amount field under arbitrary input

The delegate filters what is inserted, `fix` shortens the whole text afterwards, emptiness is
checked when the user confirms, and only then the text is parsed and the result unwrapped.  This
file follows the field over any sequence of edits by the user, who may replace any part of the
text by anything that can be typed or pasted.

`Model/AmountField.lean` counts Unicode scalars.  Here the length of a text is the number of its
characters, as in the source; on the texts that the field can hold the two are the same.
-/

namespace SpendingTracker

open Lib

/-! ### The edits -/

/-- The user replaces `length` scalars of the text from `location` on. -/
structure TextEdit where
  location : ℕ
  length : ℕ
  replacement : List Char
deriving DecidableEq

/-- The text with the replacement made. -/
def TextEdit.replaced (e : TextEdit) (text : List Char) : List Char :=
  text.take e.location ++ e.replacement ++ text.drop (e.location + e.length)

namespace Lib.Characters

variable (ch : Characters)

/-- `String.safelyLimitedTo(length:)`. -/
def safelyLimitedTo (text : List Char) (n : ℕ) : List Char :=
  if ch.count text ≤ n then text else ch.first text n

/-- One edit of an amount field: the delegate is asked, and an accepted edit is followed by the
action `fix`.  An edit out of range cannot occur. -/
def userEdit (text : List Char) (e : TextEdit) : Option (List Char) :=
  if e.location + e.length ≤ text.length then
    some (if shouldChangeCharacters e.replacement then
      ch.safelyLimitedTo (e.replaced text) maxLength
    else text)
  else none

end Lib.Characters

/-- The text of an amount field when its screen has been loaded. -/
inductive AmountFieldStart : List Char → Prop
  | add (showDate : Date → Date → Date) (now : Date) :
      AmountFieldStart (AddScreen.viewDidLoad showDate now).amountField
  | edit {showDate : Date → Date → Date} {now : Date} {t : Transaction} {r : Ref} {row : ℕ}
      {d : DetailScreen} {amount : Int64} :
      DetailScreen.viewDidLoad showDate now t r row = some d → t.amount = some amount →
      AmountInRange amount → AmountFieldStart d.amountField

/-! ### What is wanted of a text -/

/-- The text denotes an amount: it is parsed to the number that its digits are the decimal of. -/
structure DenotesAmount (text : List Char) (amount : Int64) : Prop where
  parse : parseInt text = some amount
  value : amount.toInt = Nat.ofDigitChars 10 text 0
  range : AmountInRange amount

/-- The field shows a few ASCII digits, and neither screen traps on them: when its
`CheckAttributes` lets the handler proceed, the handler has an amount. -/
structure SafeAmountText (ch : Characters) (text : List Char) : Prop where
  digits : ∀ c ∈ text, c.isDigit
  count_le : ch.count text ≤ 6
  add : ∀ a : AddScreen, a.amountField = text → a.CheckAttributes = true →
    ∃ amount, DenotesAmount text amount ∧ ∀ uuid, a.transaction uuid =
      some (.make uuid a.transactionType a.category amount a.datePicker)
  save : ∀ d : DetailScreen, d.amountField = text → d.CheckAttributes = true →
    ∃ amount, DenotesAmount text amount ∧
      d.edit = some ⟨d.transactionType, d.category, amount, d.datePicker⟩

/-! ### One edit -/

section Edit

variable {ch : Characters} {text text' : List Char} {e : TextEdit}

/-- Shortening a text keeps a prefix of it. -/
lemma Lib.Characters.safelyLimitedTo_isPrefix (n : ℕ) : ch.safelyLimitedTo text n <+: text := by
  unfold Characters.safelyLimitedTo
  split_ifs
  · exact List.prefix_rfl
  · exact Characters.first_isPrefix

/-- On digits, shortening to characters is shortening to scalars. -/
lemma Lib.Characters.safelyLimitedTo_of_digits (h : ∀ c ∈ text, c.isDigit) (n : ℕ) :
    ch.safelyLimitedTo text n = SpendingTracker.safelyLimitedTo text n := by
  rw [safelyLimitedTo, Characters.count_of_digits h, Characters.first_of_digits h]
  rfl

/-- A replacement that the delegate accepts leaves only digits. -/
lemma TextEdit.digits_replaced (h : ∀ c ∈ text, c.isDigit)
    (haccepted : shouldChangeCharacters e.replacement = true) :
    ∀ c ∈ e.replaced text, c.isDigit := by
  intro c hc
  simp only [replaced, List.mem_append] at hc
  rcases hc with (hc | hc) | hc
  · exact h c (List.mem_of_mem_take hc)
  · have hallowed := List.all_eq_true.mp haccepted c hc
    exact isDigit_of_mem_allowedCharacterSet (List.contains_iff_mem.mp hallowed)
  · exact h c (List.mem_of_mem_drop hc)

/-- On a text of digits an edit is the one of `Model/AmountField.lean`. -/
lemma Lib.Characters.userEdit_eq_some (h : ∀ c ∈ text, c.isDigit)
    (hedit : ch.userEdit text e = some text') :
    text' = editText text e.location e.length e.replacement := by
  unfold userEdit at hedit
  split_ifs at hedit with hrange haccepted
  · rw [← Option.some.inj hedit, safelyLimitedTo_of_digits (e.digits_replaced h haccepted),
      editText, if_pos haccepted]
    rfl
  · rw [← Option.some.inj hedit, editText, if_neg haccepted]

/-- An edit leaves a short sequence of digits. -/
lemma AmountText.userEdit (h : AmountText text) (hedit : ch.userEdit text e = some text') :
    AmountText text' := by
  rw [Characters.userEdit_eq_some h.digits hedit]
  exact h.editText _ _ _

end Edit

/-! ### The handlers -/

section Handlers

variable {ch : Characters} {text : List Char}

/-- What `CheckAttributes` of the Add screen asks of the characters of the field. -/
lemma AddScreen.checkAttributes_iff (ch : Characters) (a : AddScreen) :
    a.CheckAttributes = true ↔
      a.transactionType ≠ .none ∧ a.categorySelected = true ∧ ch.count a.amountField ≠ 0 := by
  simp [CheckAttributes, Characters.count_eq_zero_iff, and_assoc]

/-- What `CheckAttributes` of the detail screen asks of the characters of the field. -/
lemma DetailScreen.checkAttributes_iff (ch : Characters) (d : DetailScreen) :
    d.CheckAttributes = true ↔ ch.count d.amountField ≠ 0 := by
  simp [CheckAttributes, Characters.count_eq_zero_iff]

lemma AmountText.exists_denotes (h : AmountText text) (hne : ch.count text ≠ 0) :
    ∃ amount, DenotesAmount text amount := by
  obtain ⟨amount, hparse, hrange, hvalue⟩ := h.parseInt fun hnil =>
    hne (Characters.count_eq_zero_iff.mpr hnil)
  exact ⟨amount, hparse, hvalue, hrange⟩

/-- A short sequence of digits is safe. -/
lemma AmountText.safe (h : AmountText text) : SafeAmountText ch text where
  digits := h.digits
  count_le := by
    rw [Characters.count_of_digits h.digits]
    exact h.length
  add := by
    rintro a rfl hcheck
    obtain ⟨-, -, hne⟩ := (a.checkAttributes_iff ch).mp hcheck
    obtain ⟨amount, hamount⟩ := h.exists_denotes hne
    exact ⟨amount, hamount, fun uuid => by rw [AddScreen.transaction, hamount.parse]; rfl⟩
  save := by
    rintro d rfl hcheck
    obtain ⟨amount, hamount⟩ := h.exists_denotes ((d.checkAttributes_iff ch).mp hcheck)
    exact ⟨amount, hamount, by rw [DetailScreen.edit, hamount.parse]; rfl⟩

lemma AmountFieldStart.amountText (h : AmountFieldStart text) : AmountText text := by
  cases h with
  | add showDate now => exact amountText_nil
  | edit hload hamount hrange =>
      obtain ⟨date, -, rfl⟩ := DetailScreen.viewDidLoad_eq_some hload
      simpa [hamount] using amountText_amountDescription hrange

end Handlers

/-- **The amount field always parses.**  From the text that the Add screen or the detail screen
starts with, the latter for a stored amount between 0 and 999999, and over any sequence of edits:
the field always holds at most six ASCII digits, on which the handlers do not trap and which they
turn into the number shown; and shortening the text after an edit keeps a prefix of it. -/
theorem amountField_safe (ch : Characters) {start text : List Char} {edits : List TextEdit}
    (loaded : AmountFieldStart start) (run : Run ch.userEdit start edits text) :
    Always ch.userEdit (SafeAmountText ch) start edits ∧
      EachStep ch.userEdit (fun text e =>
        ch.safelyLimitedTo (e.replaced text) maxLength <+: e.replaced text) start edits := by
  refine ⟨?_, .of_forall (fun _ _ => Characters.safelyLimitedTo_isPrefix _) _ _⟩
  refine run.always (I := AmountText) (C := fun _ _ => True) (fun _ h => h.safe) ?_
    (.of_forall (fun _ _ => trivial) _ _) loaded.amountText
  exact fun _ _ _ h _ hedit => h.userEdit hedit

/-! ### A paste that is too long -/

/-- The user opens a transaction of 120, pastes eight digits behind its first one, and then tries
to type a letter. -/
def overlongPaste : List TextEdit := [⟨1, 0, "34567890".toList⟩, ⟨0, 6, ['x']⟩]

theorem overlongPaste_safe :
    Always Characters.scalars.userEdit (SafeAmountText .scalars) "120".toList overlongPaste :=
  (@amountField_safe .scalars "120".toList "134567".toList overlongPaste
    (@AmountFieldStart.edit (fun _ d => d) 0 ⟨none, none, none, some 120, some 0⟩ 0 0 _ 120 rfl rfl
      (by decide)) (exec_eq_some_iff.mp (by decide))).1

end SpendingTracker
