import SpendingTracker.Lib.TrappingInt
import Mathlib.Data.List.Basic

/-!
# The amount field

The text field for the amount, which the Add screen and the detail screen share: the delegate
method `textField(_:shouldChangeCharactersIn:replacementString:)` of both controllers, the
`maxLength` extension of `Models/Helper.swift` with the limit of the storyboard, and the
conversions between the text and an `Int`.

A text is its list of Unicode scalars.
-/

namespace SpendingTracker

open Lib

/-- `allowedCharacterSet`. -/
def allowedCharacterSet : List Char := "0123456789".toList

/-- `textField(_:shouldChangeCharactersIn:replacementString:)`. -/
def shouldChangeCharacters (replacement : List Char) : Bool :=
  replacement.all fun c => allowedCharacterSet.contains c

/-- `String.safelyLimitedTo(length:)`. -/
def safelyLimitedTo (text : List Char) (n : ℕ) : List Char :=
  if text.length ≤ n then text else text.take n

/-- The limit that the storyboard sets for both amount fields. -/
def maxLength : ℕ := 6

/-- The user replaces a part of the text.  The delegate is asked first; after an accepted
change the action `fix` of `maxLength` runs. -/
def editText (text : List Char) (location length : ℕ) (replacement : List Char) : List Char :=
  if shouldChangeCharacters replacement then
    safelyLimitedTo (text.take location ++ replacement ++ text.drop (location + length)) maxLength
  else text

/-- The value of a sequence of decimal digits. -/
def parseDigits (text : List Char) : Option ℕ :=
  if text ≠ [] ∧ text.all Char.isDigit then some (Nat.ofDigitChars 10 text 0) else none

/-- `Int(_:)` for a string: an optional sign and decimal digits, if the value fits. -/
def parseInt (text : List Char) : Option Int64 :=
  match text with
  | '+' :: digits => (parseDigits digits).bind fun n => fit n
  | '-' :: digits => (parseDigits digits).bind fun n => fit (-n)
  | digits => (parseDigits digits).bind fun n => fit n

/-- `Int.description`. -/
def amountDescription (amount : Int64) : List Char :=
  if amount.toInt < 0 then '-' :: Nat.toDigits 10 amount.toInt.natAbs
  else Nat.toDigits 10 amount.toInt.natAbs

/-! ### The text stays a short sequence of digits -/

/-- At most six decimal digits. -/
structure AmountText (text : List Char) : Prop where
  digits : ∀ c ∈ text, c.isDigit
  length : text.length ≤ maxLength

/-- An amount that six decimal digits can denote. -/
def AmountInRange (amount : Int64) : Prop := 0 ≤ amount.toInt ∧ amount.toInt ≤ 999999

instance (amount : Int64) : Decidable (AmountInRange amount) :=
  inferInstanceAs (Decidable (_ ∧ _))

lemma isDigit_of_mem_allowedCharacterSet {c : Char} (h : c ∈ allowedCharacterSet) :
    c.isDigit := by
  have hall : allowedCharacterSet.all Char.isDigit = true := by decide
  exact List.all_eq_true.mp hall c h

lemma length_safelyLimitedTo (text : List Char) (n : ℕ) : (safelyLimitedTo text n).length ≤ n := by
  unfold safelyLimitedTo
  split_ifs with h
  · exact h
  · simp

lemma isPrefix_safelyLimitedTo (text : List Char) (n : ℕ) : safelyLimitedTo text n <+: text := by
  unfold safelyLimitedTo
  split_ifs
  · exact List.prefix_rfl
  · exact List.take_prefix n text

/-- Whatever the user types or pastes, the field holds at most six digits. -/
theorem AmountText.editText {text : List Char} (h : AmountText text) (location length : ℕ)
    (replacement : List Char) :
    AmountText (SpendingTracker.editText text location length replacement) := by
  unfold SpendingTracker.editText
  split_ifs with hallowed
  · refine ⟨fun c hc => ?_, length_safelyLimitedTo _ _⟩
    have hmem := (isPrefix_safelyLimitedTo _ _).subset hc
    simp only [List.mem_append] at hmem
    rcases hmem with (hmem | hmem) | hmem
    · exact h.digits c (List.mem_of_mem_take hmem)
    · simp only [shouldChangeCharacters, List.all_eq_true, List.contains_iff_mem] at hallowed
      exact isDigit_of_mem_allowedCharacterSet (hallowed c hmem)
    · exact h.digits c (List.mem_of_mem_drop hmem)
  · exact h

lemma amountText_nil : AmountText [] := ⟨by simp, by simp⟩

/-! ### The text denotes an amount -/

lemma ofDigitChars_lt {text : List Char} (h : ∀ c ∈ text, c.isDigit) :
    Nat.ofDigitChars 10 text 0 < 10 ^ text.length := by
  induction text with
  | nil => simp
  | cons c text ih =>
      have hrest := ih fun x hx => h x (List.mem_cons_of_mem _ hx)
      have hc : c.toNat - '0'.toNat ≤ 9 := by
        have hdigit := h c List.mem_cons_self
        simp only [Char.isDigit, Bool.and_eq_true, decide_eq_true_eq] at hdigit
        have hle : c.toNat ≤ '9'.toNat := hdigit.2
        have hnine : '9'.toNat = '0'.toNat + 9 := rfl
        omega
      rw [Nat.ofDigitChars_cons, Nat.ofDigitChars_eq_ofDigitChars_zero, List.length_cons,
        pow_succ]
      calc 10 ^ text.length * (10 * 0 + (c.toNat - '0'.toNat)) + Nat.ofDigitChars 10 text 0
          ≤ 10 ^ text.length * 9 + Nat.ofDigitChars 10 text 0 := by gcongr; omega
        _ < 10 ^ text.length * 10 := by omega

lemma parseDigits_of_digits {text : List Char} (h : ∀ c ∈ text, c.isDigit) (hne : text ≠ []) :
    parseDigits text = some (Nat.ofDigitChars 10 text 0) :=
  if_pos ⟨hne, List.all_eq_true.mpr h⟩

/-- A text of digits has no sign. -/
lemma parseInt_of_digits {text : List Char} (h : ∀ c ∈ text, c.isDigit) (hne : text ≠ []) :
    parseInt text = fit (Nat.ofDigitChars 10 text 0) := by
  unfold parseInt
  split
  -- a sign is not a digit
  · exact absurd (h '+' List.mem_cons_self) (by decide)
  · exact absurd (h '-' List.mem_cons_self) (by decide)
  · rw [parseDigits_of_digits h hne, Option.bind_some]

lemma parseInt_minus_cons {text : List Char} (h : ∀ c ∈ text, c.isDigit) (hne : text ≠ []) :
    parseInt ('-' :: text) = fit (-(Nat.ofDigitChars 10 text 0 : ℤ)) := by
  show (parseDigits text).bind _ = _
  rw [parseDigits_of_digits h hne, Option.bind_some]

/-- A field that is not empty parses, and its value is in range. -/
theorem AmountText.parseInt {text : List Char} (h : AmountText text) (hne : text ≠ []) :
    ∃ amount, SpendingTracker.parseInt text = some amount ∧ AmountInRange amount ∧
      amount.toInt = Nat.ofDigitChars 10 text 0 := by
  have hlt : Nat.ofDigitChars 10 text 0 < 10 ^ 6 :=
    (ofDigitChars_lt h.digits).trans_le (Nat.pow_le_pow_right (by omega) h.length)
  rw [parseInt_of_digits h.digits hne]
  have hfits : Fits (Nat.ofDigitChars 10 text 0 : ℤ) := by
    constructor <;> omega
  refine ⟨_, if_pos hfits, ?_⟩
  have hval := Int64.toInt_ofInt_of_le hfits.1 hfits.2
  exact ⟨⟨by omega, by omega⟩, hval⟩

/-- The decimal of an amount in range is a text the field can hold. -/
lemma amountText_amountDescription {amount : Int64} (h : AmountInRange amount) :
    AmountText (amountDescription amount) := by
  rw [amountDescription, if_neg (by have := h.1; omega)]
  refine ⟨fun c hc => Nat.isDigit_of_mem_toDigits (by omega) (by omega) hc, ?_⟩
  refine (Nat.length_toDigits_le_iff (by omega) (by decide)).mpr ?_
  have := h.2
  have := h.1
  simp only [maxLength]
  omega

/-- The decimal of an amount denotes the amount. -/
lemma parseInt_amountDescription (amount : Int64) :
    parseInt (amountDescription amount) = some amount := by
  have hdigits : ∀ c ∈ Nat.toDigits 10 amount.toInt.natAbs, c.isDigit := fun c hc =>
    Nat.isDigit_of_mem_toDigits (by omega) (by omega) hc
  unfold amountDescription
  split_ifs with hneg
  · rw [parseInt_minus_cons hdigits Nat.toDigits_ne_nil, fit_eq_some_iff,
      Nat.ofDigitChars_ten_toDigits]
    omega
  · rw [parseInt_of_digits hdigits Nat.toDigits_ne_nil, fit_eq_some_iff,
      Nat.ofDigitChars_ten_toDigits]
    omega

/-! ### Texts with a sign

A stored amount may be negative, or longer than six digits.  The field then starts with its whole
decimal, and the user can put digits before the sign or take away the digits behind it. -/

/-- Digits and at most one minus sign: at most six characters, or the decimal of an amount. -/
structure SignedText (text : List Char) : Prop where
  chars : ∀ c ∈ text, c.isDigit ∨ c = '-'
  count : text.count '-' ≤ 1
  length : text.length ≤ maxLength ∨ ∃ amount, text = amountDescription amount

/-- A minus sign, if there is one, stands at the start and before a digit. -/
def SignInPlace (text : List Char) : Prop := '-' ∉ text ∨ ∃ c rest, text = '-' :: c :: rest

lemma signedText_nil : SignedText [] := ⟨by simp, by simp, Or.inl (by simp)⟩

lemma isDigit_of_mem_toDigits {n : ℕ} {c : Char} (h : c ∈ Nat.toDigits 10 n) : c.isDigit :=
  Nat.isDigit_of_mem_toDigits (by omega) (by omega) h

lemma minus_notMem_of_digits {text : List Char} (h : ∀ c ∈ text, c.isDigit) : '-' ∉ text :=
  fun hmem => absurd (h _ hmem) (by decide)

lemma signedText_amountDescription (amount : Int64) : SignedText (amountDescription amount) := by
  refine ⟨?_, ?_, Or.inr ⟨amount, rfl⟩⟩
  all_goals
    have hminus : '-' ∉ Nat.toDigits 10 amount.toInt.natAbs :=
      minus_notMem_of_digits fun c hc => isDigit_of_mem_toDigits hc
    unfold amountDescription
    split_ifs
  · intro c hc
    rcases List.mem_cons.mp hc with rfl | hc
    · exact Or.inr rfl
    · exact Or.inl (isDigit_of_mem_toDigits hc)
  · exact fun c hc => Or.inl (isDigit_of_mem_toDigits hc)
  · rw [List.count_cons_self, List.count_eq_zero.mpr hminus]
  · rw [List.count_eq_zero.mpr hminus]
    omega

/-- The decimal of an amount has its sign in place. -/
lemma signInPlace_amountDescription (amount : Int64) :
    SignInPlace (amountDescription amount) := by
  unfold amountDescription
  split_ifs
  · obtain ⟨c, rest, hdigits⟩ := List.exists_cons_of_ne_nil
      (Nat.toDigits_ne_nil (b := 10) (n := amount.toInt.natAbs))
    exact Or.inr ⟨c, rest, by rw [hdigits]⟩
  · exact Or.inl (minus_notMem_of_digits fun c hc => isDigit_of_mem_toDigits hc)

/-- No edit brings in a sign. -/
lemma SignedText.editText {text : List Char} (h : SignedText text) (location length : ℕ)
    (replacement : List Char) :
    SignedText (SpendingTracker.editText text location length replacement) := by
  unfold SpendingTracker.editText
  split_ifs with hallowed
  · have hdigits : ∀ c ∈ replacement, c.isDigit := fun c hc =>
      isDigit_of_mem_allowedCharacterSet
        (List.contains_iff_mem.mp (List.all_eq_true.mp hallowed c hc))
    have hpre := isPrefix_safelyLimitedTo
      (text.take location ++ replacement ++ text.drop (location + length)) maxLength
    refine ⟨fun c hc => ?_, ?_, Or.inl (length_safelyLimitedTo _ _)⟩
    · have hmem := hpre.subset hc
      simp only [List.mem_append] at hmem
      rcases hmem with (hmem | hmem) | hmem
      · exact h.chars c (List.mem_of_mem_take hmem)
      · exact Or.inl (hdigits c hmem)
      · exact h.chars c (List.mem_of_mem_drop hmem)
    -- what is kept of the text is a part of it
    · have hkept : (text.take location ++ text.drop (location + length)).Sublist text := by
        have hdrop : (text.drop (location + length)).Sublist (text.drop location) := by
          rw [← List.drop_drop]
          exact List.drop_sublist _ _
        calc (text.take location ++ text.drop (location + length)).Sublist
              (text.take location ++ text.drop location) := hdrop.append_left _
          _ = text := List.take_append_drop _ _
      have hcount := hkept.count_le '-'
      have hcount' := hpre.sublist.count_le '-'
      have hnone := List.count_eq_zero.mpr (minus_notMem_of_digits hdigits)
      have hone := h.count
      simp only [List.count_append] at hcount hcount'
      omega
  · exact h

lemma fit_ne_none {n : ℤ} (h : Fits n) : fit n ≠ none := by
  simp [fit, h]

/-- A few digits fit, with either sign. -/
lemma parseInt_ne_none_of_digits {text : List Char} (h : ∀ c ∈ text, c.isDigit) (hne : text ≠ [])
    (hlength : text.length ≤ maxLength) :
    parseInt text ≠ none ∧ parseInt ('-' :: text) ≠ none := by
  have hlt : Nat.ofDigitChars 10 text 0 < 10 ^ 6 :=
    (ofDigitChars_lt h).trans_le (Nat.pow_le_pow_right (by omega) hlength)
  rw [parseInt_of_digits h hne, parseInt_minus_cons h hne]
  exact ⟨fit_ne_none ⟨by omega, by omega⟩, fit_ne_none ⟨by omega, by omega⟩⟩

/-- A minus sign behind the first character is no sign of a number. -/
lemma parseInt_eq_none_of_minus_mem {c : Char} {rest : List Char} (hplus : c ≠ '+')
    (hminus : c ≠ '-') (hmem : '-' ∈ rest) : parseInt (c :: rest) = none := by
  have hnone : parseDigits (c :: rest) = none := if_neg fun hall =>
    absurd (List.all_eq_true.mp hall.2 '-' (List.mem_cons_of_mem c hmem)) (by decide)
  unfold parseInt
  split
  next heq => exact absurd (List.cons.inj heq).1 hplus
  next heq => exact absurd (List.cons.inj heq).1 hminus
  next => rw [hnone, Option.bind_none]

/-- A text that is not empty parses exactly if its sign is in place. -/
lemma SignedText.parseInt_ne_none_iff {text : List Char} (h : SignedText text) (hne : text ≠ []) :
    parseInt text ≠ none ↔ SignInPlace text := by
  rcases h.length with hlength | ⟨amount, rfl⟩
  · have hdigits : ∀ l ⊆ text, '-' ∉ l → ∀ c ∈ l, c.isDigit := fun l hl hminus c hc =>
      (h.chars c (hl hc)).resolve_right fun heq => hminus (heq ▸ hc)
    obtain ⟨c, rest, rfl⟩ := List.exists_cons_of_ne_nil hne
    have hsub : rest ⊆ c :: rest := List.subset_cons_self c rest
    by_cases hc : c = '-'
    · subst hc
      have hcount := h.count
      rw [List.count_cons_self] at hcount
      have hrest := hdigits rest hsub (List.count_eq_zero.mp (by omega))
      cases rest with
      | nil => exact iff_of_false (by decide) (by simp [SignInPlace])
      | cons d rest =>
          have hle := (Nat.le_succ _).trans hlength
          refine iff_of_true ?_ (Or.inr ⟨d, rest, rfl⟩)
          exact (parseInt_ne_none_of_digits hrest (List.cons_ne_nil _ _) hle).2
    · by_cases hrest : '-' ∈ rest
      · have hplus : c ≠ '+' := by
          rintro rfl
          exact absurd (h.chars '+' List.mem_cons_self) (by decide)
        refine iff_of_false (not_not.mpr (parseInt_eq_none_of_minus_mem hplus hc hrest)) ?_
        rintro (hno | ⟨d, rest', heq⟩)
        · exact hno (hsub hrest)
        · exact hc (List.cons.inj heq).1
      · have hno : '-' ∉ c :: rest := by
          simp [Ne.symm hc, hrest]
        refine iff_of_true ?_ (Or.inl hno)
        exact (parseInt_ne_none_of_digits (hdigits _ (List.Subset.refl _) hno) hne hlength).1
  · simp [parseInt_amountDescription, signInPlace_amountDescription]

end SpendingTracker
