import SpendingTracker.Model.Transaction

/-!
# What the platform decides

Swift decides by the tables of Unicode which strings are equal, Firestore converts dates through
floating point numbers, and Foundation writes numbers in the way of the user's locale.  Each of
the three is a class, and a result that depends on it is about all its instances.

Each class has a plain instance of low priority: strings are equal if their scalars are, as it is
with identifiers from `UUID()`; dates come back as they were stored, which some results take for
granted; and numbers are written in groups of three.  It is meant wherever a class is not declared
as a variable.
-/

namespace SpendingTracker

/-! ### Equal strings -/

/-- `==` of two optional strings.  Strings are equal if they are canonically equivalent. -/
class StringEquality where
  Same : Option String → Option String → Prop
  decidable : DecidableRel Same
  equivalence : Equivalence Same
  same_none_iff : ∀ {o : Option String}, Same o none ↔ o = none

export StringEquality (Same)

namespace StringEquality

instance [StringEquality] : DecidableRel Same := decidable

@[refl] lemma same_refl [StringEquality] (a : Option String) : Same a a := equivalence.refl a

lemma same_of_eq [StringEquality] {a b : Option String} (h : a = b) : Same a b := h ▸ same_refl a

/-- Strings are equal only if they consist of the same scalars. -/
instance (priority := low) scalars : StringEquality where
  Same a b := a = b
  decidable := inferInstance
  equivalence := eq_equivalence
  same_none_iff := Iff.rfl

/-- Canonical equivalence of texts in which only the letter e with an acute accent can be
decomposed. -/
@[reducible] def acute : StringEquality :=
  let decomposition (s : String) : List Char :=
    s.toList.flatMap fun c => if c = '\u00e9' then ['e', '\u0301'] else [c]
  { Same a b := a.map decomposition = b.map decomposition
    decidable _ _ := inferInstance
    equivalence := ⟨fun _ => rfl, Eq.symm, Eq.trans⟩
    same_none_iff := by simp }

end StringEquality

/-! ### Stored dates -/

/-- `FIRTimestamp`: what is stored of a date, to the microsecond, and the date that is made of
what is stored. -/
class FIRTimestamp where
  timestampWithDate : Date → Date
  dateValue : Date → Date

export FIRTimestamp (timestampWithDate dateValue)

namespace FIRTimestamp

/-- Dates come back as they were stored. -/
instance (priority := low) unchanged : FIRTimestamp := ⟨fun d => d, fun d => d⟩

@[simp] lemma timestampWithDate_unchanged (d : Date) : timestampWithDate d = d := rfl

@[simp] lemma dateValue_unchanged (d : Date) : dateValue d = d := rfl

end FIRTimestamp

/-! ### Numbers -/

/-- The decimal style of `NumberFormatter` for whole numbers in the user's locale: its digits, the
minus sign in front of a negative number, and the sizes of the groups.  Digits and minus signs
are the ASCII ones or lie outside ASCII. -/
class NumberFormat where
  digit : ℕ → Char
  minusSign : List Char
  /-- Whether a group ends before the last `behind` of `length` digits. -/
  endsGroup (length behind : ℕ) : Bool
  digit_injective : ∀ m < 10, ∀ n < 10, digit m = digit n → m = n
  digit_ascii : ∀ n < 10, (digit n).isDigit ∨ 128 ≤ (digit n).toNat
  minusSign_ne_nil : minusSign ≠ []
  minusSign_ascii : ∀ c ∈ minusSign, c = '-' ∨ 128 ≤ c.toNat
  minusSign_ne_digit : ∀ c ∈ minusSign, ∀ n < 10, c ≠ digit n

/-- ASCII digits in groups of three, and a hyphen before a negative number. -/
instance (priority := low) NumberFormat.groupsOfThree : NumberFormat where
  digit := Nat.digitChar
  minusSign := ['-']
  endsGroup _ behind := 3 ∣ behind
  digit_injective := by decide
  digit_ascii := by decide
  minusSign_ne_nil := by decide
  minusSign_ascii := List.forall_iff_forall_mem.mp (by decide)
  minusSign_ne_digit := List.forall_iff_forall_mem.mp (by decide)

end SpendingTracker
