import Mathlib.Data.List.Basic

/-!
# The characters of a text

A text is a sequence of Unicode scalars, but its characters are the grapheme clusters that the
text is segmented into, and its length is their number.  The segmentation follows tables that
change with the version of Unicode; what is said here holds for all of them.
-/

namespace SpendingTracker.Lib

/-- A segmentation of texts into characters. -/
structure Characters where
  /-- The characters of a text, from the first to the last. -/
  characters : List Char → List (List Char)
  flatten_characters : ∀ text, (characters text).flatten = text
  ne_nil : ∀ text, ∀ c ∈ characters text, c ≠ []
  /-- There is a boundary between any two ASCII digits. -/
  digits : ∀ text, (∀ c ∈ text, c.isDigit) → characters text = text.map fun c => [c]

namespace Characters

variable {ch : Characters} {text : List Char} {n : ℕ}

/-- The number of characters of a text. -/
def count (ch : Characters) (text : List Char) : ℕ := (ch.characters text).length

/-- The text of the first `n` characters. -/
def first (ch : Characters) (text : List Char) (n : ℕ) : List Char :=
  ((ch.characters text).take n).flatten

lemma count_eq_zero_iff : ch.count text = 0 ↔ text = [] := by
  rw [count, List.length_eq_zero_iff]
  constructor
  · intro h
    rw [← ch.flatten_characters text, h, List.flatten_nil]
  · rintro rfl
    have hnil : (ch.characters []).flatten = [] := ch.flatten_characters []
    rw [List.flatten_eq_nil_iff] at hnil
    exact List.eq_nil_iff_forall_not_mem.mpr fun c hc => ch.ne_nil _ c hc (hnil c hc)

/-- The first characters of a text are a prefix of it. -/
lemma first_isPrefix : ch.first text n <+: text := by
  refine ⟨((ch.characters text).drop n).flatten, ?_⟩
  rw [first, ← List.flatten_append, List.take_append_drop, ch.flatten_characters]

lemma count_of_digits (h : ∀ c ∈ text, c.isDigit) : ch.count text = text.length := by
  rw [count, ch.digits text h, List.length_map]

lemma first_of_digits (h : ∀ c ∈ text, c.isDigit) : ch.first text n = text.take n := by
  rw [first, ch.digits text h, ← List.map_take, ← List.flatMap_def, List.flatMap_singleton']

/-- Every scalar for itself: the segmentation of texts without combining characters. -/
def scalars : Characters where
  characters text := text.map fun c => [c]
  flatten_characters text := by rw [← List.flatMap_def, List.flatMap_singleton']
  ne_nil text c hc := by
    obtain ⟨a, -, rfl⟩ := List.mem_map.mp hc
    exact List.cons_ne_nil _ _
  digits _ _ := rfl

/-- An equality of texts that does not depend on how their characters are encoded. -/
structure Equality (ch : Characters) where
  same : List Char → List Char → Bool
  refl : ∀ text, same text text = true
  /-- Texts that are the same have the same number of characters. -/
  count_eq : ∀ {text text' : List Char}, same text text' = true → ch.count text = ch.count text'

/-- Texts without combining characters are the same only if they are equal. -/
def Equality.scalars : Equality .scalars where
  same text text' := text = text'
  refl text := decide_eq_true rfl
  count_eq h := by rw [of_decide_eq_true h]

end Characters

end SpendingTracker.Lib
