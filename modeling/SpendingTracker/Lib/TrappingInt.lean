import Mathlib.Data.Int.Basic
import Mathlib.Algebra.Order.BigOperators.Group.List
import Mathlib.Tactic.Ring

/-!
# Trapping arithmetic on 64-bit integers

Arithmetic that stops the program when the exact result does not fit into a signed 64-bit
word.  An operation is a function into `Option Int64`, where `none` is the trap.  The main
fact is about running sums: adding up a list traps exactly when the exact sum of some initial
segment does not fit.
-/

namespace SpendingTracker.Lib

/-- The integer `n` fits into a signed 64-bit word. -/
def Fits (n : ℤ) : Prop := -2 ^ 63 ≤ n ∧ n < 2 ^ 63

instance (n : ℤ) : Decidable (Fits n) := inferInstanceAs (Decidable (_ ∧ _))

/-- The word with the value `n`, if there is one. -/
def fit (n : ℤ) : Option Int64 := if Fits n then some (Int64.ofInt n) else none

lemma fits_toInt (a : Int64) : Fits a.toInt := ⟨a.le_toInt, a.toInt_lt⟩

lemma fit_eq_some_iff {n : ℤ} {a : Int64} : fit n = some a ↔ a.toInt = n := by
  constructor
  · intro h
    by_cases hn : Fits n
    · rw [fit, if_pos hn, Option.some.injEq] at h
      rw [← h, Int64.toInt_ofInt_of_le hn.1 hn.2]
    · rw [fit, if_neg hn] at h
      exact absurd h (by simp)
  · rintro rfl
    rw [fit, if_pos (fits_toInt a), Int64.ofInt_toInt]

/-- Addition that traps on overflow. -/
def addTrapping (a b : Int64) : Option Int64 := fit (a.toInt + b.toInt)

/-- Subtraction that traps on overflow. -/
def subTrapping (a b : Int64) : Option Int64 := fit (a.toInt - b.toInt)

lemma addTrapping_eq_some_iff {a b s : Int64} :
    addTrapping a b = some s ↔ s.toInt = a.toInt + b.toInt := fit_eq_some_iff

lemma subTrapping_eq_some_iff {a b s : Int64} :
    subTrapping a b = some s ↔ s.toInt = a.toInt - b.toInt := fit_eq_some_iff

/-- Add the elements of a list to `a`, from left to right. -/
def sumTrapping (a : Int64) : List Int64 → Option Int64
  | [] => some a
  | x :: xs => (addTrapping a x).bind fun b => sumTrapping b xs

/-- A running sum over two lists one after the other. -/
lemma sumTrapping_append {a s : Int64} {xs ys : List Int64} :
    sumTrapping a (xs ++ ys) = some s ↔
      ∃ b, sumTrapping a xs = some b ∧ sumTrapping b ys = some s := by
  induction xs generalizing a with
  | nil => simp [sumTrapping]
  | cons x xs ih =>
      simp only [List.cons_append, sumTrapping, Option.bind_eq_some_iff, ih]
      constructor
      · rintro ⟨c, hc, b, hb, hs⟩
        exact ⟨b, ⟨c, hc, hb⟩, hs⟩
      · rintro ⟨b, ⟨c, hc, hb⟩, hs⟩
        exact ⟨c, hc, b, hb, hs⟩

/-- The exact sum of a list of words. -/
def exactSum (xs : List Int64) : ℤ := (xs.map Int64.toInt).sum

@[simp] lemma exactSum_nil : exactSum [] = 0 := rfl

@[simp] lemma exactSum_cons (x : Int64) (xs : List Int64) :
    exactSum (x :: xs) = x.toInt + exactSum xs := by
  simp [exactSum]

@[simp] lemma exactSum_append (xs ys : List Int64) :
    exactSum (xs ++ ys) = exactSum xs + exactSum ys := by
  simp [exactSum]

lemma exactSum_nonneg {xs : List Int64} (h : ∀ x ∈ xs, 0 ≤ x.toInt) : 0 ≤ exactSum xs := by
  refine List.sum_nonneg fun n hn => ?_
  obtain ⟨x, hx, rfl⟩ := List.mem_map.mp hn
  exact h x hx

/-- Leaving out non-negative words does not increase the sum. -/
lemma exactSum_le_of_sublist {xs ys : List Int64} (h : xs.Sublist ys)
    (hpos : ∀ y ∈ ys, 0 ≤ y.toInt) : exactSum xs ≤ exactSum ys := by
  refine (h.map Int64.toInt).sum_le_sum fun n hn => ?_
  obtain ⟨y, hy, rfl⟩ := List.mem_map.mp hn
  exact hpos y hy

/-- A running sum that does not trap is exact. -/
lemma toInt_of_sumTrapping {a s : Int64} {xs : List Int64} (h : sumTrapping a xs = some s) :
    s.toInt = a.toInt + exactSum xs := by
  induction xs generalizing a with
  | nil =>
      simp only [sumTrapping, Option.some.injEq] at h
      simp [h]
  | cons x xs ih =>
      simp only [sumTrapping, Option.bind_eq_some_iff] at h
      obtain ⟨b, hb, hs⟩ := h
      rw [ih hs, addTrapping_eq_some_iff.mp hb, exactSum_cons]
      ring

/-- A running sum from zero is the sum. -/
lemma toInt_of_sumTrapping_zero {s : Int64} {xs : List Int64} (h : sumTrapping 0 xs = some s) :
    s.toInt = exactSum xs := by
  rw [toInt_of_sumTrapping h, Int64.toInt_zero, zero_add]

/-- **Running sums.**  Adding up a list traps exactly when the exact sum of some initial
segment leaves the range of a word. -/
theorem sumTrapping_eq_none_iff {a : Int64} {xs : List Int64} :
    sumTrapping a xs = none ↔ ∃ ys, ys <+: xs ∧ ¬ Fits (a.toInt + exactSum ys) := by
  induction xs generalizing a with
  | nil =>
      simp only [sumTrapping, reduceCtorEq, false_iff, List.prefix_nil]
      rintro ⟨ys, rfl, hys⟩
      exact hys (by simpa using fits_toInt a)
  | cons x xs ih =>
      rw [sumTrapping, Option.bind_eq_none_iff]
      constructor
      · intro h
        by_cases hx : Fits (a.toInt + x.toInt)
        · have hb : addTrapping a x = some (Int64.ofInt (a.toInt + x.toInt)) := if_pos hx
          obtain ⟨ys, hys, hfit⟩ := ih.mp (h _ hb)
          rw [addTrapping_eq_some_iff.mp hb] at hfit
          exact ⟨x :: ys, List.cons_prefix_cons.mpr ⟨rfl, hys⟩, by simpa [add_assoc] using hfit⟩
        · exact ⟨[x], by simp, by simpa using hx⟩
      · rintro ⟨ys, hys, hfit⟩ b hb
        cases ys with
        | nil => exact absurd (by simpa using fits_toInt a) hfit
        | cons y ys =>
            obtain ⟨rfl, htail⟩ := List.cons_prefix_cons.mp hys
            refine ih.mpr ⟨ys, htail, ?_⟩
            rw [addTrapping_eq_some_iff.mp hb]
            simpa [add_assoc] using hfit

lemma sumTrapping_zero_eq_none_iff {xs : List Int64} :
    sumTrapping 0 xs = none ↔ ∃ ys, ys <+: xs ∧ ¬ Fits (exactSum ys) := by
  simp only [sumTrapping_eq_none_iff, Int64.toInt_zero, zero_add]

/-- A running sum of non-negative words whose exact sum fits does not trap. -/
lemma exists_sumTrapping {xs : List Int64} (hpos : ∀ x ∈ xs, 0 ≤ x.toInt)
    (hfits : Fits (exactSum xs)) :
    ∃ s, sumTrapping 0 xs = some s ∧ s.toInt = exactSum xs := by
  have hnone : sumTrapping 0 xs ≠ none := by
    rw [ne_eq, sumTrapping_zero_eq_none_iff]
    rintro ⟨ys, ⟨zs, rfl⟩, hys⟩
    have hys₀ := exactSum_nonneg fun x hx => hpos x (List.mem_append_left zs hx)
    have hzs₀ := exactSum_nonneg fun x hx => hpos x (List.mem_append_right ys hx)
    obtain ⟨hlow, hhigh⟩ := hfits
    rw [exactSum_append] at hlow hhigh
    exact hys ⟨by omega, by omega⟩
  obtain ⟨s, hs⟩ := Option.ne_none_iff_exists'.mp hnone
  exact ⟨s, hs, toInt_of_sumTrapping_zero hs⟩

end SpendingTracker.Lib
