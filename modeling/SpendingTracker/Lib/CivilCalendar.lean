import Mathlib.Data.Int.Interval
import Mathlib.Order.Interval.Set.Basic
import Mathlib.Order.Monotone.Basic
import Mathlib.Tactic.Ring

/-!
# The proleptic Gregorian calendar

Time is a line of integers which a calendar cuts into consecutive periods: instants into days,
days into months, months into years.  `Periods` is one such cut; it knows the first integer of
each period and the period of each integer.  The main fact is `Periods.index_eq_iff`: the
integers of one period are an interval.

Days are numbered from 0001-01-01, the day 0.  Months are numbered through: the month `m` of the
year `y`, with `m` from 0 to 11, has the number `12 * y + m`.
-/

namespace SpendingTracker.Lib

/-! ### Parts of given lengths -/

/-- The number of the part that `k` falls into, when parts of the given lengths start at 0. -/
def partOf : List ℤ → ℤ → ℕ
  | [], _ => 0
  | l :: lengths, k => if k < l then 0 else partOf lengths (k - l) + 1

lemma partOf_spec {lengths : List ℤ} {k : ℤ} (hk : 0 ≤ k) (hsum : k < lengths.sum) :
    partOf lengths k < lengths.length ∧ (lengths.take (partOf lengths k)).sum ≤ k ∧
      k < (lengths.take (partOf lengths k + 1)).sum := by
  induction lengths generalizing k with
  | nil =>
      rw [List.sum_nil] at hsum
      omega
  | cons l lengths ih =>
      rw [List.sum_cons] at hsum
      unfold partOf
      split_ifs with hl
      · simp [hk, hl]
      · obtain ⟨hlt, hlow, hhigh⟩ := ih (k := k - l) (by omega) (by omega)
        simp only [List.length_cons, List.take_succ_cons, List.sum_cons]
        omega

/-! ### Cutting the line into periods -/

/-- A cut of the integers into consecutive periods. -/
structure Periods where
  /-- The first integer of a period. -/
  start : ℤ → ℤ
  /-- The period of an integer. -/
  index : ℤ → ℤ
  start_lt : ∀ i, start i < start (i + 1)
  start_index_le : ∀ n, start (index n) ≤ n
  lt_start_index : ∀ n, n < start (index n + 1)

namespace Periods

variable {p q : Periods} {n i j : ℤ}

lemma start_lt_start_iff : p.start i < p.start j ↔ i < j :=
  (strictMono_int_of_lt_succ p.start_lt).lt_iff_lt

lemma start_le_start_iff : p.start i ≤ p.start j ↔ i ≤ j :=
  (strictMono_int_of_lt_succ p.start_lt).le_iff_le

/-- The integers of a period are an interval. -/
lemma index_eq_iff : p.index n = i ↔ p.start i ≤ n ∧ n < p.start (i + 1) := by
  constructor
  · rintro rfl
    exact ⟨p.start_index_le n, p.lt_start_index n⟩
  · rintro ⟨hlow, hhigh⟩
    have h₁ : p.index n < i + 1 :=
      p.start_lt_start_iff.mp ((p.start_index_le n).trans_lt hhigh)
    have h₂ : i < p.index n + 1 :=
      p.start_lt_start_iff.mp (hlow.trans_lt (p.lt_start_index n))
    omega

/-- Periods of periods: `q` cuts the numbers of the periods of `p`. -/
def comp (q p : Periods) : Periods where
  start i := p.start (q.start i)
  index n := q.index (p.index n)
  start_lt i := p.start_lt_start_iff.mpr (q.start_lt i)
  start_index_le n :=
    (p.start_le_start_iff.mpr (q.start_index_le _)).trans (p.start_index_le n)
  lt_start_index n := by
    refine (p.lt_start_index n).trans_le (p.start_le_start_iff.mpr ?_)
    have := q.lt_start_index (p.index n)
    omega

/-- Periods of one length `k`, the period `i₀` starting at `n₀`. -/
def ofLength (k : ℤ) (hk : 0 < k) (n₀ i₀ : ℤ) : Periods where
  start i := (i - i₀) * k + n₀
  index n := (n - n₀) / k + i₀
  start_lt i := by
    have : (i + 1 - i₀) * k = (i - i₀) * k + k := by ring
    omega
  start_index_le n := by
    have := Int.ediv_mul_le (n - n₀) hk.ne'
    rw [show (n - n₀) / k + i₀ - i₀ = (n - n₀) / k by omega]
    omega
  lt_start_index n := by
    have := Int.lt_ediv_add_one_mul_self (n - n₀) hk
    rw [show (n - n₀) / k + i₀ + 1 - i₀ = (n - n₀) / k + 1 by omega]
    omega

/-! ### Dividing a period into parts -/

/-- A division of each period into `N` parts. -/
structure Parts (p : Periods) (N : ℕ) where
  lengths : ℤ → List ℤ
  pos : 0 < N
  length_lengths : ∀ i, (lengths i).length = N
  lengths_pos : ∀ i, ∀ l ∈ lengths i, 0 < l
  start_add_sum : ∀ i, p.start i + (lengths i).sum = p.start (i + 1)

variable {N : ℕ} {P : p.Parts N} {k : ℕ}

/-- The start of the part `k` of the period `i`. -/
def Parts.startAt (P : p.Parts N) (i : ℤ) (k : ℕ) : ℤ := p.start i + ((P.lengths i).take k).sum

/-- After the last part of a period comes the first part of the next one. -/
lemma Parts.startAt_last (P : p.Parts N) (i : ℤ) : P.startAt i N = P.startAt (i + 1) 0 := by
  rw [startAt, startAt, List.take_of_length_le (P.length_lengths i).le, P.start_add_sum,
    List.take_zero, List.sum_nil, add_zero]

lemma Parts.startAt_lt (P : p.Parts N) (i : ℤ) (hk : k < N) :
    P.startAt i k < P.startAt i (k + 1) := by
  have hlen : k < (P.lengths i).length := by rwa [P.length_lengths]
  have hpos := P.lengths_pos i _ (List.getElem_mem hlen)
  rw [startAt, startAt, List.sum_take_succ _ _ hlen]
  omega

/-- The start of a part whose number is counted through all periods. -/
def Parts.start (P : p.Parts N) (j : ℤ) : ℤ := P.startAt (j / N) (j % N).toNat

lemma Parts.start_eq (P : p.Parts N) (i : ℤ) (hk : k ≤ N) :
    P.start (N * i + k) = P.startAt i k := by
  have hpos := P.pos
  rcases Nat.lt_or_eq_of_le hk with hlt | rfl
  · obtain ⟨hdiv, hmod⟩ := (Int.ediv_emod_unique (a := N * i + k) (b := N) (q := i) (r := k)
      (by omega)).mpr ⟨by ring, by omega, by omega⟩
    rw [start, hdiv, hmod, Int.toNat_natCast]
  · obtain ⟨hdiv, hmod⟩ := (Int.ediv_emod_unique (a := k * i + k) (b := k) (q := i + 1) (r := 0)
      (by omega)).mpr ⟨by ring, by omega, by omega⟩
    rw [start, hdiv, hmod, Int.toNat_zero, P.startAt_last]

/-- The part that an integer falls into has a number below `N`. -/
lemma Parts.exists_index (P : p.Parts N) (n : ℤ) :
    partOf (P.lengths (p.index n)) (n - p.start (p.index n)) < N ∧
      P.startAt (p.index n) (partOf (P.lengths (p.index n)) (n - p.start (p.index n))) ≤ n ∧
      n < P.startAt (p.index n) (partOf (P.lengths (p.index n)) (n - p.start (p.index n)) + 1) := by
  have hlow := p.start_index_le n
  have hhigh := p.lt_start_index n
  rw [← P.start_add_sum] at hhigh
  obtain ⟨hlt, h₁, h₂⟩ := @partOf_spec (P.lengths (p.index n)) (n - p.start (p.index n))
    (by omega) (by omega)
  rw [P.length_lengths] at hlt
  unfold startAt
  omega

/-- The parts of all periods. -/
def divide (P : p.Parts N) : Periods where
  start := P.start
  index n := N * p.index n + partOf (P.lengths (p.index n)) (n - p.start (p.index n))
  start_lt j := by
    have hpos := P.pos
    have hmod : (j % N).toNat < N := by
      have := Int.emod_lt_of_pos j (b := N) (by omega)
      have := Int.emod_nonneg j (b := N) (by omega)
      omega
    have hj : j = N * (j / N) + (j % N).toNat := by
      rw [Int.toNat_of_nonneg (Int.emod_nonneg j (by omega)), Int.mul_ediv_add_emod]
    have hsucc : P.start (j + 1) = P.startAt (j / N) ((j % N).toNat + 1) := by
      rw [← P.start_eq (j / N) (show (j % N).toNat + 1 ≤ N from hmod)]
      congr 1
      push_cast
      omega
    rw [hsucc]
    exact P.startAt_lt _ hmod
  start_index_le n := by
    obtain ⟨hlt, hlow, -⟩ := P.exists_index n
    rwa [P.start_eq _ hlt.le]
  lt_start_index n := by
    obtain ⟨hlt, -, hhigh⟩ := P.exists_index n
    rw [add_assoc, ← Nat.cast_succ, P.start_eq _ hlt]
    exact hhigh

end Periods

/-! ### Years -/

/-- The rule of the leap years. -/
def IsLeapYear (y : ℤ) : Prop := 4 ∣ y ∧ (¬ 100 ∣ y ∨ 400 ∣ y)

instance : DecidablePred IsLeapYear := fun _ => inferInstanceAs (Decidable (_ ∧ _))

/-- The number of the first day of a year. -/
def firstDayOfYear (y : ℤ) : ℤ := 365 * (y - 1) + (y - 1) / 4 - (y - 1) / 100 + (y - 1) / 400

/-- The year of a day, counted in cycles of 400, 100, 4 and 1 years.  The last year of a cycle of
4 years and the last 100 years of a cycle of 400 are longer than the others by a day. -/
def yearOfDay (n : ℤ) : ℤ :=
  let a := n / 146097
  let b := min (n % 146097 / 36524) 3
  let c := (n % 146097 - 36524 * b) / 1461
  let d := min ((n % 146097 - 36524 * b) % 1461 / 365) 3
  400 * a + 100 * b + 4 * c + d + 1

/-- A year has 365 days, or 366 if it is a leap year. -/
lemma firstDayOfYear_succ (y : ℤ) :
    firstDayOfYear (y + 1) = firstDayOfYear y + if IsLeapYear y then 366 else 365 := by
  unfold firstDayOfYear IsLeapYear
  split_ifs with h <;> omega

section Cycles

variable {a b c d : ℤ}

/-- The first day of a year whose number is given in cycles. -/
lemma firstDayOfYear_cycles (hb : 0 ≤ b ∧ b ≤ 3) (hc : 0 ≤ c ∧ c ≤ 24) (hd : 0 ≤ d ∧ d ≤ 3) :
    firstDayOfYear (400 * a + 100 * b + 4 * c + d + 1) =
      146097 * a + 36524 * b + 1461 * c + 365 * d := by
  unfold firstDayOfYear
  omega

/-- The leap years are the last ones of their cycles of 4 years, except for the last cycle of a
hundred years, unless these are the last of a cycle of 400. -/
lemma isLeapYear_cycles (hb : 0 ≤ b ∧ b ≤ 3) (hc : 0 ≤ c ∧ c ≤ 24) (hd : 0 ≤ d ∧ d ≤ 3) :
    IsLeapYear (400 * a + 100 * b + 4 * c + d + 1) ↔ d = 3 ∧ (c ≠ 24 ∨ b = 3) := by
  unfold IsLeapYear
  omega

/-- The cycles that a day falls into, and its position in the year. -/
lemma exists_cycles (n : ℤ) : ∃ a b c d e, yearOfDay n = 400 * a + 100 * b + 4 * c + d + 1 ∧
    n = 146097 * a + 36524 * b + 1461 * c + 365 * d + e ∧ (0 ≤ b ∧ b ≤ 3) ∧ (0 ≤ c ∧ c ≤ 24) ∧
    (0 ≤ d ∧ d ≤ 3) ∧ 0 ≤ e ∧ (e < 365 ∨ e = 365 ∧ d = 3 ∧ (c ≠ 24 ∨ b = 3)) := by
  -- the position in the cycle of 400 years, in the 100 years and in the 4 years
  obtain ⟨r, hr⟩ : ∃ r, r = n % 146097 := ⟨_, rfl⟩
  obtain ⟨b, hb⟩ : ∃ b, b = min (r / 36524) 3 := ⟨_, rfl⟩
  obtain ⟨r', hr'⟩ : ∃ r', r' = (r - 36524 * b) % 1461 := ⟨_, rfl⟩
  obtain ⟨d, hd⟩ : ∃ d, d = min (r' / 365) 3 := ⟨_, rfl⟩
  refine ⟨n / 146097, b, (r - 36524 * b) / 1461, d, r' - 365 * d, ?_, ?_, ?_, ?_, ?_, ?_, ?_⟩
  · rw [hd, hr', hb, hr]
    rfl
  all_goals omega

end Cycles

/-- The years. -/
def gregorianYears : Periods where
  start := firstDayOfYear
  index := yearOfDay
  start_lt y := by
    rw [firstDayOfYear_succ]
    split_ifs <;> omega
  start_index_le n := by
    obtain ⟨a, b, c, d, e, hyear, hn, hb, hc, hd, he, -⟩ := exists_cycles n
    rw [hyear, firstDayOfYear_cycles hb hc hd]
    omega
  lt_start_index n := by
    obtain ⟨a, b, c, d, e, hyear, hn, hb, hc, hd, -, hlast⟩ := exists_cycles n
    rw [hyear, firstDayOfYear_succ, firstDayOfYear_cycles hb hc hd]
    simp only [isLeapYear_cycles hb hc hd]
    split_ifs with hleap <;> omega

/-! ### Months -/

/-- The lengths of the months of a year. -/
def monthLengths (y : ℤ) : List ℤ :=
  [31, if IsLeapYear y then 29 else 28, 31, 30, 31, 30, 31, 31, 30, 31, 30, 31]

/-- The division of the years into months. -/
def monthsOfYears : gregorianYears.Parts 12 where
  lengths := monthLengths
  pos := by omega
  length_lengths _ := rfl
  lengths_pos y l hl := by
    simp only [monthLengths, List.mem_cons, List.not_mem_nil, or_false] at hl
    split_ifs at hl <;> omega
  start_add_sum y := by
    show firstDayOfYear y + (monthLengths y).sum = firstDayOfYear (y + 1)
    rw [firstDayOfYear_succ]
    simp only [monthLengths, List.sum_cons, List.sum_nil]
    split_ifs <;> omega

/-- The months, numbered through from January of the year 0. -/
def gregorianMonths : Periods := .divide monthsOfYears

/-- The month of a day in its year, from 1 to 12. -/
def monthOfDay (n : ℤ) : ℤ :=
  partOf (monthLengths (yearOfDay n)) (n - firstDayOfYear (yearOfDay n)) + 1

/-- Two days are in one month exactly if they agree in the year and in the month of the year. -/
lemma gregorianMonths_index_eq_iff {n n' : ℤ} :
    gregorianMonths.index n = gregorianMonths.index n' ↔
      monthOfDay n = monthOfDay n' ∧ yearOfDay n = yearOfDay n' := by
  have hindex : ∀ n, gregorianMonths.index n = 12 * yearOfDay n + (monthOfDay n - 1) := fun n => by
    rw [monthOfDay, add_sub_cancel_right]
    rfl
  have hmonth : ∀ n, 1 ≤ monthOfDay n ∧ monthOfDay n ≤ 12 := fun n => by
    have hlt : partOf (monthLengths (yearOfDay n)) (n - firstDayOfYear (yearOfDay n)) < 12 :=
      (monthsOfYears.exists_index n).1
    unfold monthOfDay
    omega
  have h := hmonth n
  have h' := hmonth n'
  rw [hindex, hindex]
  omega

end SpendingTracker.Lib
