import Mathlib.Data.List.Basic

/-!
# Items in groups

A long sequence is easier to read in groups: `1234567` is written `1 234 567`, or `12 34 567`
where groups have other sizes.  Leaving out the separators recovers the sequence, so that the
grouped forms of different sequences are different.
-/

namespace SpendingTracker.Lib

variable {α : Type*} {ends : ℕ → Bool} {sep a : α} {as : List α}

/-- The sequence in groups: a separator follows an item if items follow it and a group ends
before as many of them as there are. -/
def grouped (ends : ℕ → Bool) (sep : α) : List α → List α
  | [] => []
  | a :: as =>
      if as ≠ [] ∧ ends as.length then a :: sep :: grouped ends sep as
      else a :: grouped ends sep as

lemma mem_grouped (h : a ∈ grouped ends sep as) : a = sep ∨ a ∈ as := by
  induction as with
  | nil => cases h
  | cons b as ih =>
      rw [grouped] at h
      split_ifs at h
      · simp only [List.mem_cons] at h ⊢
        rcases h with h | h | h
        · exact Or.inr (Or.inl h)
        · exact Or.inl h
        · exact (ih h).imp_right Or.inr
      · simp only [List.mem_cons] at h ⊢
        rcases h with h | h
        · exact Or.inr (Or.inl h)
        · exact (ih h).imp_right Or.inr

/-- Leaving out the separators recovers the sequence. -/
theorem filter_grouped [DecidableEq α] (h : sep ∉ as) :
    (grouped ends sep as).filter (· ≠ sep) = as := by
  induction as with
  | nil => rfl
  | cons a as ih =>
      obtain ⟨ha, has⟩ : sep ≠ a ∧ sep ∉ as := by simpa using h
      have hkeep : ∀ l : List α, (a :: l).filter (· ≠ sep) = a :: l.filter (· ≠ sep) := fun l =>
        List.filter_cons_of_pos (decide_eq_true (Ne.symm ha))
      rw [grouped]
      split_ifs
      · rw [hkeep, List.filter_cons_of_neg (by simp), ih has]
      · rw [hkeep, ih has]

/-- In front of a sequence there is no separator to find where there are none. -/
lemma exists_split_append_iff (pre : List α) (h : sep ∉ pre) {l : List α} {P : List α → Prop} :
    (∃ front back, pre ++ l = front ++ sep :: back ∧ P back) ↔
      ∃ front back, l = front ++ sep :: back ∧ P back := by
  constructor
  · rintro ⟨front, back, heq, hback⟩
    rcases List.append_eq_append_iff.mp heq with ⟨front', -, rfl⟩ | ⟨_ | ⟨c, mid⟩, hpre, hmid⟩
    · exact ⟨front', back, rfl, hback⟩
    · exact ⟨[], back, by simpa using hmid.symm, hback⟩
    · obtain ⟨rfl, -⟩ := List.cons.inj hmid
      exact absurd (hpre ▸ List.mem_append_right front List.mem_cons_self) h
  · rintro ⟨front, back, rfl, hback⟩
    exact ⟨pre ++ front, back, (List.append_assoc _ _ _).symm, hback⟩

/-- A separator with `k` items behind it stands in the grouped form of the sequence exactly if a
group ends there and items stand on both sides. -/
theorem exists_separator_iff [DecidableEq α] (h : sep ∉ as) {k : ℕ} :
    (∃ front back, grouped ends sep as = front ++ sep :: back ∧
      (back.filter (· ≠ sep)).length = k) ↔ 0 < k ∧ k < as.length ∧ ends k = true := by
  induction as with
  | nil => simp [grouped]
  | cons a as ih =>
      obtain ⟨ha, has⟩ : sep ≠ a ∧ sep ∉ as := by simpa using h
      -- the first item is not a separator
      have hfirst : ∀ l : List α, (∃ front back, a :: l = front ++ sep :: back ∧
          (back.filter (· ≠ sep)).length = k) ↔
          ∃ front back, l = front ++ sep :: back ∧ (back.filter (· ≠ sep)).length = k := fun l =>
        exists_split_append_iff [a] (by simpa using ha)
      rw [grouped]
      split_ifs with hsep
      · have hpos : 0 < as.length := List.length_pos_iff.mpr hsep.1
        rw [hfirst]
        constructor
        · rintro ⟨_ | ⟨b, front⟩, back, heq, rfl⟩
          · obtain ⟨-, rfl⟩ := List.cons.inj heq
            rw [filter_grouped has]
            exact ⟨hpos, by simp, hsep.2⟩
          · obtain ⟨hk, hlt, hends⟩ := (ih has).mp ⟨front, back, (List.cons.inj heq).2, rfl⟩
            exact ⟨hk, by simp only [List.length_cons]; omega, hends⟩
        · rintro ⟨hk, hlt, hends⟩
          by_cases hlast : k = as.length
          · exact ⟨[], grouped ends sep as, rfl, by rw [filter_grouped has, hlast]⟩
          · obtain ⟨front, back, heq, hback⟩ :=
              (ih has).mpr ⟨hk, by simp only [List.length_cons] at hlt; omega, hends⟩
            exact ⟨sep :: front, back, by rw [heq]; rfl, hback⟩
      · rw [hfirst, ih has]
        refine and_congr_right fun hk => ?_
        constructor
        · rintro ⟨hlt, hends⟩
          exact ⟨by simp only [List.length_cons]; omega, hends⟩
        · rintro ⟨hlt, hends⟩
          refine ⟨?_, hends⟩
          by_contra hge
          obtain rfl : k = as.length := by simp only [List.length_cons] at hlt; omega
          exact hsep ⟨List.ne_nil_of_length_pos hk, hends⟩

end SpendingTracker.Lib
