import Mathlib.Computability.RegularExpressions
import Mathlib.Data.List.DropRight

/-!
# Regular patterns

The constructs of pattern languages that are not among the constructors of a regular expression:
a character class, one or more repetitions, and a bounded number of repetitions.  For repetitions
of a character class it is said what they match, without splitting the text.

A pattern with a literal separator splits a text in two.  If one of the two sides cannot contain
the separator, the split is the one at its first or its last occurrence.
-/

namespace SpendingTracker.Lib

open RegularExpression

variable {α : Type*}

/-! ### Constructs of patterns -/

/-- One character out of a class. -/
def charClass (cs : List α) : RegularExpression α := (cs.map char).sum

/-- The characters from `first` to `last`. -/
def charRange (first last : Char) : List Char :=
  (List.range' first.toNat (last.toNat + 1 - first.toNat)).map Char.ofNat

/-- One repetition or more. -/
def oneOrMore (P : RegularExpression α) : RegularExpression α := P * star P

/-- At least `m` repetitions and at most `n`. -/
def repetition (P : RegularExpression α) (m n : ℕ) : RegularExpression α :=
  ((List.range' m (n + 1 - m)).map fun k => P ^ k).sum

/-- A range that ends below the surrogates contains what lies between its ends. -/
lemma mem_charRange {first last c : Char} (h : last.toNat < 0xd800) :
    c ∈ charRange first last ↔ first.toNat ≤ c.toNat ∧ c.toNat ≤ last.toNat := by
  simp only [charRange, List.mem_map, List.mem_range'_1]
  constructor
  · rintro ⟨n, ⟨hlow, hhigh⟩, rfl⟩
    have hvalid : n.isValidChar := Or.inl (by omega)
    have htoNat : (Char.ofNat n).toNat = n := by
      rw [Char.ofNat, dif_pos hvalid]
      rfl
    omega
  · rintro ⟨hlow, hhigh⟩
    exact ⟨c.toNat, ⟨hlow, by omega⟩, Char.ofNat_toNat c⟩

section Matching

variable [DecidableEq α] {P : RegularExpression α} {cs x : List α}

lemma sum_rmatch_iff {Ps : List (RegularExpression α)} :
    Ps.sum.rmatch x ↔ ∃ P ∈ Ps, P.rmatch x := by
  induction Ps with
  | nil => simp
  | cons P Ps ih => rw [List.sum_cons, add_rmatch_iff, ih, List.exists_mem_cons_iff]

lemma charClass_rmatch_iff : (charClass cs).rmatch x ↔ ∃ c ∈ cs, x = [c] := by
  simp only [charClass, sum_rmatch_iff, List.mem_map, exists_exists_and_eq_and, char_rmatch_iff]

lemma pow_succ_rmatch_iff {n : ℕ} :
    (P ^ (n + 1)).rmatch x ↔ ∃ t u, x = t ++ u ∧ (P ^ n).rmatch t ∧ P.rmatch u :=
  mul_rmatch_iff _ _ _

/-- Repetitions of a class match the texts of that length over the class. -/
lemma charClass_pow_rmatch_iff {n : ℕ} :
    (charClass cs ^ n).rmatch x ↔ x.length = n ∧ ∀ c ∈ x, c ∈ cs := by
  induction n generalizing x with
  | zero =>
      rw [show charClass cs ^ 0 = 1 from rfl, one_rmatch_iff, List.length_eq_zero_iff]
      exact ⟨fun h => ⟨h, by simp [h]⟩, And.left⟩
  | succ n ih =>
      simp only [pow_succ_rmatch_iff, ih, charClass_rmatch_iff]
      constructor
      · rintro ⟨t, _, rfl, ⟨rfl, ht⟩, c, hc, rfl⟩
        refine ⟨by simp, fun d hd => ?_⟩
        rcases List.mem_append.mp hd with hd | hd
        · exact ht d hd
        · exact List.mem_singleton.mp hd ▸ hc
      · rintro ⟨hlen, hx⟩
        have hne : x ≠ [] := List.ne_nil_of_length_eq_add_one hlen
        have hinit : x.dropLast.length = n := by
          rw [List.length_dropLast]
          omega
        exact ⟨x.dropLast, [x.getLast hne], (List.dropLast_concat_getLast hne).symm,
          ⟨hinit, fun c hc => hx c (List.mem_of_mem_dropLast hc)⟩, _,
          hx _ (List.getLast_mem hne), rfl⟩

lemma star_charClass_rmatch_iff : (star (charClass cs)).rmatch x ↔ ∀ c ∈ x, c ∈ cs := by
  simp only [star_rmatch_iff, charClass_rmatch_iff]
  constructor
  · rintro ⟨S, rfl, hS⟩ c hc
    obtain ⟨t, ht, hct⟩ := List.mem_flatten.mp hc
    obtain ⟨-, d, hd, rfl⟩ := hS t ht
    exact List.mem_singleton.mp hct ▸ hd
  · intro hx
    refine ⟨x.map fun c => [c], by simp [← List.flatMap_def], fun t ht => ?_⟩
    obtain ⟨c, hc, rfl⟩ := List.mem_map.mp ht
    exact ⟨List.cons_ne_nil _ _, c, hx c hc, rfl⟩

/-- One or more characters of a class. -/
lemma oneOrMore_charClass_rmatch_iff :
    (oneOrMore (charClass cs)).rmatch x ↔ x ≠ [] ∧ ∀ c ∈ x, c ∈ cs := by
  simp only [oneOrMore, mul_rmatch_iff, charClass_rmatch_iff, star_charClass_rmatch_iff]
  constructor
  · rintro ⟨_, u, rfl, ⟨c, hc, rfl⟩, hu⟩
    exact ⟨List.cons_ne_nil _ _, List.forall_mem_cons.mpr ⟨hc, hu⟩⟩
  · rintro ⟨hne, hx⟩
    obtain ⟨c, u, rfl⟩ := List.exists_cons_of_ne_nil hne
    obtain ⟨hc, hu⟩ := List.forall_mem_cons.mp hx
    exact ⟨[c], u, rfl, ⟨c, hc, rfl⟩, hu⟩

/-- A bounded number of characters of a class. -/
lemma repetition_charClass_rmatch_iff {m n : ℕ} :
    (repetition (charClass cs) m n).rmatch x ↔
      m ≤ x.length ∧ x.length ≤ n ∧ ∀ c ∈ x, c ∈ cs := by
  simp only [repetition, sum_rmatch_iff, List.mem_map, exists_exists_and_eq_and,
    charClass_pow_rmatch_iff, List.mem_range'_1]
  constructor
  · rintro ⟨k, ⟨hm, hn⟩, rfl, hx⟩
    exact ⟨hm, by omega, hx⟩
  · rintro ⟨hm, hn, hx⟩
    exact ⟨x.length, ⟨hm, by omega⟩, rfl, hx⟩

end Matching

/-! ### Splitting at a separator -/

section Splitting

variable [DecidableEq α] {x : α} {s l r : List α}

/-- What stands before the first occurrence of `x`. -/
def beforeFirst (x : α) (s : List α) : List α := s.takeWhile (· ≠ x)

/-- What stands after the first occurrence of `x`. -/
def afterFirst (x : α) (s : List α) : List α := (s.dropWhile (· ≠ x)).tail

/-- What stands before the last occurrence of `x`. -/
def beforeLast (x : α) (s : List α) : List α := (s.rdropWhile (· ≠ x)).dropLast

/-- What stands after the last occurrence of `x`. -/
def afterLast (x : α) (s : List α) : List α := s.rtakeWhile (· ≠ x)

/-- A text is split at the first occurrence of `x` exactly if the front does not contain `x`. -/
lemma eq_append_cons_iff_first (hl : x ∉ l) :
    s = l ++ x :: r ↔ x ∈ s ∧ beforeFirst x s = l ∧ afterFirst x s = r := by
  constructor
  · rintro rfl
    have hpos : ∀ a ∈ l, decide (a ≠ x) = true := fun a ha =>
      decide_eq_true fun h => hl (h ▸ ha)
    refine ⟨by simp, ?_, ?_⟩
    · rw [beforeFirst, List.takeWhile_append_of_pos hpos, List.takeWhile_cons_of_neg (by simp),
        List.append_nil]
    · rw [afterFirst, List.dropWhile_append_of_pos hpos, List.dropWhile_cons_of_neg (by simp)]
      rfl
  · rintro ⟨hx, rfl, rfl⟩
    have hne : s.dropWhile (· ≠ x) ≠ [] := by
      rw [ne_eq, List.dropWhile_eq_nil_iff]
      intro h
      simpa using h x hx
    have hhead : (s.dropWhile (· ≠ x)).head hne = x := by
      simpa using List.head_dropWhile_not (fun a => decide (a ≠ x)) hne
    calc s = s.takeWhile (· ≠ x) ++ s.dropWhile (· ≠ x) := List.takeWhile_append_dropWhile.symm
      _ = s.takeWhile (· ≠ x) ++ x :: (s.dropWhile (· ≠ x)).tail := by
        conv_lhs => rw [← List.cons_head_tail hne, hhead]

/-- A text is split at the last occurrence of `x` exactly if the rest does not contain `x`. -/
lemma eq_append_cons_iff_last (hr : x ∉ r) :
    s = l ++ x :: r ↔ x ∈ s ∧ beforeLast x s = l ∧ afterLast x s = r := by
  -- read from the right, the last occurrence is the first one
  have hsplit : s = l ++ x :: r ↔ s.reverse = r.reverse ++ x :: l.reverse := by
    rw [← List.reverse_inj]
    simp
  have hbefore : beforeLast x s = (afterFirst x s.reverse).reverse := by
    rw [beforeLast, List.rdropWhile, afterFirst, List.dropLast_reverse]
  rw [hsplit, eq_append_cons_iff_first (by simpa using hr), List.mem_reverse, hbefore, afterLast,
    List.rtakeWhile, ← beforeFirst, @List.reverse_eq_iff _ (afterFirst x s.reverse),
    @List.reverse_eq_iff _ (beforeFirst x s.reverse)]
  exact and_congr_right fun _ => and_comm

end Splitting

end SpendingTracker.Lib
