import Mathlib.Algebra.BigOperators.Group.List.Basic
import Mathlib.Data.List.AList
import Mathlib.Tactic.Ring

/-!
# Ordered finite maps

A finite map whose entries stay in the order in which their keys have come in: a new key goes to
the end, and an entry that is replaced keeps its place.  These are the association lists with
distinct keys; this file says what the three changes do to the list of entries and to a sum over
the entries.
-/

namespace SpendingTracker.Lib

/-- A finite map from `κ` to `ν` with an order of its entries. -/
abbrev OrderedMap (κ ν : Type*) := AList fun _ : κ => ν

namespace OrderedMap

variable {κ ν : Type*} {m : OrderedMap κ ν} {x : κ} {a b : ν}
  {front back : List (Sigma fun _ : κ => ν)}

/-- The sum of `f` over the values. -/
def total (f : ν → ℤ) (m : OrderedMap κ ν) : ℤ := (m.entries.map fun p => f p.2).sum

/-- The keys of the other entries are different. -/
lemma ne_of_entries_eq (h : m.entries = front ++ ⟨x, a⟩ :: back) :
    (∀ p ∈ front, p.1 ≠ x) ∧ ∀ p ∈ back, p.1 ≠ x := by
  have hnodup := m.keys_nodup
  rw [AList.keys, h, List.keys, List.map_append, List.map_cons, List.nodup_middle,
    List.nodup_cons] at hnodup
  constructor
  · rintro p hp rfl
    exact hnodup.1 (List.mem_append_left _ (List.mem_map.mpr ⟨p, hp, rfl⟩))
  · rintro p hp rfl
    exact hnodup.1 (List.mem_append_right _ (List.mem_map.mpr ⟨p, hp, rfl⟩))

variable [DecidableEq κ]

/-- The map with a new entry at the end. -/
def append (m : OrderedMap κ ν) (x : κ) (a : ν) : OrderedMap κ ν := m ∪ AList.singleton x a

/-! ### The entries -/

lemma entries_append (hx : x ∉ m) : (append m x a).entries = m.entries ++ [⟨x, a⟩] := by
  have key : ∀ l : List (Sigma fun _ : κ => ν), x ∉ l.keys →
      l.kunion [⟨x, a⟩] = l ++ [⟨x, a⟩] := by
    intro l
    induction l with
    | nil => simp
    | cons p l ih =>
        intro hl
        rw [List.keys_cons, List.mem_cons, not_or] at hl
        rw [List.kunion_cons, List.kerase_cons_ne (Ne.symm hl.1), List.kerase_nil, ih hl.2]
        rfl
  exact key m.entries hx

/-- Where the entry of a key stands. -/
lemma exists_entries_eq (h : m.lookup x = some a) :
    ∃ front back, m.entries = front ++ ⟨x, a⟩ :: back := by
  have hmem : (⟨x, a⟩ : Sigma fun _ : κ => ν) ∈ m.entries := AList.mem_lookup_iff.mp h
  exact List.append_of_mem hmem

lemma entries_replace (h : m.entries = front ++ ⟨x, a⟩ :: back) :
    (m.replace x b).entries = front ++ ⟨x, b⟩ :: back := by
  have key : ∀ l : List (Sigma fun _ : κ => ν), (∀ p ∈ l, p.1 ≠ x) →
      (l ++ ⟨x, a⟩ :: back).kreplace x b = l ++ ⟨x, b⟩ :: back := by
    intro l
    induction l with
    | nil => simp [List.kreplace]
    | cons p l ih =>
        intro hl
        obtain ⟨hp, hl⟩ := List.forall_mem_cons.mp hl
        have hrest := ih hl
        simp only [List.kreplace] at hrest
        simp [List.kreplace, Ne.symm hp, hrest]
  exact (congrArg (List.kreplace x b) h).trans (key front (ne_of_entries_eq h).1)

lemma replace_of_notMem (hx : x ∉ m) : m.replace x b = m := by
  have hentries : m.entries.kreplace x b = m.entries :=
    List.kreplace_of_forall_not (β := fun _ => ν) x b fun c hc => hx (List.mem_keys_of_mem hc)
  exact AList.ext hentries

lemma erase_of_notMem (hx : x ∉ m) : m.erase x = m := AList.ext (List.kerase_of_notMem_keys hx)

lemma entries_erase : (m.erase x).entries = m.entries.filter fun p => p.1 ≠ x := by
  have key : ∀ l : List (Sigma fun _ : κ => ν), l.NodupKeys →
      l.kerase x = l.filter fun p => p.1 ≠ x := by
    intro l
    induction l with
    | nil => simp
    | cons p l ih =>
        intro hl
        obtain ⟨hp, hl⟩ := List.nodupKeys_cons.mp hl
        by_cases hx : x = p.1
        -- no later entry has the key
        · have hrest : ∀ q ∈ l, decide (q.1 ≠ x) = true := fun q hq =>
            decide_eq_true fun h => hp (hx ▸ h ▸ List.mem_map.mpr ⟨q, hq, rfl⟩)
          rw [List.kerase_cons_eq hx, List.filter_cons_of_neg (by simp [hx]),
            List.filter_eq_self.mpr hrest]
        · rw [List.kerase_cons_ne hx, ih hl, List.filter_cons_of_pos (by simp [Ne.symm hx])]
  exact key m.entries m.nodupKeys

/-! ### Sums over the entries -/

variable {f : ν → ℤ}

lemma total_append (hx : x ∉ m) : total f (append m x a) = total f m + f a := by
  simp [total, entries_append hx]

lemma total_replace (h : m.lookup x = some a) :
    total f (m.replace x b) = total f m + (f b - f a) := by
  obtain ⟨front, back, hentries⟩ := exists_entries_eq h
  simp only [total, entries_replace hentries, hentries, List.map_append, List.map_cons,
    List.sum_append, List.sum_cons]
  ring

lemma total_erase (h : m.lookup x = some a) : total f (m.erase x) = total f m - f a := by
  obtain ⟨front, back, hentries⟩ := exists_entries_eq h
  obtain ⟨hfront, hback⟩ := ne_of_entries_eq hentries
  have hrest : (m.erase x).entries = front ++ back := by
    rw [entries_erase, hentries, List.filter_append, List.filter_cons_of_neg (by simp),
      List.filter_eq_self.mpr fun p hp => decide_eq_true (hfront p hp),
      List.filter_eq_self.mpr fun p hp => decide_eq_true (hback p hp)]
  simp only [total, hrest, hentries, List.map_append, List.map_cons, List.sum_append,
    List.sum_cons]
  ring

end OrderedMap

end SpendingTracker.Lib
