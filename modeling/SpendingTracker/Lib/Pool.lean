import Mathlib.Data.List.Nodup

/-!
# Lists as pools of items

The items of a pool are addressed by their position.  Taking out or replacing one item leaves
every other item where it can be found.
-/

namespace SpendingTracker.Lib

variable {α : Type*} {l : List α} {a b : α} {i : ℕ}

/-- An item of the pool is still there after the item at `i` has been taken out, or it is that
item. -/
lemma mem_eraseIdx_or_eq (ha : a ∈ l) (hi : l[i]? = some b) : a ∈ l.eraseIdx i ∨ a = b := by
  obtain ⟨j, hj, rfl⟩ := List.mem_iff_getElem.mp ha
  by_cases hij : j = i
  · subst hij
    rw [List.getElem?_eq_getElem hj, Option.some.injEq] at hi
    exact Or.inr hi
  · exact Or.inl (List.mem_eraseIdx_iff_getElem.mpr ⟨j, hj, hij, rfl⟩)

/-- An item of the pool is still there after the item at `i` has been replaced, or it is the
item replaced. -/
lemma mem_set_or_eq (ha : a ∈ l) (hi : l[i]? = some b) (c : α) : a ∈ l.set i c ∨ a = b := by
  obtain ⟨j, hj, rfl⟩ := List.mem_iff_getElem.mp ha
  by_cases hij : j = i
  · subst hij
    rw [List.getElem?_eq_getElem hj, Option.some.injEq] at hi
    exact Or.inr hi
  · refine Or.inl (List.mem_iff_getElem.mpr ⟨j, by simpa using hj, ?_⟩)
    rw [List.getElem_set_ne (Ne.symm hij)]

/-- The replacement is in the pool. -/
lemma mem_set_self (hi : l[i]? = some b) (c : α) : c ∈ l.set i c := by
  obtain ⟨h, -⟩ := List.getElem?_eq_some_iff.mp hi
  exact List.mem_set h c

/-- The pool around the item at `i`, and what becomes of it when the item is taken out or
replaced. -/
lemma exists_append_of_getElem? (hi : l[i]? = some b) : ∃ front back, l = front ++ b :: back ∧
    l.eraseIdx i = front ++ back ∧ ∀ c, l.set i c = front ++ c :: back := by
  obtain ⟨hlt, rfl⟩ := List.getElem?_eq_some_iff.mp hi
  refine ⟨l.take i, l.drop (i + 1), ?_, List.eraseIdx_eq_take_drop_succ l i, fun c => ?_⟩
  · rw [← List.drop_eq_getElem_cons hlt, List.take_append_drop]
  · rw [List.set_eq_take_append_cons_drop, if_pos hlt]

/-- The first item that meets `p` comes after items that do not meet it. -/
lemma findIdx?_eq_some_iff_append {p : α → Bool} :
    l.findIdx? p = some i ↔ ∃ front x back, l = front ++ x :: back ∧
      (∀ y ∈ front, p y = false) ∧ p x = true ∧ front.length = i := by
  constructor
  · intro h
    obtain ⟨hlt, hx, hbefore⟩ := List.findIdx?_eq_some_iff_getElem.mp h
    have hsplit : l = l.take i ++ l[i] :: l.drop (i + 1) := by
      rw [← List.drop_eq_getElem_cons hlt, List.take_append_drop]
    refine ⟨l.take i, l[i], l.drop (i + 1), hsplit, fun y hy => ?_, hx, by simp; omega⟩
    obtain ⟨j, hj, rfl⟩ := List.mem_iff_getElem.mp hy
    rw [List.length_take] at hj
    rw [List.getElem_take]
    simpa using hbefore j (by omega)
  · rintro ⟨front, x, back, rfl, hfront, hx, rfl⟩
    rw [List.findIdx?_append, List.findIdx?_eq_none_iff.mpr hfront]
    simp [List.findIdx?_cons, hx]

/-- When the item at `i` is the only one with a property, taking it out is dropping the items
with the property. -/
lemma eraseIdx_eq_filter_of_unique {q : α → Prop} [DecidablePred q] (hi : l[i]? = some a)
    (ha : q a) (h : ∀ j b, l[j]? = some b → q b → j = i) :
    l.eraseIdx i = l.filter fun x => ¬ q x := by
  obtain ⟨hlt, rfl⟩ := List.getElem?_eq_some_iff.mp hi
  have hsplit : l = l.take i ++ l[i] :: l.drop (i + 1) := by
    rw [← List.drop_eq_getElem_cons hlt, List.take_append_drop]
  have hother : ∀ j b, l[j]? = some b → j ≠ i → decide (¬ q b) = true := fun j b hj hne =>
    decide_eq_true fun hq => hne (h j b hj hq)
  have hfront : ∀ x ∈ l.take i, decide (¬ q x) = true := by
    intro x hx
    obtain ⟨j, hj, rfl⟩ := List.mem_iff_getElem.mp hx
    rw [List.length_take] at hj
    rw [List.getElem_take]
    exact hother j _ (List.getElem?_eq_getElem (by omega)) (by omega)
  have hback : ∀ x ∈ l.drop (i + 1), decide (¬ q x) = true := by
    intro x hx
    obtain ⟨j, hj, rfl⟩ := List.mem_iff_getElem.mp hx
    rw [List.length_drop] at hj
    rw [List.getElem_drop]
    exact hother (i + 1 + j) _ (List.getElem?_eq_getElem (by omega)) (by omega)
  conv_rhs => rw [hsplit]
  rw [List.filter_append, List.filter_cons_of_neg (by simpa using ha),
    List.filter_eq_self.mpr hfront, List.filter_eq_self.mpr hback,
    List.eraseIdx_eq_take_drop_succ]

/-- When the items have distinct keys, taking out the item at `i` is dropping the items with its
key. -/
lemma eraseIdx_eq_filter {κ : Type*} [DecidableEq κ] {f : α → κ} (hl : (l.map f).Nodup)
    (hi : l[i]? = some a) : l.eraseIdx i = l.filter fun x => f x ≠ f a := by
  refine eraseIdx_eq_filter_of_unique (q := fun x => f x = f a) hi rfl fun j b hj heq => ?_
  have hkeys : (l.map f)[j]? = (l.map f)[i]? := by
    rw [List.getElem?_map, List.getElem?_map, hj, hi, Option.map_some, Option.map_some, heq]
  obtain ⟨hlt, -⟩ := List.getElem?_eq_some_iff.mp hj
  exact (List.getElem?_inj (by simpa using hlt) hl).mp hkeys

/-- Changing the value of one item changes one value. -/
lemma map_ite_eq_set {β : Type*} [DecidableEq α] (hl : l.Nodup) (hi : l[i]? = some a) (f : α → β)
    (c : β) : (l.map fun x => if x = a then c else f x) = (l.map f).set i c := by
  obtain ⟨hlt, rfl⟩ := List.getElem?_eq_some_iff.mp hi
  refine List.ext_getElem (by simp) fun j hj _ => ?_
  rw [List.length_map] at hj
  rw [List.getElem_map, List.getElem_set, List.getElem_map]
  refine if_congr ?_ rfl rfl
  rw [List.Nodup.getElem_inj_iff hl]
  exact eq_comm

end SpendingTracker.Lib
