import Mathlib.Data.List.Basic

/-!
# Objects with identity

The objects of a language with reference types, as a store of cells: a reference is the
position of a cell, reading a reference yields the object's current contents, and writing
through one reference is seen by everybody who holds the same reference.  Cells are never
reclaimed, so that a reference held by a pending callback stays meaningful.
-/

namespace SpendingTracker.Lib

/-- A reference to an object. -/
abbrev Ref := ℕ

/-- The objects that have been created, in the order of their creation. -/
structure Heap (α : Type*) where
  /-- The current contents of the objects. -/
  cells : List α
deriving DecidableEq, Repr

namespace Heap

variable {α : Type*} {h : Heap α} {r x : Ref} {a : α} {as : List α}

/-- The number of objects created so far. -/
def size (h : Heap α) : ℕ := h.cells.length

/-- The current contents of the object `r`. -/
def read [Inhabited α] (h : Heap α) (r : Ref) : α := (h.cells[r]?).getD default

/-- Overwrite the contents of the object `r`. -/
def write (h : Heap α) (r : Ref) (a : α) : Heap α := ⟨h.cells.set r a⟩

/-- Create one object for each element of `as`. -/
def create (h : Heap α) (as : List α) : Heap α := ⟨h.cells ++ as⟩

/-- The references to the objects that `create` makes. -/
def created (h : Heap α) (as : List α) : List Ref := List.range' h.size as.length

@[simp] lemma size_write : (h.write r a).size = h.size := by
  simp [write, size]

@[simp] lemma size_create : (h.create as).size = h.size + as.length := by
  simp [create, size]

lemma mem_created : r ∈ h.created as ↔ h.size ≤ r ∧ r < h.size + as.length := by
  simp [created, List.mem_range'_1]

@[simp] lemma length_created : (h.created as).length = as.length := by
  simp [created]

variable [Inhabited α]

lemma read_write_self (hr : r < h.size) : (h.write r a).read r = a := by
  simp only [size] at hr
  simp [read, write, hr]

lemma read_write_of_ne (hx : x ≠ r) : (h.write r a).read x = h.read x := by
  simp only [read, write, List.getElem?_set_ne (Ne.symm hx)]

lemma read_write (hr : r < h.size) : (h.write r a).read x = if x = r then a else h.read x := by
  split_ifs with hx
  · rw [hx, read_write_self hr]
  · exact read_write_of_ne hx

/-- Creating objects leaves the existing ones alone. -/
lemma read_create_of_lt (hr : r < h.size) : (h.create as).read r = h.read r := by
  simp only [size] at hr
  simp only [read, create, List.getElem?_append_left hr]

/-- The new objects have the contents they are created with, in order. -/
@[simp] lemma map_read_created (h : Heap α) (as : List α) :
    (h.created as).map (h.create as).read = as := by
  apply List.ext_getElem
  · simp
  · intro i hi hi'
    have hlen : h.cells.length ≤ h.cells.length + i := by omega
    simp only [created, List.getElem_map, List.getElem_range', Nat.one_mul, read, create, size,
      List.getElem?_append_right hlen, Nat.add_sub_cancel_left]
    rw [List.getElem?_eq_getElem hi', Option.getD_some]

lemma read_mem_of_mem_created (hr : r ∈ h.created as) : (h.create as).read r ∈ as := by
  have hmem : (h.create as).read r ∈ (h.created as).map (h.create as).read :=
    List.mem_map_of_mem hr
  rwa [map_read_created] at hmem

/-- Reading past the last object yields the default contents. -/
lemma read_of_size_le (hr : h.size ≤ r) : h.read r = default := by
  simp only [size] at hr
  simp [read, hr]

lemma read_mem (hr : r < h.size) : h.read r ∈ h.cells := by
  simp only [size] at hr
  simp [read, hr]

end Heap

end SpendingTracker.Lib
