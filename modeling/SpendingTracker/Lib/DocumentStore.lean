import Mathlib.Data.Finmap
import Mathlib.Data.List.Perm.Basic

/-!
# A store of documents

A document database holds collections of documents; a document is a finite map from field
names to values together with an identifier that is unique in its collection.  A client adds
documents, overwrites some fields of a document, deletes a document, and asks for the
documents that carry a given value in a given field.

The order of the list of documents carries no meaning: what a query returns is compared up to
permutation by its users.
-/

namespace SpendingTracker.Lib

variable {κ φ ν : Type*}

/-- A document: its identifier and its fields. -/
structure Document (κ φ ν : Type*) where
  /-- The identifier of the document in its collection. -/
  documentID : κ
  /-- The fields of the document. -/
  data : Finmap fun _ : φ => ν
deriving DecidableEq

namespace Document

variable [DecidableEq φ] {d : Document κ φ ν} {upd : Finmap fun _ : φ => ν} {k : φ}

/-- The document with the fields of `upd` overwritten and all its other fields kept. -/
def overwrite (d : Document κ φ ν) (upd : Finmap fun _ : φ => ν) : Document κ φ ν :=
  { d with data := upd ∪ d.data }

@[simp] lemma documentID_overwrite : (d.overwrite upd).documentID = d.documentID := rfl

lemma lookup_overwrite_of_mem (hk : k ∈ upd) :
    (d.overwrite upd).data.lookup k = upd.lookup k :=
  Finmap.lookup_union_left hk

lemma lookup_overwrite_of_notMem (hk : k ∉ upd) :
    (d.overwrite upd).data.lookup k = d.data.lookup k :=
  Finmap.lookup_union_right hk

/-- Overwriting twice with the same fields is overwriting once. -/
@[simp] lemma overwrite_overwrite : (d.overwrite upd).overwrite upd = d.overwrite upd := by
  have h : upd ∪ (upd ∪ d.data) = upd ∪ d.data := by
    refine Finmap.ext_lookup fun k => ?_
    by_cases hk : k ∈ upd
    · rw [Finmap.lookup_union_left hk, Finmap.lookup_union_left hk]
    · rw [Finmap.lookup_union_right hk]
  simp [overwrite, h]

end Document

/-- A collection of documents with pairwise distinct identifiers. -/
@[ext]
structure Collection (κ φ ν : Type*) where
  /-- The documents, in no particular order. -/
  documents : List (Document κ φ ν)
  /-- No two documents share an identifier. -/
  nodup : (documents.map Document.documentID).Nodup

namespace Collection

variable {c : Collection κ φ ν} {d d' : Document κ φ ν} {i : κ} {is : List κ}
  {data upd : Finmap fun _ : φ => ν}

instance [DecidableEq κ] [DecidableEq φ] [DecidableEq ν] : DecidableEq (Collection κ φ ν) :=
  fun _ _ => decidable_of_iff _ Collection.ext_iff.symm

/-- The identifiers in use. -/
def ids (c : Collection κ φ ν) : List κ := c.documents.map Document.documentID

/-- Two documents of a collection with the same identifier are the same document. -/
lemma eq_of_documentID (hd : d ∈ c.documents) (hd' : d' ∈ c.documents)
    (h : d.documentID = d'.documentID) : d = d' :=
  List.inj_on_of_nodup_map c.nodup hd hd' h

lemma documents_nodup : c.documents.Nodup := List.Nodup.of_map _ c.nodup

/-- The empty collection. -/
def empty : Collection κ φ ν := ⟨[], List.nodup_nil⟩

/-- The documents whose field `k` holds the value `v`. -/
def whereField [DecidableEq φ] [DecidableEq ν] (c : Collection κ φ ν) (k : φ) (v : ν) :
    List (Document κ φ ν) :=
  c.documents.filter fun d => d.data.lookup k = some v

lemma mem_whereField [DecidableEq φ] [DecidableEq ν] {k : φ} {v : ν} :
    d ∈ c.whereField k v ↔ d ∈ c.documents ∧ d.data.lookup k = some v := by
  simp [whereField]

/-! ### Adding -/

variable [DecidableEq κ]

/-- Add a document under a generated identifier.  A generated identifier is a new one; the
first branch only keeps the function total. -/
def addDocument (c : Collection κ φ ν) (i : κ) (data : Finmap fun _ : φ => ν) :
    Collection κ φ ν :=
  if h : i ∈ c.ids then c
  else
    { documents := c.documents ++ [⟨i, data⟩]
      nodup := by
        rw [List.map_append]
        exact List.nodup_append.mpr ⟨c.nodup, by simp, by
          rintro a ha b hb rfl
          simp only [List.map_cons, List.map_nil, List.mem_singleton] at hb
          exact h (hb ▸ ha)⟩ }

lemma documents_addDocument (hi : i ∉ c.ids) :
    (c.addDocument i data).documents = c.documents ++ [⟨i, data⟩] := by
  simp [addDocument, hi]

/-- Add several documents, one after the other. -/
def addAll (c : Collection κ φ ν) (ds : List (Document κ φ ν)) : Collection κ φ ν :=
  ds.foldl (fun c d => c.addDocument d.documentID d.data) c

lemma documents_addAll {ds : List (Document κ φ ν)}
    (hnew : ∀ d ∈ ds, d.documentID ∉ c.ids) (hnodup : (ds.map Document.documentID).Nodup) :
    (c.addAll ds).documents = c.documents ++ ds := by
  induction ds generalizing c with
  | nil => simp [addAll]
  | cons d ds ih =>
      rw [List.map_cons, List.nodup_cons] at hnodup
      have hd : d.documentID ∉ c.ids := hnew d (by simp)
      have hdocs : (c.addDocument d.documentID d.data).documents = c.documents ++ [d] :=
        documents_addDocument hd
      have hrest : ∀ e ∈ ds, e.documentID ∉ (c.addDocument d.documentID d.data).ids := by
        intro e he hmem
        rw [ids, hdocs, List.map_append, List.mem_append] at hmem
        rcases hmem with hmem | hmem
        · exact hnew e (by simp [he]) hmem
        · simp only [List.map_cons, List.map_nil, List.mem_singleton] at hmem
          exact hnodup.1 (hmem ▸ List.mem_map_of_mem he)
      have := ih hrest hnodup.2
      rw [addAll, List.foldl_cons, ← addAll, this, hdocs]
      simp

/-! ### Overwriting fields -/

section Overwriting

variable [DecidableEq φ]

/-- Overwrite fields of the document `i`; nothing happens if there is no such document. -/
def updateData (c : Collection κ φ ν) (i : κ) (upd : Finmap fun _ : φ => ν) :
    Collection κ φ ν where
  documents := c.documents.map fun d => if d.documentID = i then d.overwrite upd else d
  nodup := by
    have h : (Document.documentID ∘ fun d : Document κ φ ν =>
        if d.documentID = i then d.overwrite upd else d) = Document.documentID := by
      funext d
      by_cases hd : d.documentID = i <;> simp [hd]
    rw [List.map_map, h]
    exact c.nodup

/-- Overwrite the same fields of several documents, one after the other. -/
def updateAll (c : Collection κ φ ν) (is : List κ) (upd : Finmap fun _ : φ => ν) :
    Collection κ φ ν :=
  is.foldl (fun c i => c.updateData i upd) c

lemma documents_updateAll : (c.updateAll is upd).documents =
    c.documents.map fun d => if d.documentID ∈ is then d.overwrite upd else d := by
  induction is generalizing c with
  | nil => simp [updateAll]
  | cons i is ih =>
      rw [updateAll, List.foldl_cons, ← updateAll, ih, updateData, List.map_map]
      congr 1
      funext d
      by_cases hd : d.documentID = i <;> by_cases hd' : d.documentID ∈ is <;> simp_all

lemma mem_updateAll : d ∈ (c.updateAll is upd).documents ↔
    ∃ e ∈ c.documents, (if e.documentID ∈ is then e.overwrite upd else e) = d := by
  rw [documents_updateAll, List.mem_map]

end Overwriting

/-! ### Deleting -/

/-- Delete the document `i`; nothing happens if there is no such document. -/
def delete (c : Collection κ φ ν) (i : κ) : Collection κ φ ν where
  documents := c.documents.filter fun d => d.documentID ≠ i
  nodup := (List.filter_sublist.map _).nodup c.nodup

/-- Delete several documents, one after the other. -/
def deleteAll (c : Collection κ φ ν) (is : List κ) : Collection κ φ ν :=
  is.foldl delete c

lemma documents_deleteAll : (c.deleteAll is).documents =
    c.documents.filter fun d => d.documentID ∉ is := by
  induction is generalizing c with
  | nil => simp [deleteAll]
  | cons i is ih =>
      rw [deleteAll, List.foldl_cons, ← deleteAll, ih, delete, List.filter_filter]
      congr 1
      funext d
      simp only [List.mem_cons, not_or, ← Bool.decide_and, and_comm]

lemma mem_deleteAll : d ∈ (c.deleteAll is).documents ↔ d ∈ c.documents ∧ d.documentID ∉ is := by
  simp [documents_deleteAll]

end Collection

end SpendingTracker.Lib
