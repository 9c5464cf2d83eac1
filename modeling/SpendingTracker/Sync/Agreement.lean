import SpendingTracker.Model.Identity

/-!
# Agreement of the store with the database

The store of a signed-in user is meant to mirror the user's documents.  `Agree` compares the
two as collections of records; when the ids of the store are distinct this is the one-to-one
correspondence by id of `Corresponds`, which is the form the proofs work with.
-/

namespace SpendingTracker

open Lib

/-- The id of a transaction as a document carries it. -/
def storedId (t : Transaction) : Option Value := some (.asAny .string t.id)

lemma storedId_eq_iff {t t' : Transaction} : storedId t = storedId t' ↔ t.id = t'.id := by
  unfold storedId
  rw [Option.some.injEq]
  constructor
  · intro h
    exact Value.asAny_injective (fun a b h => by cases h; rfl) (fun a h => by cases h) h
  · intro h
    rw [h]

lemma storedId_eq_string_iff {t : Transaction} {x : String} :
    storedId t = some (.string x) ↔ t.id = some x := by
  unfold storedId
  cases t.id <;> simp [Value.asAny]

lemma docId_eq_of_record [FIRTimestamp] {d : Doc} {t : Transaction}
    (h : recordOf d.data = t.record) : docId d = storedId t := congrArg Record.id h

lemma loadedId_of_docId_eq {d : Doc} {t : Transaction} (h : docId d = storedId t) :
    loadedId d = t.id := by
  rw [loadedId, h, storedId, Option.bind_some, Value.asString_asAny]

lemma loadedId_record [FIRTimestamp] (t : Transaction) :
    t.record.id.bind Value.asString = t.id := Value.asString_asAny t.id

/-- Overwriting the four updated fields of a document of the transaction `t` stores the
record of `t`. -/
lemma recordOf_overwrite [FIRTimestamp] {d : Doc} {t : Transaction} (h : docId d = storedId t) :
    recordOf (d.overwrite t.updateData).data = t.record := by
  ext1
  · exact ((sameDocument_overwrite d t).id.symm).trans h
  all_goals exact Document.lookup_overwrite_of_mem (by rw [Transaction.mem_updateData]; decide)

namespace App

variable {u : String} {s : App}

/-- The ids in the store are present and pairwise distinct. -/
structure IdsDistinct (s : App) : Prop where
  present : ∀ r ∈ s.shared, (s.transaction r).id ≠ none
  nodup : (s.shared.map fun r => (s.transaction r).id).Nodup

namespace IdsDistinct

lemma eq_of_id (h : s.IdsDistinct) {r r' : Ref} (hr : r ∈ s.shared) (hr' : r' ∈ s.shared)
    (hid : (s.transaction r).id = (s.transaction r').id) : r = r' :=
  List.inj_on_of_nodup_map h.nodup hr hr' hid

/-- An object with an id has been created. -/
lemma lt_size_of_id {r : Ref} (h : (s.transaction r).id ≠ none) : r < s.heap.size := by
  by_contra hr
  exact h (congrArg Transaction.id (Heap.read_of_size_le (Nat.le_of_not_lt hr)))

lemma lt_size (h : s.IdsDistinct) {r : Ref} (hr : r ∈ s.shared) : r < s.heap.size :=
  lt_size_of_id (h.present r hr)

end IdsDistinct

/-- New objects carry the ids they are added with. -/
lemma map_id_created (h : Heap Transaction) (ts : List Transaction) :
    (h.created ts).map (fun r => ((h.create ts).read r).id) = ts.map Transaction.id := by
  have hread := congrArg (List.map Transaction.id) (Heap.map_read_created h ts)
  rwa [List.map_map] at hread

section Add

variable {s' : App} {added : List (Transaction × Option String)} {index : Option ℕ}

/-- An addition leaves the objects alone that exist. -/
lemma transaction_step_add [StringEquality] [FIRTimestamp]
    (hs : s.step (.add added index) = some s') {r : Ref}
    (hr : r < s.heap.size) : s'.transaction r = s.transaction r := by
  obtain ⟨-, front, back, -, -, rfl⟩ := step_add_iff.mp hs
  exact Heap.read_create_of_lt hr

lemma subset_step_add [StringEquality] [FIRTimestamp]
    (hs : s.step (.add added index) = some s') : s.shared ⊆ s'.shared := by
  obtain ⟨-, front, back, hshared, -, rfl⟩ := step_add_iff.mp hs
  rw [hshared]
  exact List.append_subset.mpr ⟨fun r hr => by simp [hr], fun r hr => by simp [hr]⟩

/-- An entry of the store after an addition was in it before or is one of the added
transactions. -/
lemma mem_step_add [StringEquality] [FIRTimestamp] (hs : s.step (.add added index) = some s')
    {r : Ref} (hr : r ∈ s'.shared) : r ∈ s.shared ∨ ∃ p ∈ added, s'.transaction r = p.1 := by
  obtain ⟨-, front, back, hshared, -, rfl⟩ := step_add_iff.mp hs
  simp only [List.mem_append] at hr
  rcases hr with (hr | hr) | hr
  · exact Or.inl (by simp [hshared, hr])
  · obtain ⟨p, hp, heq⟩ := List.mem_map.mp (Heap.read_mem_of_mem_created hr)
    exact Or.inr ⟨p, hp, heq.symm⟩
  · exact Or.inl (by simp [hshared, hr])

/-- After an addition the store holds the transactions it held before and the added ones. -/
lemma transactions_step_add [StringEquality] [FIRTimestamp] (hlt : ∀ r ∈ s.shared, r < s.heap.size)
    (hs : s.step (.add added index) = some s') :
    (s'.shared.map s'.transaction).Perm (s.shared.map s.transaction ++ added.map Prod.fst) := by
  have hold : s.shared.map s'.transaction = s.shared.map s.transaction :=
    List.map_congr_left fun r hr => transaction_step_add hs (hlt r hr)
  obtain ⟨-, front, back, hshared, -, rfl⟩ := step_add_iff.mp hs
  rw [← hold, hshared]
  simp only [transaction_eq_read, List.map_append, Heap.map_read_created, List.append_assoc]
  exact List.Perm.append_left _ List.perm_append_comm

/-- Adding transactions with new ids keeps the ids distinct. -/
lemma IdsDistinct.step_add [StringEquality] [FIRTimestamp] (h : s.IdsDistinct)
    (hnodup : (added.map fun p => p.1.id).Nodup)
    (hfresh : ∀ p ∈ added, ∃ x, p.1.id = some x ∧ ¬ s.Uses x)
    (hs : s.step (.add added index) = some s') : s'.IdsDistinct := by
  have hperm : (s'.shared.map fun r => (s'.transaction r).id).Perm
      ((s.shared.map fun r => (s.transaction r).id) ++ added.map fun p => p.1.id) := by
    have := (transactions_step_add (fun r => h.lt_size) hs).map Transaction.id
    simpa only [List.map_append, List.map_map, Function.comp_def] using this
  constructor
  · intro r hr hnone
    rcases mem_step_add hs hr with hold | ⟨p, hp, heq⟩
    · rw [transaction_step_add hs (h.lt_size hold)] at hnone
      exact h.present r hold hnone
    · obtain ⟨x, hx, -⟩ := hfresh p hp
      rw [heq, hx] at hnone
      cases hnone
  · refine hperm.nodup_iff.mpr (List.nodup_append.mpr ⟨h.nodup, hnodup, ?_⟩)
    rintro a ha b hb rfl
    obtain ⟨r, -, heq⟩ := List.mem_map.mp ha
    obtain ⟨p, hp, rfl⟩ := List.mem_map.mp hb
    obtain ⟨x, hx, hxs⟩ := hfresh p hp
    exact hxs (uses_of_transaction (heq.trans hx))

end Add

/-- Deleting keeps the ids distinct. -/
lemma IdsDistinct.filter (h : s.IdsDistinct) {p : Ref → Bool} {requests : List Request} :
    IdsDistinct { s with shared := s.shared.filter p, requests := requests } where
  present r hr := h.present r (List.mem_filter.mp hr).1
  nodup := (List.filter_sublist.map _).nodup h.nodup

/-- Only the ids of the store matter. -/
lemma IdsDistinct.of_map_eq (h : s.IdsDistinct) {s' : App}
    (heq : (s'.shared.map fun r => (s'.transaction r).id) =
      s.shared.map fun r => (s.transaction r).id) : s'.IdsDistinct where
  present r hr hnone := by
    have hmem : none ∈ s.shared.map fun r => (s.transaction r).id :=
      heq ▸ hnone ▸ List.mem_map_of_mem hr
    obtain ⟨x, hx, hid⟩ := List.mem_map.mp hmem
    exact h.present x hx hid
  nodup := heq ▸ h.nodup

/-- Saving an edit of an object of the store changes the object and issues an update. -/
lemma IdsDistinct.step_save [FIRTimestamp] (h : s.IdsDistinct) {s' : App} {r : Ref} {e : Edit}
    (hr : r ∈ s.shared) (hs : s.step (.save r e) = some s') :
    ∃ x, (s.transaction r).id = some x ∧ s' = { s with
      heap := s.heapAfterSave r e
      requests := s.requests ++ [⟨.updateTransactionInDatabase x r, none⟩] } := by
  obtain ⟨-, ⟨hno, -⟩ | ⟨front, y, back, hshared, -, hy, x, hx, rfl⟩⟩ := step_save_iff.mp hs
  · exact absurd ⟨r, hr, rfl⟩ hno
  -- the entry found is the object itself
  · obtain rfl : y = r := h.eq_of_id (by simp [hshared]) hr hy
    exact ⟨x, hx, by rw [← hshared]⟩

/-- Saving keeps the ids distinct. -/
lemma IdsDistinct.heapAfterSave [FIRTimestamp] (h : s.IdsDistinct) {r : Ref} {e : Edit}
    {requests : List Request} :
    IdsDistinct { s with heap := s.heapAfterSave r e, requests := requests } :=
  h.of_map_eq (by simp only [transaction_mk, id_read_heapAfterSave])

/-- The store and the documents of the user `u` agree: they hold the same records, equally
often. -/
def Agree [FIRTimestamp] (u : String) (s : App) : Prop :=
  ((userDocuments u s.collection).map fun d => recordOf d.data).Perm
    (s.shared.map fun r => (s.transaction r).record)

/-- The documents of the user correspond one to one, by id, to the transactions of the store,
and each document carries the encoded fields of its transaction. -/
structure Corresponds [FIRTimestamp] (u : String) (s : App) : Prop where
  distinct : ∀ d ∈ userDocuments u s.collection, ∀ d' ∈ userDocuments u s.collection,
    docId d = docId d' → d = d'
  covered : ∀ r ∈ s.shared, ∃ d ∈ userDocuments u s.collection,
    recordOf d.data = (s.transaction r).record
  matched : ∀ d ∈ userDocuments u s.collection, ∃ r ∈ s.shared,
    recordOf d.data = (s.transaction r).record

/-- With distinct ids in the store, agreement is the correspondence by id. -/
theorem agree_iff_corresponds [FIRTimestamp] (h : s.IdsDistinct) : s.Agree u ↔ s.Corresponds u := by
  have hids : (s.shared.map fun r => storedId (s.transaction r)).Nodup := by
    refine (List.nodup_map_iff_inj_on (List.Nodup.of_map _ h.nodup)).mpr fun r hr r' hr' heq => ?_
    exact h.eq_of_id hr hr' (storedId_eq_iff.mp heq)
  constructor
  · intro hp
    have hids' : ((userDocuments u s.collection).map docId).Nodup := by
      have hp' := hp.map Record.id
      rw [List.map_map, List.map_map] at hp'
      exact hp'.nodup_iff.mpr hids
    refine ⟨fun d hd d' hd' heq => List.inj_on_of_nodup_map hids' hd hd' heq, ?_, ?_⟩
    · intro r hr
      obtain ⟨d, hd, heq⟩ := List.mem_map.mp (hp.mem_iff.mpr (List.mem_map_of_mem hr))
      exact ⟨d, hd, heq⟩
    · intro d hd
      obtain ⟨r, hr, heq⟩ := List.mem_map.mp (hp.mem_iff.mp (List.mem_map_of_mem hd))
      exact ⟨r, hr, heq.symm⟩
  · rintro ⟨hdistinct, hcovered, hmatched⟩
    refine (List.perm_ext_iff_of_nodup ?_ ?_).mpr fun rec => ⟨fun hrec => ?_, fun hrec => ?_⟩
    · refine (List.nodup_map_iff_inj_on (userDocuments_nodup u _)).mpr fun d hd d' hd' heq => ?_
      exact hdistinct d hd d' hd' (congrArg Record.id heq)
    · have hmap : (s.shared.map fun r => storedId (s.transaction r)) =
          (s.shared.map fun r => (s.transaction r).record).map Record.id := by
        rw [List.map_map]
        rfl
      rw [hmap] at hids
      exact List.Nodup.of_map _ hids
    · obtain ⟨d, hd, rfl⟩ := List.mem_map.mp hrec
      obtain ⟨r, hr, heq⟩ := hmatched d hd
      exact List.mem_map.mpr ⟨r, hr, heq.symm⟩
    · obtain ⟨r, hr, rfl⟩ := List.mem_map.mp hrec
      obtain ⟨d, hd, heq⟩ := hcovered r hr
      exact List.mem_map.mpr ⟨d, hd, heq⟩

end App

end SpendingTracker
