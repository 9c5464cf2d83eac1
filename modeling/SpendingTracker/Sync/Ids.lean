import SpendingTracker.Sync.Agreement

/-!
# Ids stay distinct

The ids of transactions are generated and never change.  Whatever happens, the documents keep
distinct ids, and so do the entries of the store: those it has loaded from an answer and those
that have been added since.  `IdsKept` states this for the documents of some owners, so that it
can be used for the documents of one user and for all documents alike.
-/

namespace SpendingTracker

open Lib

namespace App

variable {s s' : App} {e : Event} {P : Option Value → Prop}

/-- The events do not bring in ids that are in use. -/
def FreshIds (s : App) : Event → Prop
  | .add added _ => (added.map fun p => p.1.id).Nodup ∧
      ∀ p ∈ added, ∃ x, p.1.id = some x ∧ ¬ s.Uses x
  | .remote _ => False
  | _ => True

/-- The documents whose owner meets `P` have distinct ids, also in the answers to the fetches
for such an owner, and so has the store. -/
structure IdsKept (P : Option Value → Prop) (s : App) : Prop where
  present : ∀ d ∈ s.collection.documents, P (docOwner d) → ∃ x, docId d = some (.string x)
  distinct : ∀ d ∈ s.collection.documents, ∀ d' ∈ s.collection.documents,
    P (docOwner d) → P (docOwner d') → docId d = docId d' → d = d'
  answers : ∀ q ∈ s.requests, ∀ v documents, q = ⟨.getTransactionsForUser v, some documents⟩ →
    P (some (.string v)) →
    (documents.map docId).Nodup ∧ ∀ d ∈ documents, ∃ x, docId d = some (.string x)
  store : s.IdsDistinct

lemma id_decode [FIRTimestamp] (d : Doc) : (decode d.data).id = loadedId d := by
  rw [decode_eq]
  rfl

lemma id_decode_eq_some_iff [FIRTimestamp] {d : Doc} {x : String} :
    (decode d.data).id = some x ↔ docId d = some (.string x) := by
  rw [id_decode, loadedId_eq_some_iff]

/-- What is loaded of documents with distinct ids has distinct ids. -/
lemma nodup_id_loaded [FIRTimestamp] {documents : List Doc} (hnodup : (documents.map docId).Nodup)
    (hpresent : ∀ d ∈ documents, ∃ x, docId d = some (.string x)) :
    ((loaded documents).map Transaction.id).Nodup := by
  rw [loaded, List.map_map]
  refine (List.nodup_map_iff_inj_on (List.Nodup.of_map _ hnodup)).mpr fun d hd d' hd' heq => ?_
  obtain ⟨x, hx⟩ := hpresent d hd
  obtain ⟨x', hx'⟩ := hpresent d' hd'
  refine List.inj_on_of_nodup_map hnodup hd hd' ?_
  rw [Function.comp_apply, Function.comp_apply, id_decode, id_decode,
    loadedId_eq_some_iff.mpr hx'] at heq
  rw [loadedId_eq_some_iff.mp heq, hx']

/-- A store that has been loaded from documents with distinct ids has distinct ids. -/
lemma IdsDistinct.of_loaded [FIRTimestamp] {documents : List Doc}
    (hnodup : (documents.map docId).Nodup)
    (hpresent : ∀ d ∈ documents, ∃ x, docId d = some (.string x))
    (hids : (s.shared.map fun r => (s.transaction r).id) =
      (loaded documents).map Transaction.id) : s.IdsDistinct := by
  refine ⟨fun r hr hnone => ?_, hids ▸ nodup_id_loaded hnodup hpresent⟩
  have hmem : none ∈ (loaded documents).map Transaction.id :=
    hids ▸ hnone ▸ List.mem_map_of_mem hr
  obtain ⟨t, ht, hid⟩ := List.mem_map.mp hmem
  obtain ⟨d, hd, rfl⟩ := List.mem_map.mp ht
  obtain ⟨x, hx⟩ := hpresent d hd
  rw [id_decode_eq_some_iff.mpr hx] at hid
  cases hid

namespace IdsKept

variable [FIRTimestamp]

/-- A document after the event is a version of an earlier one, or a new one with a fresh id. -/
lemma documents_step (hfresh : s.FreshIds e) (hs : s.step e = some s') {d : Doc}
    (hd : d ∈ s'.collection.documents) :
    (∃ d₀ ∈ s.collection.documents, SameDocument d₀ d) ∨
      ∃ added index u, e = .add added index ∧ d ∈ newDocuments u added ∧
        ∃ x, docId d = some (.string x) ∧ ¬ s.Uses x := by
  have hlocal : ∀ c, e ≠ .remote c := by
    rintro c rfl
    exact hfresh
  rcases step_documents hlocal hs hd with hold | ⟨added, index, u, rfl, -, hnew, -⟩
  · exact Or.inl hold
  · obtain ⟨t, i, hmem, rfl⟩ := mem_newDocuments.mp hnew
    obtain ⟨x, hx, huses⟩ := hfresh.2 _ hmem
    exact Or.inr ⟨added, index, u, rfl, hnew, x, storedId_eq_string_iff.mpr hx, huses⟩

lemma present_step (h : s.IdsKept P) (hfresh : s.FreshIds e) (hs : s.step e = some s') :
    ∀ d ∈ s'.collection.documents, P (docOwner d) → ∃ x, docId d = some (.string x) := by
  intro d hd hP
  rcases documents_step hfresh hs hd with ⟨d₀, hd₀, hsame⟩ | ⟨-, -, -, -, -, x, hx, -⟩
  · exact hsame.id ▸ h.present d₀ hd₀ (hsame.owner ▸ hP)
  · exact ⟨x, hx⟩

lemma distinct_step (h : s.IdsKept P) (hfresh : s.FreshIds e) (hs : s.step e = some s') :
    ∀ d ∈ s'.collection.documents, ∀ d' ∈ s'.collection.documents,
      P (docOwner d) → P (docOwner d') → docId d = docId d' → d = d' := by
  have used : ∀ d₀ ∈ s.collection.documents, ∀ x, docId d₀ = some (.string x) → s.Uses x :=
    fun d₀ hd₀ x hx => Or.inr (Or.inl ⟨d₀, hd₀, hx⟩)
  intro d hd d' hd' hP hP' hid
  rcases documents_step hfresh hs hd with ⟨d₀, hd₀, hsame⟩ |
    ⟨added, index, u, rfl, hnew, x, hx, hun⟩
  · rcases documents_step hfresh hs hd' with ⟨d₀', hd₀', hsame'⟩ | ⟨-, -, -, -, -, x', hx', hun'⟩
    · obtain rfl : d₀ = d₀' := h.distinct d₀ hd₀ d₀' hd₀' (hsame.owner ▸ hP) (hsame'.owner ▸ hP')
        (hsame.id.trans (hid.trans hsame'.id.symm))
      exact Collection.eq_of_documentID hd hd' (hsame.documentID.symm.trans hsame'.documentID)
    · exact absurd (used d₀ hd₀ x' (hsame.id.trans (hid.trans hx'))) hun'
  · rcases documents_step hfresh hs hd' with ⟨d₀', hd₀', hsame'⟩ |
      ⟨added', index', u', heq, hnew', -, -, -⟩
    · exact absurd (used d₀' hd₀' x (hsame'.id.trans (hid.symm.trans hx))) hun
    -- both documents are new: they belong to the same added transaction
    · cases heq
      obtain ⟨t, i, hmem, rfl⟩ := mem_newDocuments.mp hnew
      obtain ⟨t', i', hmem', rfl⟩ := mem_newDocuments.mp hnew'
      cases List.inj_on_of_nodup_map hfresh.1 hmem hmem' (storedId_eq_iff.mp hid)
      exact Collection.eq_of_documentID hd hd' rfl

/-- The documents that a fetch finds have distinct ids. -/
lemma answers_step (h : s.IdsKept P) (hfresh : s.FreshIds e) (hs : s.step e = some s') :
    ∀ q ∈ s'.requests, ∀ v documents, q = ⟨.getTransactionsForUser v, some documents⟩ →
      P (some (.string v)) →
      (documents.map docId).Nodup ∧ ∀ d ∈ documents, ∃ x, docId d = some (.string x) := by
  rintro q hq v documents rfl hP
  rcases step_answers hs hq rfl with hold | hperm
  · exact h.answers _ hold v documents rfl hP
  · have hfound : ∀ d ∈ documents, d ∈ s'.collection.documents ∧ P (docOwner d) := by
      intro d hd
      obtain ⟨hmem, howner⟩ := Query.mem_select.mp (hperm.mem_iff.mp hd)
      exact ⟨hmem, show P (docOwner d) from howner ▸ hP⟩
    refine ⟨?_, fun d hd => h.present_step hfresh hs d (hfound d hd).1 (hfound d hd).2⟩
    have hnodup : documents.Nodup :=
      hperm.nodup_iff.mpr (List.Nodup.filter _ s'.collection.documents_nodup)
    refine (List.nodup_map_iff_inj_on hnodup).mpr fun d hd d' hd' hid => ?_
    exact h.distinct_step hfresh hs d (hfound d hd).1 d' (hfound d' hd').1 (hfound d hd).2
      (hfound d' hd').2 hid

/-- The entries of the store keep distinct ids, also when the store is fetched. -/
lemma store_step (h : s.IdsKept P) (hfresh : s.FreshIds e)
    (hfetch : ∀ v documents, s.fetched e = some (v, documents) → P (some (.string v)))
    (hs : s.step e = some s') : s'.IdsDistinct := by
  have hstore := step_store hs
  generalize hheap : s'.heap = heap, hshared : s'.shared = shared at hstore
  have htransaction : s'.transaction = heap.read := by
    funext r
    rw [transaction, hheap]
  cases hstore with
  | @fetched _ v documents hf =>
      obtain ⟨i, refused, -, hi⟩ := fetched_eq_some_iff.mp hf
      obtain ⟨hnodup, hpresent⟩ :=
        h.answers _ (List.mem_of_getElem? hi) v documents rfl (hfetch v documents hf)
      have hids : (s'.shared.map fun r => (s'.transaction r).id) =
          (loaded documents).map Transaction.id := by
        rw [hshared, htransaction]
        exact map_id_created s.heap (loaded documents)
      exact .of_loaded hnodup hpresent hids
  | added _ => exact h.store.step_add hfresh.1 hfresh.2 hs
  | @saved r edit _ hr hsaved =>
      refine h.store.of_map_eq ?_
      rw [hshared, htransaction]
      simp only [id_read_heapAfterSave]
      rcases hsaved with rfl | ⟨front, x, back, hold, hid, rfl⟩
      · rfl
      · simp [hold, hid]
  | removed =>
      cases hs
      exact h.store.filter
  | unchanged _ _ => exact h.store.of_map_eq (by rw [hshared, htransaction]; rfl)

/-- Every event that brings in fresh ids only keeps the ids distinct. -/
theorem step (h : s.IdsKept P) (hfresh : s.FreshIds e)
    (hfetch : ∀ v documents, s.fetched e = some (v, documents) → P (some (.string v)))
    (hs : s.step e = some s') : s'.IdsKept P where
  present := h.present_step hfresh hs
  distinct := h.distinct_step hfresh hs
  answers := h.answers_step hfresh hs
  store := h.store_step hfresh hfetch hs

end IdsKept

end App

end SpendingTracker
