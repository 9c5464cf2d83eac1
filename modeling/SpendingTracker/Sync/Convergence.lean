import SpendingTracker.Lib.Pool
import SpendingTracker.Sync.Agreement

/-!
# Convergence of the store and the database

Saving and deleting take two phases: a query for the documents with the transaction's id, and
then, in the callback, the writes.  Between the two phases anything else may happen.  The
invariant `Tied` says how far the two sides can be apart meanwhile:

* a document with the id of a transaction in the store carries the current fields of that
  transaction, or an update of the transaction is outstanding that will reach the document;
* every other document of the user will be reached by an outstanding deletion.

An update writes the fields that the captured object has when the callback runs, and this
object is the one in the store, so that the order of the callbacks does not matter.
-/

namespace SpendingTracker

open Lib

namespace App

variable {u : String} {s s' : App}

/-- The events of a session without faults: transactions with fresh ids are added, objects of
the store are edited, transactions are deleted, and queries and writes succeed. -/
def ClientStep (s : App) : Event → Prop
  | .add added _ => (added.map fun p => p.1.id).Nodup ∧
      ∀ p ∈ added, p.2 ≠ none ∧ ∃ x, p.1.id = some x ∧ ¬ s.Uses x
  | .save r _ => r ∈ s.shared
  | .remove _ => True
  | .answer _ _ => True
  | .deliver _ outcome => outcome = .succeeded []
  | _ => False

instance (s : App) : DecidablePred s.ClientStep
  | .add added _ => decidable_of_iff ((added.map fun p => p.1.id).Nodup ∧
      ∀ p ∈ added, p.2 ≠ none ∧ ∃ x ∈ p.1.id, ¬ s.Uses x) Iff.rfl
  | .save r _ => inferInstanceAs (Decidable (r ∈ s.shared))
  | .deliver _ outcome => inferInstanceAs (Decidable (outcome = _))
  | .remove _ | .answer _ _ => inferInstanceAs (Decidable True)
  | .viewDidAppear | .signIn _ | .signOut | .callListener _ | .remote _ =>
      inferInstanceAs (Decidable False)

/-- A query is outstanding whose callback will write to the document `d`. -/
def Pending (s : App) (q : Query) (d : Doc) : Prop :=
  ∃ p ∈ s.requests, p.query = q ∧
    ∀ documents, p.answer = some documents → d.documentID ∈ documents.map Document.documentID

/-- How the store, the documents of the user and the outstanding queries hang together. -/
structure Tied [FIRTimestamp] (u : String) (s : App) : Prop where
  user : s.currentUser = some u
  ids : s.IdsDistinct
  answers : s.AnswersSound
  /-- No refetch is outstanding. -/
  noFetch : ∀ p ∈ s.requests, ∀ v, p.query ≠ .getTransactionsForUser v
  distinct : ∀ d ∈ userDocuments u s.collection, ∀ d' ∈ userDocuments u s.collection,
    docId d = docId d' → d = d'
  covered : ∀ r ∈ s.shared, ∃ d ∈ userDocuments u s.collection,
    docId d = storedId (s.transaction r)
  /-- An outstanding update has captured the object in the store. -/
  updates : ∀ p ∈ s.requests, ∀ x r, p.query = .updateTransactionInDatabase x r →
    (s.transaction r).id = some x ∧ ∀ r' ∈ s.shared, (s.transaction r').id = some x → r' = r
  /-- A transaction whose deletion is outstanding has left the store. -/
  removes : ∀ p ∈ s.requests, ∀ x, p.query = .removeTransactionFromDatabase x →
    ∀ r ∈ s.shared, (s.transaction r).id ≠ some x
  tied : ∀ d ∈ userDocuments u s.collection, ∀ r ∈ s.shared,
    docId d = storedId (s.transaction r) → recordOf d.data = (s.transaction r).record ∨
      ∃ x, (s.transaction r).id = some x ∧ s.Pending (.updateTransactionInDatabase x r) d
  orphan : ∀ d ∈ userDocuments u s.collection,
    (∃ r ∈ s.shared, docId d = storedId (s.transaction r)) ∨
      ∃ x, docId d = some (.string x) ∧ s.Pending (.removeTransactionFromDatabase x) d

namespace Tied

/-- A state in which the two sides agree and nothing is outstanding is tied. -/
lemma of_agree [FIRTimestamp] (hu : s.currentUser = some u) (hids : s.IdsDistinct)
    (hagree : s.Agree u) (hnone : s.requests = []) : s.Tied u := by
  obtain ⟨hdistinct, hcovered, hmatched⟩ := (agree_iff_corresponds hids).mp hagree
  have norequest : ∀ p ∈ s.requests, False := by simp [hnone]
  refine ⟨hu, hids, answersSound_of_requests_eq_nil hnone, fun p hp => (norequest p hp).elim,
    hdistinct, fun r hr => ?_, fun p hp => (norequest p hp).elim,
    fun p hp => (norequest p hp).elim, fun d hd r hr hid => ?_, fun d hd => ?_⟩
  · obtain ⟨d, hd, heq⟩ := hcovered r hr
    exact ⟨d, hd, docId_eq_of_record heq⟩
  · obtain ⟨d', hd', heq⟩ := hcovered r hr
    obtain rfl : d = d' := hdistinct d hd d' hd' (hid.trans (docId_eq_of_record heq).symm)
    exact Or.inl heq
  · obtain ⟨r, hr, heq⟩ := hmatched d hd
    exact Or.inl ⟨r, hr, docId_eq_of_record heq⟩

/-- In a tied state without outstanding queries the two sides agree. -/
lemma agree [FIRTimestamp] (h : s.Tied u) (hnone : s.requests = []) : s.Agree u := by
  have nopending : ∀ q d, ¬ s.Pending q d := by
    rintro q d ⟨p, hp, -⟩
    simp [hnone] at hp
  refine (agree_iff_corresponds h.ids).mpr ⟨h.distinct, fun r hr => ?_, fun d hd => ?_⟩
  · obtain ⟨d, hd, hid⟩ := h.covered r hr
    rcases h.tied d hd r hr hid with hrec | ⟨x, -, hp⟩
    · exact ⟨d, hd, hrec⟩
    · exact absurd hp (nopending _ _)
  · rcases h.orphan d hd with ⟨r, hr, hid⟩ | ⟨x, -, hp⟩
    · rcases h.tied d hd r hr hid with hrec | ⟨x, -, hp⟩
      · exact ⟨r, hr, hrec⟩
      · exact absurd hp (nopending _ _)
    · exact absurd hp (nopending _ _)

end Tied

/-! ### Outstanding writes -/

/-- More requests keep a write outstanding. -/
lemma Pending.mono {q : Query} {d : Doc} (h : s.Pending q d)
    (hreq : ∀ p ∈ s.requests, p ∈ s'.requests) : s'.Pending q d := by
  obtain ⟨p, hp, hq, ha⟩ := h
  exact ⟨p, hreq p hp, hq, ha⟩

lemma Pending.append {q : Query} {d : Doc} (h : s.Pending q d) {ps : List Request}
    (hreq : s'.requests = s.requests ++ ps) : s'.Pending q d :=
  h.mono fun p hp => by simp [hreq, hp]

/-- A query that has just been issued will reach every document. -/
lemma pending_issued {q : Query} {d : Doc} (hreq : s'.requests = s.requests ++ [⟨q, none⟩]) :
    s'.Pending q d :=
  ⟨⟨q, none⟩, by simp [hreq], rfl, fun documents h => by simp at h⟩

/-- Evaluating a query keeps a write outstanding for the documents it selects. -/
lemma Pending.answer {q q' : Query} {d : Doc} {i : ℕ} {documents : List Doc}
    (h : s.Pending q d) (hd : d ∈ s.collection.documents) (hq : q.Matches d)
    (hi : s.requests[i]? = some ⟨q', none⟩) (hperm : documents.Perm (q'.select s.collection))
    (hreq : s'.requests = s.requests.set i ⟨q', some documents⟩) : s'.Pending q d := by
  obtain ⟨p, hp, hpq, ha⟩ := h
  rcases mem_set_or_eq hp hi ⟨q', some documents⟩ with hmem | rfl
  · exact ⟨p, hreq ▸ hmem, hpq, ha⟩
  · refine ⟨⟨q', some documents⟩, hreq ▸ mem_set_self hi _, hpq, fun docs hdocs => ?_⟩
    cases hdocs
    simp only at hpq
    subst hpq
    exact List.mem_map_of_mem (hperm.mem_iff.mpr (Query.mem_select.mpr ⟨hd, hq⟩))

/-- Running one callback keeps the other writes outstanding. -/
lemma Pending.deliver {q : Query} {d d' : Doc} {i : ℕ} {p : Request} (h : s.Pending q d)
    (hi : s.requests[i]? = some p) (hreq : s'.requests = s.requests.eraseIdx i)
    (hid : d'.documentID = d.documentID)
    (hp : p.query = q → ∀ documents, p.answer = some documents →
      d.documentID ∉ documents.map Document.documentID) (hans : p.answer ≠ none) :
    s'.Pending q d' := by
  obtain ⟨p', hp', hq, ha⟩ := h
  rcases mem_eraseIdx_or_eq hp' hi with hmem | rfl
  · exact ⟨p', hreq ▸ hmem, hq, hid ▸ ha⟩
  · obtain ⟨documents, hdocs⟩ := Option.ne_none_iff_exists'.mp hans
    exact absurd (ha documents hdocs) (hp hq documents hdocs)

lemma written_nil (documents : List Doc) :
    written documents [] = documents.map Document.documentID := by
  simp [written]

/-! ### The events keep the state tied -/

/-- A document's owner and id can be read off any version of it. -/
lemma mem_userDocuments_of_same {c c' : Transactions} {d d' : Doc} (hsame : SameDocument d d')
    (hd : d ∈ c.documents) (hd' : d' ∈ userDocuments u c') : d ∈ userDocuments u c :=
  mem_userDocuments.mpr ⟨hd, hsame.owner.trans (mem_userDocuments.mp hd').2⟩

lemma Tied.step_remove [FIRTimestamp] (h : s.Tied u) {x : String}
    (hs : s.step (.remove (some x)) = some s') : s'.Tied u := by
  have hans : s'.AnswersSound := step_answersSound (by simp) h.answers hs
  rw [step_remove_some] at hs
  cases hs
  have hmem : ∀ r, r ∈ s.shared.filter (fun r => (s.transaction r).id ≠ some x) ↔
      r ∈ s.shared ∧ (s.transaction r).id ≠ some x := by simp
  refine ⟨h.user, h.ids.filter, hans, ?_, h.distinct,
    fun r hr => h.covered r ((hmem r).mp hr).1, ?_, ?_, ?_, ?_⟩
  · intro p hp
    rcases List.mem_append.mp hp with hp | hp
    · exact h.noFetch p hp
    · obtain rfl := List.mem_singleton.mp hp
      simp
  · intro p hp y r hq
    rcases List.mem_append.mp hp with hp | hp
    · exact ⟨(h.updates p hp y r hq).1,
        fun r' hr' => (h.updates p hp y r hq).2 r' ((hmem r').mp hr').1⟩
    · obtain rfl := List.mem_singleton.mp hp
      cases hq
  · intro p hp y hq r hr
    rcases List.mem_append.mp hp with hp | hp
    · exact h.removes p hp y hq r ((hmem r).mp hr).1
    · obtain rfl := List.mem_singleton.mp hp
      cases hq
      exact ((hmem r).mp hr).2
  · intro d hd r hr hid
    rcases h.tied d hd r ((hmem r).mp hr).1 hid with hrec | ⟨y, hy, hp⟩
    · exact Or.inl hrec
    · exact Or.inr ⟨y, hy, hp.append rfl⟩
  · intro d hd
    rcases h.orphan d hd with ⟨r, hr, hid⟩ | ⟨y, hy, hp⟩
    · by_cases hx : (s.transaction r).id = some x
      · exact Or.inr ⟨x, hid.trans (storedId_eq_string_iff.mpr hx), pending_issued rfl⟩
      · exact Or.inl ⟨r, (hmem r).mpr ⟨hr, hx⟩, hid⟩
    · exact Or.inr ⟨y, hy, hp.append rfl⟩

lemma Tied.step_save [FIRTimestamp] (h : s.Tied u) {r : Ref} {e : Edit} (hr : r ∈ s.shared)
    (hs : s.step (.save r e) = some s') : s'.Tied u := by
  have hans : s'.AnswersSound := step_answersSound (by simp) h.answers hs
  have hlt := h.ids.lt_size hr
  obtain ⟨i, hi, rfl⟩ := h.ids.step_save hr hs
  have hstored : ∀ y, storedId ((s.heapAfterSave r e).read y) = storedId (s.transaction y) :=
    fun y => storedId_eq_iff.mpr id_read_heapAfterSave
  refine ⟨h.user, h.ids.heapAfterSave, hans, ?_, h.distinct, fun y hy => ?_, ?_, ?_, ?_, ?_⟩
  · intro p hp
    rcases List.mem_append.mp hp with hp | hp
    · exact h.noFetch p hp
    · obtain rfl := List.mem_singleton.mp hp
      simp
  · rw [transaction_mk, hstored]
    exact h.covered y hy
  · intro p hp y r' hq
    simp only [transaction_mk, id_read_heapAfterSave]
    rcases List.mem_append.mp hp with hp | hp
    · exact h.updates p hp y r' hq
    · obtain rfl := List.mem_singleton.mp hp
      cases hq
      exact ⟨hi, fun r' hr' hid => h.ids.eq_of_id hr' hr (hid.trans hi.symm)⟩
  · intro p hp y hq r' hr'
    rw [transaction_mk, id_read_heapAfterSave]
    rcases List.mem_append.mp hp with hp | hp
    · exact h.removes p hp y hq r' hr'
    · obtain rfl := List.mem_singleton.mp hp
      cases hq
  · intro d hd r' hr' hid
    rw [transaction_mk, hstored] at hid
    rw [transaction_mk, id_read_heapAfterSave]
    by_cases hrr : r' = r
    · subst hrr
      -- the update that has just been issued will bring the document up to date
      exact Or.inr ⟨i, hi, pending_issued rfl⟩
    · rw [read_heapAfterSave hlt, if_neg hrr]
      rcases h.tied d hd r' hr' hid with hrec | ⟨y, hy, hp⟩
      · exact Or.inl hrec
      · exact Or.inr ⟨y, hy, hp.append rfl⟩
  · intro d hd
    rcases h.orphan d hd with ⟨r', hr', hid⟩ | ⟨y, hy, hp⟩
    · exact Or.inl ⟨r', hr', by rw [transaction_mk, hstored]; exact hid⟩
    · exact Or.inr ⟨y, hy, hp.append rfl⟩

lemma Tied.step_answer [FIRTimestamp] (h : s.Tied u) {i : ℕ} {documents : List Doc}
    (hs : s.step (.answer i documents) = some s') : s'.Tied u := by
  have hans : s'.AnswersSound := step_answersSound (by simp) h.answers hs
  obtain ⟨q, hi, hperm, rfl⟩ := step_answer_iff.mp hs
  -- the requests ask for what they have asked for before
  have hquery : ∀ p ∈ s.requests.set i ⟨q, some documents⟩, ∃ p' ∈ s.requests,
      p'.query = p.query := by
    intro p hp
    rcases List.mem_or_eq_of_mem_set hp with hp | rfl
    · exact ⟨p, hp, rfl⟩
    · exact ⟨_, List.mem_of_getElem? hi, rfl⟩
  have keeps : ∀ q' d, d ∈ userDocuments u s.collection → q'.Matches d → s.Pending q' d →
      App.Pending { s with requests := s.requests.set i ⟨q, some documents⟩ } q' d :=
    fun q' d hd hm hp => hp.answer (mem_userDocuments.mp hd).1 hm hi hperm rfl
  refine ⟨h.user, ⟨h.ids.present, h.ids.nodup⟩, hans, ?_, h.distinct, h.covered, ?_, ?_, ?_, ?_⟩
  · intro p hp v
    obtain ⟨p', hp', heq⟩ := hquery p hp
    exact heq ▸ h.noFetch p' hp' v
  · intro p hp x r hq
    obtain ⟨p', hp', heq⟩ := hquery p hp
    exact h.updates p' hp' x r (heq.trans hq)
  · intro p hp x hq
    obtain ⟨p', hp', heq⟩ := hquery p hp
    exact h.removes p' hp' x (heq.trans hq)
  · intro d hd r hr hid
    rcases h.tied d hd r hr hid with hrec | ⟨x, hx, hp⟩
    · exact Or.inl hrec
    · exact Or.inr ⟨x, hx, keeps _ d hd (hid.trans (storedId_eq_string_iff.mpr hx)) hp⟩
  · intro d hd
    rcases h.orphan d hd with hr | ⟨x, hx, hp⟩
    · exact Or.inl hr
    · exact Or.inr ⟨x, hx, keeps _ d hd hx hp⟩

/-- The callback of a deletion. -/
lemma Tied.step_deliver_remove [FIRTimestamp] (h : s.Tied u) {i : ℕ} {x : String}
    {documents : List Doc}
    (hi : s.requests[i]? = some ⟨.removeTransactionFromDatabase x, some documents⟩)
    (hs : s.step (.deliver i (.succeeded [])) = some s') : s'.Tied u := by
  have hans : s'.AnswersSound := step_answersSound (by simp) h.answers hs
  have hmem := List.mem_of_getElem? hi
  have hsound := h.answers _ hmem documents rfl
  obtain rfl : s' = { s with
      requests := s.requests.eraseIdx i
      collection := s.collection.deleteAll (documents.map Document.documentID) } := by
    simp only [step, deliver, hi, Option.some.injEq] at hs
    rw [← hs, callback, written_nil]
  have hdocs : ∀ d, d ∈ userDocuments u (s.collection.deleteAll
      (documents.map Document.documentID)) ↔
      d ∈ userDocuments u s.collection ∧ d.documentID ∉ documents.map Document.documentID := by
    intro d
    rw [mem_userDocuments, mem_userDocuments, Collection.mem_deleteAll]
    tauto
  have hgone : ∀ d ∈ userDocuments u s.collection,
      d.documentID ∈ documents.map Document.documentID → docId d = some (.string x) := by
    intro d hd hw
    rw [← written_nil documents] at hw
    exact hsound.matches_of_written (mem_userDocuments.mp hd).1 hw
  have hpool : ∀ p ∈ s.requests.eraseIdx i, p ∈ s.requests :=
    fun p hp => List.mem_of_mem_eraseIdx hp
  refine ⟨h.user, ⟨h.ids.present, h.ids.nodup⟩, hans, fun p hp => h.noFetch p (hpool p hp), ?_, ?_,
    fun p hp => h.updates p (hpool p hp), fun p hp => h.removes p (hpool p hp), ?_, ?_⟩
  · intro d hd d' hd'
    exact h.distinct d ((hdocs d).mp hd).1 d' ((hdocs d').mp hd').1
  · intro r hr
    obtain ⟨d, hd, hid⟩ := h.covered r hr
    -- an entry of the store does not lose its document: its deletion is not outstanding
    refine ⟨d, (hdocs d).mpr ⟨hd, fun hw => ?_⟩, hid⟩
    exact h.removes _ hmem x rfl r hr
      (storedId_eq_string_iff.mp (hid.symm.trans (hgone d hd hw)))
  · intro d hd r hr hid
    rcases h.tied d ((hdocs d).mp hd).1 r hr hid with hrec | ⟨y, hy, hp⟩
    · exact Or.inl hrec
    · exact Or.inr ⟨y, hy, hp.deliver hi rfl rfl (fun hq => by simp at hq) (by simp)⟩
  · intro d hd
    rcases h.orphan d ((hdocs d).mp hd).1 with hr | ⟨y, hy, hp⟩
    · exact Or.inl hr
    · refine Or.inr ⟨y, hy, hp.deliver hi rfl rfl (fun _ docs hdocs' => ?_) (by simp)⟩
      cases hdocs'
      exact ((hdocs d).mp hd).2

/-- After the writes of an update a document of the user has been overwritten, or it is untouched
and was not found. -/
lemma exists_of_mem_updateAll [FIRTimestamp] {c : Transactions} {t : Transaction} {x : String}
    {is : List String} (ht : t.id = some x)
    (hfound : ∀ d ∈ c.documents, d.documentID ∈ is → docId d = some (.string x)) {d' : Doc}
    (hd' : d' ∈ userDocuments u (c.updateAll is t.updateData)) :
    ∃ d ∈ userDocuments u c, SameDocument d d' ∧
      ((docId d = some (.string x) ∧ recordOf d'.data = t.record) ∨
        (d' = d ∧ d.documentID ∉ is)) := by
  obtain ⟨d, hd, rfl⟩ := Collection.mem_updateAll.mp (mem_userDocuments.mp hd').1
  by_cases hw : d.documentID ∈ is
  · rw [if_pos hw] at hd' ⊢
    have hsame := sameDocument_overwrite d t
    have hid := hfound d hd hw
    exact ⟨d, mem_userDocuments_of_same hsame hd hd', hsame, Or.inl ⟨hid,
      recordOf_overwrite (hid.trans (storedId_eq_string_iff.mpr ht).symm)⟩⟩
  · rw [if_neg hw] at hd' ⊢
    exact ⟨d, mem_userDocuments_of_same (.refl d) hd hd', .refl d, Or.inr ⟨rfl, hw⟩⟩

/-- The callback of an update: the documents written carry the fields that the captured object
has now. -/
lemma Tied.step_deliver_update [FIRTimestamp] (h : s.Tied u) {i : ℕ} {x : String} {r : Ref}
    {documents : List Doc}
    (hi : s.requests[i]? = some ⟨.updateTransactionInDatabase x r, some documents⟩)
    (hs : s.step (.deliver i (.succeeded [])) = some s') : s'.Tied u := by
  have hans : s'.AnswersSound := step_answersSound (by simp) h.answers hs
  have hmem := List.mem_of_getElem? hi
  have hsound := h.answers _ hmem documents rfl
  obtain ⟨hx, hunique⟩ := h.updates _ hmem x r rfl
  obtain rfl : s' = { s with
      requests := s.requests.eraseIdx i
      collection := s.collection.updateAll (documents.map Document.documentID)
        (s.transaction r).updateData } := by
    simp only [step, deliver, hi, Option.some.injEq] at hs
    rw [← hs, callback, written_nil]
    rfl
  have hfound : ∀ d ∈ s.collection.documents, d.documentID ∈ documents.map Document.documentID →
      docId d = some (.string x) := fun d hd hw =>
    hsound.matches_of_written hd ((written_nil documents).symm ▸ hw)
  have hpool : ∀ p ∈ s.requests.eraseIdx i, p ∈ s.requests :=
    fun p hp => List.mem_of_mem_eraseIdx hp
  refine ⟨h.user, ⟨h.ids.present, h.ids.nodup⟩, hans, fun p hp => h.noFetch p (hpool p hp), ?_, ?_,
    fun p hp => h.updates p (hpool p hp), fun p hp => h.removes p (hpool p hp), ?_, ?_⟩
  · intro d₁ hd₁ d₂ hd₂ heq
    obtain ⟨e₁, he₁, hs₁, -⟩ := exists_of_mem_updateAll hx hfound hd₁
    obtain ⟨e₂, he₂, hs₂, -⟩ := exists_of_mem_updateAll hx hfound hd₂
    have : e₁ = e₂ := h.distinct e₁ he₁ e₂ he₂ (hs₁.id.trans (heq.trans hs₂.id.symm))
    exact Collection.eq_of_documentID (mem_userDocuments.mp hd₁).1 (mem_userDocuments.mp hd₂).1
      (hs₁.documentID.symm.trans (this ▸ hs₂.documentID))
  · intro r' hr'
    obtain ⟨d, hd, hid⟩ := h.covered r' hr'
    have hsame := sameDocument_ite d (s.transaction r)
      (d.documentID ∈ documents.map Document.documentID)
    refine ⟨_, mem_userDocuments.mpr ⟨Collection.mem_updateAll.mpr
      ⟨d, (mem_userDocuments.mp hd).1, rfl⟩, hsame.owner.symm.trans (mem_userDocuments.mp hd).2⟩,
      hsame.id.symm.trans hid⟩
  · intro d' hd' r' hr' hid
    obtain ⟨d, hd, hsame, ⟨hdx, hrec⟩ | ⟨rfl, hnot⟩⟩ := exists_of_mem_updateAll hx hfound hd'
    · have hr'x := storedId_eq_string_iff.mp ((hsame.id.trans hid).symm.trans hdx)
      -- the callback has read the object that the store holds
      obtain rfl : r' = r := hunique r' hr' hr'x
      exact Or.inl hrec
    · rcases h.tied d' hd r' hr' hid with hrec | ⟨y, hy, hp⟩
      · exact Or.inl hrec
      · refine Or.inr ⟨y, hy, hp.deliver hi rfl rfl (fun _ docs hdocs' => ?_) (by simp)⟩
        cases hdocs'
        exact hnot
  · intro d' hd'
    obtain ⟨d, hd, hsame, -⟩ := exists_of_mem_updateAll hx hfound hd'
    rcases h.orphan d hd with ⟨r', hr', hid⟩ | ⟨y, hy, hp⟩
    · exact Or.inl ⟨r', hr', hsame.id.symm.trans hid⟩
    · exact Or.inr ⟨y, hsame.id.symm.trans hy, hp.deliver hi rfl hsame.documentID.symm
        (fun hq => by simp at hq) (by simp)⟩

/-! ### Adding -/

/-- No document of the user has the id of a transaction that is new. -/
lemma docId_ne_of_fresh {t : Transaction} (ht : ∃ x, t.id = some x ∧ ¬ s.Uses x) {d : Doc}
    (hd : d ∈ userDocuments u s.collection) : docId d ≠ storedId t := by
  obtain ⟨x, hx, hxs⟩ := ht
  intro heq
  exact hxs (Or.inr (Or.inl ⟨d, (mem_userDocuments.mp hd).1,
    heq.trans (storedId_eq_string_iff.mpr hx)⟩))

/-- No outstanding query is about a transaction that is new. -/
lemma transactionId_ne_of_fresh {t : Transaction} (ht : ∃ x, t.id = some x ∧ ¬ s.Uses x)
    {p : Request} (hp : p ∈ s.requests) {x : String} (hx : p.query.transactionId = some x) :
    t.id ≠ some x := by
  obtain ⟨y, hy, hys⟩ := ht
  intro heq
  cases heq.symm.trans hy
  exact hys (Or.inr (Or.inr ⟨p, hp, hx⟩))

section Add

variable [FIRTimestamp] {added : List (Transaction × Option String)} {index : Option ℕ}

lemma requests_step_add (hs : s.step (.add added index) = some s') : s'.requests = s.requests := by
  obtain ⟨-, front, back, -, -, rfl⟩ := step_add_iff.mp hs
  rfl

/-- A document of the user after an addition is an old one or a new one. -/
lemma mem_userDocuments_step_add (hu : s.currentUser = some u)
    (hs : s.step (.add added index) = some s') {d : Doc} :
    d ∈ userDocuments u s'.collection ↔
      d ∈ userDocuments u s.collection ∨ d ∈ newDocuments u added := by
  obtain ⟨⟨hnew, hknows⟩, front, back, -, -, rfl⟩ := step_add_iff.mp hs
  rw [userDocuments_collectionAfterAdd hu hnew hknows, List.mem_append]

lemma Pending.step_add {q : Query} {d : Doc} (hp : s.Pending q d)
    (hs : s.step (.add added index) = some s') : s'.Pending q d :=
  hp.mono fun _ hmem => (requests_step_add hs).symm ▸ hmem

namespace Tied

variable (h : s.Tied u) (hnodup : (added.map fun p => p.1.id).Nodup)
  (hfresh : ∀ p ∈ added, p.2 ≠ none ∧ ∃ x, p.1.id = some x ∧ ¬ s.Uses x)
  (hs : s.step (.add added index) = some s')

include h hs

lemma orphan_add : ∀ d ∈ userDocuments u s'.collection,
    (∃ r ∈ s'.shared, docId d = storedId (s'.transaction r)) ∨
      ∃ x, docId d = some (.string x) ∧ s'.Pending (.removeTransactionFromDatabase x) d := by
  intro d hd
  rcases (mem_userDocuments_step_add h.user hs).mp hd with hold | hnew
  · rcases h.orphan d hold with ⟨r, hr, hid⟩ | ⟨x, hx, hp⟩
    · exact Or.inl ⟨r, subset_step_add hs hr, by
        rw [transaction_step_add hs (h.ids.lt_size hr)]
        exact hid⟩
    · exact Or.inr ⟨x, hx, hp.step_add hs⟩
  · obtain ⟨t, i, hp, rfl⟩ := mem_newDocuments.mp hnew
    have hmem : t ∈ s'.shared.map s'.transaction :=
      (transactions_step_add (fun r => h.ids.lt_size) hs).mem_iff.mpr
        (List.mem_append_right _ (List.mem_map_of_mem hp))
    obtain ⟨r, hr, heq⟩ := List.mem_map.mp hmem
    exact Or.inl ⟨r, hr, by rw [heq]; rfl⟩

include hfresh

lemma covered_add : ∀ r ∈ s'.shared, ∃ d ∈ userDocuments u s'.collection,
    docId d = storedId (s'.transaction r) := by
  intro r hr
  rcases mem_step_add hs hr with hold | ⟨⟨t, o⟩, hp, heq⟩
  · obtain ⟨d, hd, hid⟩ := h.covered r hold
    exact ⟨d, (mem_userDocuments_step_add h.user hs).mpr (Or.inl hd), by
      rw [transaction_step_add hs (h.ids.lt_size hold)]
      exact hid⟩
  · obtain ⟨i, rfl⟩ := Option.ne_none_iff_exists'.mp (hfresh _ hp).1
    have hnew : ⟨i, t.addDocumentData u⟩ ∈ newDocuments u added :=
      mem_newDocuments.mpr ⟨t, i, hp, rfl⟩
    exact ⟨_, (mem_userDocuments_step_add h.user hs).mpr (Or.inr hnew), by rw [heq]; rfl⟩

lemma updates_add : ∀ p ∈ s'.requests, ∀ x r, p.query = .updateTransactionInDatabase x r →
    (s'.transaction r).id = some x ∧
      ∀ r' ∈ s'.shared, (s'.transaction r').id = some x → r' = r := by
  rw [requests_step_add hs]
  intro p hp x r hquery
  obtain ⟨hx, hunique⟩ := h.updates p hp x r hquery
  have hlt : r < s.heap.size := IdsDistinct.lt_size_of_id (by simp [hx])
  refine ⟨by rw [transaction_step_add hs hlt, hx], fun r' hr' hid => ?_⟩
  rcases mem_step_add hs hr' with hold | ⟨q, hq, heq⟩
  · rw [transaction_step_add hs (h.ids.lt_size hold)] at hid
    exact hunique r' hold hid
  · rw [heq] at hid
    exact absurd hid (transactionId_ne_of_fresh (hfresh q hq).2 hp (by rw [hquery]; rfl))

lemma removes_add : ∀ p ∈ s'.requests, ∀ x, p.query = .removeTransactionFromDatabase x →
    ∀ r ∈ s'.shared, (s'.transaction r).id ≠ some x := by
  rw [requests_step_add hs]
  intro p hp x hquery r hr
  rcases mem_step_add hs hr with hold | ⟨q, hq, heq⟩
  · rw [transaction_step_add hs (h.ids.lt_size hold)]
    exact h.removes p hp x hquery r hold
  · rw [heq]
    exact transactionId_ne_of_fresh (hfresh q hq).2 hp (by rw [hquery]; rfl)

include hnodup

lemma distinct_add : ∀ d ∈ userDocuments u s'.collection, ∀ d' ∈ userDocuments u s'.collection,
    docId d = docId d' → d = d' := by
  intro d hd d' hd' heq
  rcases (mem_userDocuments_step_add h.user hs).mp hd with hd | hd <;>
    rcases (mem_userDocuments_step_add h.user hs).mp hd' with hd' | hd'
  · exact h.distinct d hd d' hd' heq
  · obtain ⟨t, i, hp, rfl⟩ := mem_newDocuments.mp hd'
    exact absurd heq (docId_ne_of_fresh (hfresh _ hp).2 hd)
  · obtain ⟨t, i, hp, rfl⟩ := mem_newDocuments.mp hd
    exact absurd heq.symm (docId_ne_of_fresh (hfresh _ hp).2 hd')
  · obtain ⟨t, i, hp, rfl⟩ := mem_newDocuments.mp hd
    obtain ⟨t', i', hp', rfl⟩ := mem_newDocuments.mp hd'
    cases List.inj_on_of_nodup_map hnodup hp hp' (storedId_eq_iff.mp heq)
    rfl

/-- An old document goes with an old entry and a new document with a new one. -/
lemma tied_add : ∀ d ∈ userDocuments u s'.collection, ∀ r ∈ s'.shared,
    docId d = storedId (s'.transaction r) → recordOf d.data = (s'.transaction r).record ∨
      ∃ x, (s'.transaction r).id = some x ∧
        s'.Pending (.updateTransactionInDatabase x r) d := by
  intro d hd r hr hid
  rcases (mem_userDocuments_step_add h.user hs).mp hd with hd | hd <;>
    rcases mem_step_add hs hr with hr | ⟨p, hp, heq⟩
  · rw [transaction_step_add hs (h.ids.lt_size hr)] at hid ⊢
    rcases h.tied d hd r hr hid with hrec | ⟨x, hx, hp⟩
    · exact Or.inl hrec
    · exact Or.inr ⟨x, hx, hp.step_add hs⟩
  · rw [heq] at hid
    exact absurd hid (docId_ne_of_fresh (hfresh p hp).2 hd)
  · obtain ⟨t, i, hp, rfl⟩ := mem_newDocuments.mp hd
    obtain ⟨x, hx, hxs⟩ := (hfresh _ hp).2
    rw [transaction_step_add hs (h.ids.lt_size hr)] at hid
    exact absurd (uses_of_transaction ((storedId_eq_iff.mp hid).symm.trans hx)) hxs
  · obtain ⟨t, i, hp', rfl⟩ := mem_newDocuments.mp hd
    rw [heq] at hid ⊢
    cases List.inj_on_of_nodup_map hnodup hp' hp (storedId_eq_iff.mp hid)
    exact Or.inl rfl

/-- Adding transactions with new ids keeps the state tied. -/
lemma step_add : s'.Tied u where
  user := (step_currentUser (by simp) (by simp) hs).trans h.user
  ids := h.ids.step_add hnodup (fun p hp => (hfresh p hp).2) hs
  answers := step_answersSound (by simp) h.answers hs
  noFetch := (requests_step_add hs).symm ▸ h.noFetch
  distinct := h.distinct_add hnodup hfresh hs
  covered := h.covered_add hfresh hs
  updates := h.updates_add hfresh hs
  removes := h.removes_add hfresh hs
  tied := h.tied_add hnodup hfresh hs
  orphan := h.orphan_add hs

end Tied

end Add

/-- Every event of a session without faults keeps the state tied. -/
theorem Tied.step [FIRTimestamp] (h : s.Tied u) {e : Event} (hc : s.ClientStep e)
    (hs : s.step e = some s') : s'.Tied u := by
  cases e with
  | add added index => exact h.step_add hc.1 hc.2 hs
  | save r e => exact h.step_save hc hs
  | remove x =>
      cases x with
      | none => cases hs; exact h
      | some x => exact h.step_remove hs
  | answer i documents => exact h.step_answer hs
  | deliver i outcome =>
      obtain rfl : outcome = .succeeded [] := hc
      obtain ⟨q, a, hi, ⟨ho, -⟩ | ⟨documents, refused, rfl, -, -⟩⟩ := step_deliver_iff.mp hs
      · cases ho
      · cases q with
        | getTransactionsForUser v => exact absurd rfl (h.noFetch _ (List.mem_of_getElem? hi) v)
        | removeTransactionFromDatabase x => exact h.step_deliver_remove hi hs
        | updateTransactionInDatabase x r => exact h.step_deliver_update hi hs
  | _ => exact hc.elim

/-- **Convergence.**  Let the store of the signed-in user `u`, with distinct ids, agree with
the documents of `u`, and let no query be outstanding.  After any sequence of additions with
fresh ids, edits of objects of the store and deletions, interleaved in any order with the
evaluation of the queries and with their callbacks, the two sides agree again as soon as no
query is outstanding. -/
theorem agree_of_run [FIRTimestamp] {s t : App} {es : List Event} (run : Run App.step s es t)
    (client : EachStep App.step ClientStep s es) (user : s.currentUser = some u)
    (ids : s.IdsDistinct) (agree : s.Agree u) (start : s.requests = [])
    (done : t.requests = []) : t.Agree u ∧ t.IdsDistinct := by
  have h : t.Tied u :=
    run.invariant (fun _ _ _ h hc hs => Tied.step h hc hs) client
      (.of_agree user ids agree start)
  exact ⟨h.agree done, h.ids⟩

/-- A store of one transaction and its document. -/
def oneTransaction : App where
  heap := ⟨[.make "a" .income .sport 5 0]⟩
  shared := [0]
  currentUser := some "u"
  listeners := []
  collection := Collection.empty.addDocument "d"
    ((Transaction.make "a" .income .sport 5 0).addDocumentData "u")
  requests := []

/-- A transaction is added; the old one is edited, and while the update waits for its query the
new one is deleted and the old one is edited again. -/
def interleaved : List Event :=
  let a := (Transaction.make "a" .income .sport 5 0).addDocumentData "u"
  let b := (Transaction.make "b" .expense .fuel 7 1).addDocumentData "u"
  [.add [(.make "b" .expense .fuel 7 1, some "e")] none,
    .save 0 ⟨some .expense, some .kids, 6, 2⟩, .answer 0 [⟨"d", a⟩],
    .remove (some "b"), .save 0 ⟨some .income, some .travel, 8, 3⟩,
    .answer 2 [⟨"d", a⟩], .deliver 2 (.succeeded []), .answer 1 [⟨"e", b⟩],
    .deliver 1 (.succeeded []), .deliver 0 (.succeeded [])]

theorem interleaved_agrees : ∃ t, Run App.step oneTransaction interleaved t ∧ t.Agree "u" :=
  have run : Run App.step oneTransaction interleaved _ := exec_eq_some_iff.mp rfl
  ⟨_, run, (agree_of_run run (by decide) rfl ⟨by decide, by decide⟩ (.refl _) rfl rfl).1⟩

end App

end SpendingTracker
