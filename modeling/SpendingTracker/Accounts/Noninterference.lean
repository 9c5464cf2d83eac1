import SpendingTracker.Sync.Ids

/-!
# Noninterference between accounts

All users share one collection.  A session is loaded by a query for the owner, but updates and
deletions select documents by the id of the transaction alone, whoever owns them.

What becomes of the user's own documents never depends on the documents of others: `App.view`
collects what the session depends on, and related events keep equal views equal.  The documents
of others are safe exactly if none of them carries the id of a document of the user.
-/

namespace SpendingTracker

open Lib

/-- The documents of the others, and of nobody. -/
def foreignDocuments (u : String) (c : Transactions) : List Doc :=
  c.documents.filter fun d => docOwner d ≠ some (.string u)

lemma mem_foreignDocuments {u : String} {c : Transactions} {d : Doc} :
    d ∈ foreignDocuments u c ↔ d ∈ c.documents ∧ docOwner d ≠ some (.string u) := by
  simp [foreignDocuments]

/-- Among documents, the identifiers of those that the user owns. -/
def ownIDs (u : String) (documents : List Doc) : Finset String :=
  ((documents.filter fun d => docOwner d = some (.string u)).map Document.documentID).toFinset

lemma mem_ownIDs {u : String} {documents : List Doc} {i : String} :
    i ∈ ownIDs u documents ↔
      ∃ d ∈ documents, docOwner d = some (.string u) ∧ d.documentID = i := by
  simp [ownIDs, and_assoc]

namespace App

variable {u : String} {s s' s₁ s₂ t₁ t₂ : App} {e e₁ e₂ : Event}

/-- What happens in a session: transactions with fresh ids are added, objects are edited, the
transactions of objects are deleted, and queries are answered and end in any way. -/
def SessionStep (s : App) : Event → Prop
  | .add added index => s.FreshIds (.add added index)
  | .save _ _ => True
  | .remove x => ∃ r < s.heap.size, (s.transaction r).id = x
  | .answer _ _ | .deliver _ _ => True
  | _ => False

/-- The same step in two sessions: the answer to a query may differ. -/
inductive SameStep : Event → Event → Prop
  | add (added : List (Transaction × Option String)) (index : Option ℕ) :
      SameStep (.add added index) (.add added index)
  | save (r : Ref) (edit : Edit) : SameStep (.save r edit) (.save r edit)
  | remove (x : Option String) : SameStep (.remove x) (.remove x)
  | answer (i : ℕ) (documents documents' : List Doc) :
      SameStep (.answer i documents) (.answer i documents')
  | deliver (i : ℕ) (outcome : Outcome) : SameStep (.deliver i outcome) (.deliver i outcome)

lemma SameStep.symm (h : SameStep e₁ e₂) : SameStep e₂ e₁ := by
  cases h with
  | add added index => exact .add added index
  | save r edit => exact .save r edit
  | remove x => exact .remove x
  | answer i documents documents' => exact .answer i documents' documents
  | deliver i outcome => exact .deliver i outcome

/-! ### What a session depends on -/

/-- What the session of a user depends on. -/
structure View where
  heap : Heap Transaction
  shared : List Ref
  /-- The user's documents. -/
  documents : Multiset Doc
  /-- The outstanding queries; of an answer, the identifiers of the user's documents. -/
  requests : List (Query × Option (Finset String))

/-- The view of the user `u`. -/
def view (u : String) (s : App) : View where
  heap := s.heap
  shared := s.shared
  documents := userDocuments u s.collection
  requests := s.requests.map fun q => (q.query, q.answer.map (ownIDs u))

lemma view_eq_iff : s₁.view u = s₂.view u ↔ s₁.heap = s₂.heap ∧ s₁.shared = s₂.shared ∧
    (userDocuments u s₁.collection).Perm (userDocuments u s₂.collection) ∧
    s₁.requests.map (fun q => (q.query, q.answer.map (ownIDs u))) =
      s₂.requests.map fun q => (q.query, q.answer.map (ownIDs u)) := by
  simp only [view, View.mk.injEq, Multiset.coe_eq_coe]

/-- The state belongs to a session of the user `u`. -/
structure InSession (u : String) (s : App) : Prop where
  user : s.currentUser = some u
  answers : s.AnswersSound
  noFetch : ∀ q ∈ s.requests, ∀ v, q.query ≠ .getTransactionsForUser v

/-- The user's documents that a sound answer makes a callback write to. -/
lemma AnswerSound.mem_written_iff {c : Transactions} {q : Query} {documents : List Doc}
    (h : AnswerSound c q documents) {refused : List String} {d : Doc}
    (hd : d ∈ userDocuments u c) :
    d.documentID ∈ written documents refused ↔
      d.documentID ∈ ownIDs u documents ∧ d.documentID ∉ refused := by
  obtain ⟨hmem, howner⟩ := mem_userDocuments.mp hd
  rw [mem_written, mem_ownIDs]
  refine and_congr_left fun _ => ⟨?_, ?_⟩
  · rintro ⟨d', hd', heq⟩
    exact ⟨d', hd', (h.same d' hd' d hmem heq.symm).owner.trans howner, heq⟩
  · rintro ⟨d', hd', -, heq⟩
    exact ⟨d', hd', heq⟩

/-- The user's documents that a query selects. -/
lemma mem_ownIDs_select {q : Query} {c : Transactions} {documents : List Doc}
    (hperm : documents.Perm (q.select c)) {i : String} :
    i ∈ ownIDs u documents ↔ ∃ d ∈ userDocuments u c, q.Matches d ∧ d.documentID = i := by
  simp only [mem_ownIDs, hperm.mem_iff, Query.mem_select, mem_userDocuments]
  constructor
  · rintro ⟨d, ⟨hd, hq⟩, howner, hid⟩
    exact ⟨d, ⟨hd, howner⟩, hq, hid⟩
  · rintro ⟨d, ⟨hd, howner⟩, hq, hid⟩
    exact ⟨d, ⟨hd, hq⟩, howner, hid⟩

lemma AnswerSound.userDocuments_deleteAll {c : Transactions} {q : Query} {documents : List Doc}
    (h : AnswerSound c q documents) (refused : List String) :
    userDocuments u (c.deleteAll (written documents refused)) =
      (userDocuments u c).filter fun d =>
        ¬ (d.documentID ∈ ownIDs u documents ∧ d.documentID ∉ refused) := by
  have hcomm : userDocuments u (c.deleteAll (written documents refused)) =
      (userDocuments u c).filter fun d => d.documentID ∉ written documents refused := by
    simp only [userDocuments, Collection.whereField, Collection.documents_deleteAll]
    exact List.filter_comm _ _ _
  rw [hcomm]
  exact List.filter_congr fun d hd => decide_eq_decide.mpr (not_congr (h.mem_written_iff hd))

section Sessions

variable [FIRTimestamp]

lemma InSession.step (h : s.InSession u) (he : SameStep e e₂) (hs : s.step e = some s') :
    s'.InSession u := by
  have hlocal : ∀ c, e ≠ .remote c := by
    rintro c rfl
    cases he
  refine ⟨?_, step_answersSound hlocal h.answers hs, fun q hq v hquery => ?_⟩
  · refine (step_currentUser ?_ ?_ hs).trans h.user <;> cases he <;> simp
  · rcases step_queries hs hq with ⟨q₀, hq₀, heq⟩ | hissues
    · exact h.noFetch q₀ hq₀ v (heq.trans hquery)
    · rw [hquery] at hissues
      cases hissues
      cases he

lemma AnswerSound.userDocuments_updateAll {c : Transactions} {q : Query} {documents : List Doc}
    (h : AnswerSound c q documents) (refused : List String) (t : Transaction) :
    userDocuments u (c.updateAll (written documents refused) t.updateData) =
      (userDocuments u c).map fun d =>
        if d.documentID ∈ ownIDs u documents ∧ d.documentID ∉ refused then
          d.overwrite t.updateData
        else d := by
  have hcomm : userDocuments u (c.updateAll (written documents refused) t.updateData) =
      (userDocuments u c).map fun d =>
        if d.documentID ∈ written documents refused then d.overwrite t.updateData else d := by
    simp only [userDocuments, Collection.whereField, Collection.documents_updateAll,
      List.filter_map]
    congr 1
    refine List.filter_congr fun d _ => decide_eq_decide.mpr ?_
    beta_reduce
    split_ifs
    · exact Iff.of_eq (congrArg (· = _) (sameDocument_overwrite d t).owner.symm)
    · rfl
  rw [hcomm]
  exact List.map_congr_left fun d hd => if_congr (h.mem_written_iff hd) rfl rfl

/-! ### Equal views stay equal -/

lemma view_step_add {added : List (Transaction × Option String)} {index : Option ℕ}
    (hview : s₁.view u = s₂.view u) (h₁ : s₁.InSession u) (h₂ : s₂.InSession u)
    (hs₁ : s₁.step (.add added index) = some t₁) (hs₂ : s₂.step (.add added index) = some t₂) :
    t₁.view u = t₂.view u := by
  obtain ⟨hheap, hshared, hdocs, hrequests⟩ := view_eq_iff.mp hview
  obtain ⟨⟨hnodup, hnew₁⟩, front, back, hold, hindex, rfl⟩ := step_add_iff.mp hs₁
  obtain ⟨⟨-, hnew₂⟩, -⟩ := step_add_iff.mp hs₂
  have hs₂' := step_add_iff.mpr
    ⟨⟨hnodup, hnew₂⟩, front, back, hshared ▸ hold, hindex, rfl⟩
  -- the second session can only make the same step
  cases hs₂.symm.trans hs₂'
  refine view_eq_iff.mpr ⟨by rw [hheap], by rw [hheap], ?_, hrequests⟩
  simp only [userDocuments_collectionAfterAdd h₁.user hnodup hnew₁,
    userDocuments_collectionAfterAdd h₂.user hnodup hnew₂]
  exact hdocs.append_right _

lemma view_step_save {r : Ref} {edit : Edit} (hview : s₁.view u = s₂.view u)
    (hs₁ : s₁.step (.save r edit) = some t₁) (hs₂ : s₂.step (.save r edit) = some t₂) :
    t₁.view u = t₂.view u := by
  obtain ⟨hheap, hshared, hdocs, hrequests⟩ := view_eq_iff.mp hview
  have htransaction : s₁.transaction = s₂.transaction := by
    simp only [transaction_eq_read, hheap]
  have hsaved : s₁.heapAfterSave r edit = s₂.heapAfterSave r edit := by
    simp only [heapAfterSave, hheap, htransaction]
  obtain ⟨hr, ⟨hno, rfl⟩ | ⟨front, x, back, hold, hfront, hx, i, hi, rfl⟩⟩ := step_save_iff.mp hs₁
  · have hno₂ : ¬ s₂.Finds r := by
      rw [Finds, ← hshared, ← htransaction]
      exact hno
    cases hs₂.symm.trans (step_save_iff.mpr ⟨hheap ▸ hr, Or.inl ⟨hno₂, rfl⟩⟩)
    exact view_eq_iff.mpr ⟨hsaved, hshared, hdocs, hrequests⟩
  · rw [htransaction] at hfront hx hi
    cases hs₂.symm.trans (step_save_iff.mpr ⟨hheap ▸ hr,
      Or.inr ⟨front, x, back, hshared ▸ hold, hfront, hx, i, hi, rfl⟩⟩)
    refine view_eq_iff.mpr ⟨hsaved, rfl, hdocs, ?_⟩
    rw [List.map_append, List.map_append, hrequests]

lemma view_step_remove {x : Option String} (hview : s₁.view u = s₂.view u)
    (hs₁ : s₁.step (.remove x) = some t₁) (hs₂ : s₂.step (.remove x) = some t₂) :
    t₁.view u = t₂.view u := by
  obtain ⟨hheap, hshared, hdocs, hrequests⟩ := view_eq_iff.mp hview
  have htransaction : s₁.transaction = s₂.transaction := by
    simp only [transaction_eq_read, hheap]
  cases x with
  | none =>
      cases hs₁
      cases hs₂
      exact hview
  | some x =>
      rw [step_remove_some] at hs₁ hs₂
      cases hs₁
      cases hs₂
      refine view_eq_iff.mpr ⟨hheap, ?_, hdocs, ?_⟩
      · simp only [hshared, htransaction]
      · rw [List.map_append, List.map_append, hrequests]

omit [FIRTimestamp] in
/-- The outstanding query at a position, as it is seen. -/
lemma view_request (hview : s₁.view u = s₂.view u) {i : ℕ} {q₁ q₂ : Request}
    (hq₁ : s₁.requests[i]? = some q₁) (hq₂ : s₂.requests[i]? = some q₂) :
    q₁.query = q₂.query ∧ q₁.answer.map (ownIDs u) = q₂.answer.map (ownIDs u) := by
  have hi := congrArg (fun l => l[i]?) (view_eq_iff.mp hview).2.2.2
  simpa [List.getElem?_map, hq₁, hq₂] using hi

lemma view_step_answer {i : ℕ} {documents documents' : List Doc} (hview : s₁.view u = s₂.view u)
    (hs₁ : s₁.step (.answer i documents) = some t₁)
    (hs₂ : s₂.step (.answer i documents') = some t₂) : t₁.view u = t₂.view u := by
  obtain ⟨hheap, hshared, hdocs, hrequests⟩ := view_eq_iff.mp hview
  obtain ⟨q, hi, hperm, rfl⟩ := step_answer_iff.mp hs₁
  obtain ⟨q', hi', hperm', rfl⟩ := step_answer_iff.mp hs₂
  obtain rfl : q = q' := (view_request hview hi hi').1
  have hfound : ownIDs u documents = ownIDs u documents' := by
    ext j
    simp only [mem_ownIDs_select hperm, mem_ownIDs_select hperm', hdocs.mem_iff]
  refine view_eq_iff.mpr ⟨hheap, hshared, hdocs, ?_⟩
  simp only [List.map_set, hrequests, Option.map_some, hfound]

lemma view_step_deliver {i : ℕ} {outcome : Outcome} (hview : s₁.view u = s₂.view u)
    (h₁ : s₁.InSession u) (h₂ : s₂.InSession u) (hs₁ : s₁.step (.deliver i outcome) = some t₁)
    (hs₂ : s₂.step (.deliver i outcome) = some t₂) : t₁.view u = t₂.view u := by
  obtain ⟨hheap, hshared, hdocs, hrequests⟩ := view_eq_iff.mp hview
  have herase : (s₁.requests.eraseIdx i).map (fun q => (q.query, q.answer.map (ownIDs u))) =
      (s₂.requests.eraseIdx i).map fun q => (q.query, q.answer.map (ownIDs u)) := by
    rw [← List.eraseIdx_map, ← List.eraseIdx_map, hrequests]
  obtain ⟨q, a, hi, hcase₁⟩ := step_deliver_iff.mp hs₁
  obtain ⟨q', a', hi', hcase₂⟩ := step_deliver_iff.mp hs₂
  obtain ⟨rfl, ha⟩ : q = q' ∧ _ := view_request hview hi hi'
  rcases hcase₁ with ⟨rfl, rfl⟩ | ⟨documents, refused, rfl, rfl, rfl⟩
  · rcases hcase₂ with ⟨-, rfl⟩ | ⟨documents', refused', -, ho, -⟩
    · exact view_eq_iff.mpr ⟨hheap, hshared, hdocs, herase⟩
    · cases ho
  · rcases hcase₂ with ⟨ho, -⟩ | ⟨documents', refused', rfl, ho, rfl⟩
    · cases ho
    cases ho
    -- the answers may differ in the documents of others, which the callback does not reach
    have hfound : ownIDs u documents = ownIDs u documents' := by simpa using ha
    have hsound := h₁.answers _ (List.mem_of_getElem? hi) documents rfl
    have hsound' := h₂.answers _ (List.mem_of_getElem? hi') documents' rfl
    cases q with
    -- no fetch is outstanding in a session
    | getTransactionsForUser v => exact absurd rfl (h₁.noFetch _ (List.mem_of_getElem? hi) v)
    | removeTransactionFromDatabase x =>
        refine view_eq_iff.mpr ⟨hheap, hshared, ?_, herase⟩
        simp only [callback, hsound.userDocuments_deleteAll, hsound'.userDocuments_deleteAll,
          hfound]
        exact hdocs.filter _
    | updateTransactionInDatabase x r =>
        refine view_eq_iff.mpr ⟨hheap, hshared, ?_, herase⟩
        simp only [callback, hsound.userDocuments_updateAll, hsound'.userDocuments_updateAll,
          hfound, transaction_mk, hheap]
        exact hdocs.map _

/-- The same step keeps equal views equal. -/
theorem view_step (he : SameStep e₁ e₂) (hview : s₁.view u = s₂.view u) (h₁ : s₁.InSession u)
    (h₂ : s₂.InSession u) (hs₁ : s₁.step e₁ = some t₁) (hs₂ : s₂.step e₂ = some t₂) :
    t₁.view u = t₂.view u := by
  cases he with
  | add added index => exact view_step_add hview h₁ h₂ hs₁ hs₂
  | save r edit => exact view_step_save hview hs₁ hs₂
  | remove x => exact view_step_remove hview hs₁ hs₂
  | answer i documents documents' => exact view_step_answer hview hs₁ hs₂
  | deliver i outcome => exact view_step_deliver hview h₁ h₂ hs₁ hs₂

lemma inSession_session (documents : List Doc) (c : Transactions) :
    (session u documents c).InSession u :=
  ⟨rfl, answersSound_of_requests_eq_nil rfl, by simp [session, load, setTransactions]⟩

/-- Two runs of the same session over collections with the same documents of the user end with
the same documents of the user. -/
theorem userDocuments_of_runs {documents : List Doc} {c c' : Transactions} {es es' : List Event}
    {t t' : App} (hc : (userDocuments u c).Perm (userDocuments u c'))
    (run : Run App.step (session u documents c) es t)
    (run' : Run App.step (session u documents c') es' t') (same : List.Forall₂ SameStep es es') :
    (userDocuments u t.collection).Perm (userDocuments u t'.collection) := by
  have hstart : (session u documents c).view u = (session u documents c').view u :=
    view_eq_iff.mpr ⟨rfl, rfl, hc, rfl⟩
  have hend := run.related
    (R := fun s₁ s₂ => s₁.view u = s₂.view u ∧ s₁.InSession u ∧ s₂.InSession u) (E := SameStep)
    (fun s₁ s₂ e₁ e₂ t₁ t₂ h he hs₁ hs₂ => ⟨view_step he h.1 h.2.1 h.2.2 hs₁ hs₂,
      h.2.1.step he hs₁, h.2.2.step he.symm hs₂⟩)
    run' same ⟨hstart, inSession_session _ _, inSession_session _ _⟩
  exact (view_eq_iff.mp hend.1).2.2.1

/-! ### The documents of others -/

/-- No document of the others carries the id `x`. -/
def NotForeign (u : String) (c : Transactions) (x : String) : Prop :=
  ∀ d ∈ foreignDocuments u c, docId d ≠ some (.string x)

/-- The session and its queries know no id of a document of the others, and these documents are
those of the collection `c`. -/
structure Harmless (u : String) (c : Transactions) (s : App) : Prop where
  session : s.InSession u
  objects : ∀ r x, (s.transaction r).id = some x → NotForeign u c x
  queries : ∀ q ∈ s.requests, ∀ x, q.query.transactionId = some x → NotForeign u c x
  foreign : foreignDocuments u s.collection = foreignDocuments u c

namespace Harmless

variable {c : Transactions}

lemma objects_step (h : s.Harmless u c) (hc : s.SessionStep e) (hs : s.step e = some s') :
    ∀ r x, (s'.transaction r).id = some x → NotForeign u c x := by
  have hstore := step_store hs
  rw [transaction_eq_read]
  generalize s'.heap = heap, s'.shared = shared at hstore
  cases hstore with
  | fetched hf =>
      obtain ⟨i, refused, rfl, hi⟩ := fetched_eq_some_iff.mp hf
      exact absurd rfl (h.session.noFetch _ (List.mem_of_getElem? hi) _)
  | @added added index front back hold =>
      intro r x hr
      by_cases hlt : r < s.heap.size
      · rw [Heap.read_create_of_lt hlt] at hr
        exact h.objects r x hr
      -- a new object has a fresh id, which no document carries
      · have hmem : r ∈ s.heap.created (added.map Prod.fst) := by
          refine Heap.mem_created.mpr ⟨Nat.le_of_not_lt hlt, ?_⟩
          by_contra hsize
          rw [Heap.read_of_size_le (by simpa using hsize)] at hr
          cases hr
        obtain ⟨p, hp, heq⟩ := List.mem_map.mp (Heap.read_mem_of_mem_created hmem)
        obtain ⟨y, hy, hun⟩ := hc.2 p hp
        rw [← heq, hy] at hr
        cases hr
        intro d hd hid
        rw [← h.foreign] at hd
        exact hun (Or.inr (Or.inl ⟨d, (mem_foreignDocuments.mp hd).1, hid⟩))
  | saved _ _ =>
      intro r x hr
      rw [id_read_heapAfterSave] at hr
      exact h.objects r x hr
  | removed => exact h.objects
  | unchanged _ _ => exact h.objects

lemma queries_step (h : s.Harmless u c) (hc : s.SessionStep e) (hs : s.step e = some s') :
    ∀ q ∈ s'.requests, ∀ x, q.query.transactionId = some x → NotForeign u c x := by
  intro q hq x hx
  rcases step_queries hs hq with ⟨q₀, hq₀, heq⟩ | hissues
  · exact h.queries q₀ hq₀ x (heq ▸ hx)
  · generalize q.query = query at hissues hx
    cases hissues with
    | fetch _ => cases hx
    | update _ hid =>
        cases hx
        exact h.objects _ _ hid
    | remove =>
        cases hx
        obtain ⟨r, -, hid⟩ := hc
        exact h.objects r _ hid

omit [FIRTimestamp] in
/-- A callback whose query asks for an id that no document of the others carries does not write
to these documents. -/
lemma notMem_written (h : s.Harmless u c) {i : ℕ} {q : Query} {x : String} {documents : List Doc}
    (hi : s.requests[i]? = some ⟨q, some documents⟩) (hx : q.transactionId = some x)
    (refused : List String) {d : Doc} (hd : d ∈ foreignDocuments u s.collection) :
    d.documentID ∉ written documents refused := by
  intro hw
  have hmem := List.mem_of_getElem? hi
  have hmatch := (h.session.answers _ hmem documents rfl).matches_of_written
    (mem_foreignDocuments.mp hd).1 hw
  refine h.queries _ hmem x hx d (h.foreign ▸ hd) ?_
  cases q with
  | getTransactionsForUser v => cases hx
  | removeTransactionFromDatabase y => cases hx; exact hmatch
  | updateTransactionInDatabase y r => cases hx; exact hmatch

lemma foreign_step (h : s.Harmless u c) (hc : s.SessionStep e) (hs : s.step e = some s') :
    foreignDocuments u s'.collection = foreignDocuments u c := by
  have hcollection := step_collection hs
  generalize s'.collection = c' at hcollection
  rw [← h.foreign]
  cases hcollection with
  | deleted hi =>
      rename_i i x documents refused
      rw [foreignDocuments, Collection.documents_deleteAll, List.filter_comm]
      exact List.filter_eq_self.mpr fun d hd =>
        decide_eq_true (h.notMem_written hi rfl refused hd)
  | overwritten hi =>
      rename_i i x r documents refused
      rw [foreignDocuments, Collection.documents_updateAll, List.filter_map]
      have hfilter : s.collection.documents.filter
          ((fun d => decide (docOwner d ≠ some (.string u))) ∘ fun d =>
            if d.documentID ∈ written documents refused then
              d.overwrite (s.transaction r).updateData else d) =
          foreignDocuments u s.collection := by
        refine List.filter_congr fun d _ => ?_
        simp only [Function.comp_apply]
        split_ifs
        · rw [(sameDocument_overwrite d (s.transaction r)).owner]
        · rfl
      rw [hfilter]
      refine (List.map_congr_left fun d hd => ?_).trans (List.map_id _)
      rw [if_neg (h.notMem_written hi rfl refused hd), id]
  | added hnodup hnew =>
      rename_i added index
      have hown : (newDocuments u added).filter
          (fun d => docOwner d ≠ some (.string u)) = [] := by
        refine List.filter_eq_nil_iff.mpr fun d hd => ?_
        obtain ⟨t, i, -, rfl⟩ := mem_newDocuments.mp hd
        simp [docOwner]
      rw [foreignDocuments, documents_collectionAfterAdd hnodup hnew, h.session.user,
        List.filter_append, hown, List.append_nil]
      rfl
  | remote => exact hc.elim
  | unchanged => rfl

lemma step (h : s.Harmless u c) (hc : s.SessionStep e) (hs : s.step e = some s') :
    s'.Harmless u c := by
  have hsame : SameStep e e := by
    cases e with
    | add added index => exact .add added index
    | save r edit => exact .save r edit
    | remove x => exact .remove x
    | answer i documents => exact .answer i documents documents
    | deliver i outcome => exact .deliver i outcome
    | _ => exact hc.elim
  exact ⟨h.session.step hsame hs, h.objects_step hc hs, h.queries_step hc hs,
    h.foreign_step hc hs⟩

end Harmless

/-! ### The exact condition -/

/-- No document of the others carries the id of a document of the user. -/
def IdsUnshared (u : String) (c : Transactions) : Prop :=
  ∀ d ∈ userDocuments u c, ∀ x, docId d = some (.string x) → NotForeign u c x

/-- What the accounts of others and the account of the user `u` may expect of every session of
`u` over the collection `c`, whose requests have all been completed. -/
structure Noninterference (u : String) (c : Transactions) : Prop where
  /-- The documents of the others are as before. -/
  foreign : ∀ documents es t, documents.Perm (userDocuments u c) →
    Run App.step (session u documents c) es t →
    EachStep App.step SessionStep (session u documents c) es → t.requests = [] →
    foreignDocuments u t.collection = foreignDocuments u c
  /-- The documents of the user do not depend on those of the others. -/
  own : ∀ documents c' es es' t t', documents.Perm (userDocuments u c) →
    documents.Perm (userDocuments u c') →
    Run App.step (session u documents c) es t → Run App.step (session u documents c') es' t' →
    List.Forall₂ SameStep es es' → t.requests = [] → t'.requests = [] →
    (userDocuments u t.collection).Perm (userDocuments u t'.collection)

/-- The start of a session. -/
lemma harmless_session {documents : List Doc} {c : Transactions}
    (hperm : documents.Perm (userDocuments u c)) (h : IdsUnshared u c) :
    (session u documents c).Harmless u c := by
  refine ⟨inSession_session _ _, fun r x hr => ?_, by simp [session, load, setTransactions], rfl⟩
  have hlt : r < (session u documents c).heap.size :=
    IdsDistinct.lt_size_of_id (by simp [hr])
  obtain ⟨d, hd, heq⟩ := List.mem_map.mp (Heap.read_mem hlt)
  exact h d (hperm.mem_iff.mp hd) x
    (id_decode_eq_some_iff.mp ((congrArg Transaction.id heq).trans hr))

/-- The session in which the user deletes the transaction with the id `x`. -/
def deletion (x : String) (c : Transactions) : List Event :=
  [.remove (some x), .answer 0 (c.whereField "id" (.string x)), .deliver 0 (.succeeded [])]

/-- Deleting a transaction of the user deletes all documents with its id. -/
lemma deletion_run {c : Transactions} {x : String} {d : Doc} (hd : d ∈ userDocuments u c)
    (hid : docId d = some (.string x)) : ∃ t,
    Run App.step (session u (userDocuments u c) c) (deletion x c) t ∧
    EachStep App.step SessionStep (session u (userDocuments u c) c) (deletion x c) ∧
    t.requests = [] ∧ ∀ d' ∈ t.collection.documents, docId d' ≠ some (.string x) := by
  have hobject : ∃ r < (session u (userDocuments u c) c).heap.size,
      ((session u (userDocuments u c) c).transaction r).id = some x := by
    have hmem : decode d.data ∈ ((⟨[]⟩ : Heap Transaction).created (loaded (userDocuments u c))).map
        ((⟨[]⟩ : Heap Transaction).create (loaded (userDocuments u c))).read := by
      rw [Heap.map_read_created]
      exact List.mem_map_of_mem hd
    obtain ⟨r, hr, heq⟩ := List.mem_map.mp hmem
    refine ⟨r, ?_, ?_⟩
    · exact (Heap.mem_created.mp hr).2.trans_eq Heap.size_create.symm
    · exact (congrArg Transaction.id heq).trans (id_decode_eq_some_iff.mpr hid)
  refine ⟨_, .cons (step_remove_some x) (.cons (step_answer_iff.mpr ⟨_, rfl, .refl _, rfl⟩)
    (.cons (step_deliver_iff.mpr ⟨_, _, rfl, Or.inr ⟨_, [], rfl, rfl, rfl⟩⟩) (.nil _))),
    ⟨hobject, fun _ _ => ⟨trivial, fun _ _ => ⟨trivial, fun _ _ => trivial⟩⟩⟩, rfl, ?_⟩
  intro d' hd' hid'
  obtain ⟨hmem, hnot⟩ := Collection.mem_deleteAll.mp hd'
  exact hnot (mem_written.mpr ⟨⟨d', Collection.mem_whereField.mpr ⟨hmem, hid'⟩, rfl⟩, by simp⟩)

/-- **Noninterference holds exactly when no id is shared.**  Every session of the user `u` over
the collection leaves the documents of the others alone, and what becomes of the documents of
`u` does not depend on them, exactly when no document of the others carries the id of a document
of `u`. -/
theorem noninterference_iff (u : String) (c : Transactions) :
    Noninterference u c ↔ IdsUnshared u c := by
  constructor
  -- if an id is shared, deleting the transaction of the user shows it
  · intro h d hd x hid d' hd' hid'
    obtain ⟨t, run, session, done, hgone⟩ := deletion_run hd hid
    rw [← h.foreign _ _ t (.refl _) run session done] at hd'
    exact hgone d' (mem_foreignDocuments.mp hd').1 hid'
  · intro h
    refine ⟨fun documents es t hperm run session _ => ?_,
      fun documents c' es es' t t' hperm hperm' run run' same _ _ => ?_⟩
    · have hend : t.Harmless u c := run.invariant (fun _ _ _ h hc hs => Harmless.step h hc hs)
        session (harmless_session hperm h)
      exact hend.foreign
    · exact userDocuments_of_runs (hperm.symm.trans hperm') run run' same

end Sessions

/-- Documents of two users with the same id. -/
def sharedId : Transactions :=
  (Collection.empty.addDocument "d" ((Transaction.make "x" .income .sport 5 0).addDocumentData "u")
    ).addDocument "e" ((Transaction.make "x" .expense .fuel 7 1).addDocumentData "v")

/-- The user `u` deletes the transaction, and the document of `v` is gone. -/
theorem sharedId_deleted : ∃ t,
    Run App.step (session "u" (userDocuments "u" sharedId) sharedId) (deletion "x" sharedId) t ∧
    EachStep App.step SessionStep (session "u" (userDocuments "u" sharedId) sharedId)
      (deletion "x" sharedId) ∧
    t.requests = [] ∧ (foreignDocuments "u" sharedId).map Document.documentID = ["e"] ∧
    foreignDocuments "u" t.collection = [] ∧ ¬ Noninterference "u" sharedId := by
  have run : Run App.step (session "u" (userDocuments "u" sharedId) sharedId)
    (deletion "x" sharedId) _ := exec_eq_some_iff.mp rfl
  have steps : EachStep App.step SessionStep (session "u" (userDocuments "u" sharedId) sharedId)
      (deletion "x" sharedId) :=
    ⟨⟨0, by decide, rfl⟩, fun _ _ => ⟨trivial, fun _ _ => ⟨trivial, fun _ _ => trivial⟩⟩⟩
  refine ⟨_, run, steps, rfl, rfl, rfl, fun h => ?_⟩
  exact absurd (h.foreign _ _ _ (.refl _) run steps rfl) (by decide)

end App

end SpendingTracker
