import SpendingTracker.Model.Steps

/-!
# The identity of documents and the answers to queries

The app never overwrites the fields `id` and `user_id` of a document, and generated document
identifiers are new.  An answer that is on its way to its callback may be out of date in every
other respect, but the identifiers in it still denote documents with the id and the owner the
query has selected them for.  `AnswersSound` states this; every event of the app preserves it.
-/

namespace SpendingTracker

open Lib

/-- The value of the field `id`. -/
def docId (d : Doc) : Option Value := d.data.lookup "id"

/-- The id of the transaction that is loaded from the document. -/
def loadedId (d : Doc) : Option String := (docId d).bind Value.asString

/-- The value of the field `user_id`. -/
def docOwner (d : Doc) : Option Value := d.data.lookup "user_id"

lemma loadedId_eq_some_iff {d : Doc} {x : String} :
    loadedId d = some x ↔ docId d = some (.string x) := by
  simp [loadedId, Option.bind_eq_some_iff, Value.asString_eq_some_iff]

/-- Two versions of one document: they agree in the identifier and in the fields that are
written at its creation only. -/
structure SameDocument (d d' : Doc) : Prop where
  documentID : d.documentID = d'.documentID
  id : docId d = docId d'
  owner : docOwner d = docOwner d'

namespace SameDocument

variable {d d' d'' : Doc}

lemma refl (d : Doc) : SameDocument d d := ⟨rfl, rfl, rfl⟩

lemma trans (h : SameDocument d d') (h' : SameDocument d' d'') : SameDocument d d'' :=
  ⟨h.documentID.trans h'.documentID, h.id.trans h'.id, h.owner.trans h'.owner⟩

lemma symm (h : SameDocument d d') : SameDocument d' d :=
  ⟨h.documentID.symm, h.id.symm, h.owner.symm⟩

end SameDocument

lemma sameDocument_overwrite [FIRTimestamp] (d : Doc) (t : Transaction) :
    SameDocument d (d.overwrite t.updateData) where
  documentID := rfl
  id := (Document.lookup_overwrite_of_notMem (by rw [Transaction.mem_updateData]; decide)).symm
  owner := (Document.lookup_overwrite_of_notMem (by rw [Transaction.mem_updateData]; decide)).symm

/-- Whether or not a document is overwritten, it stays the same document. -/
lemma sameDocument_ite [FIRTimestamp] (d : Doc) (t : Transaction) (p : Prop) [Decidable p] :
    SameDocument d (if p then d.overwrite t.updateData else d) := by
  split_ifs
  · exact sameDocument_overwrite d t
  · exact .refl d

/-- The documents of a user. -/
def userDocuments (u : String) (c : Transactions) : List Doc :=
  c.whereField "user_id" (.string u)

lemma mem_userDocuments {u : String} {c : Transactions} {d : Doc} :
    d ∈ userDocuments u c ↔ d ∈ c.documents ∧ docOwner d = some (.string u) :=
  Collection.mem_whereField

lemma userDocuments_nodup (u : String) (c : Transactions) : (userDocuments u c).Nodup :=
  List.Nodup.filter _ c.documents_nodup

/-- The document carries the value a query asks for. -/
def Query.Matches (q : Query) (d : Doc) : Prop :=
  match q with
  | getTransactionsForUser userId => docOwner d = some (.string userId)
  | removeTransactionFromDatabase transactionId => docId d = some (.string transactionId)
  | updateTransactionInDatabase transactionId _ => docId d = some (.string transactionId)

lemma Query.mem_select {q : Query} {c : Transactions} {d : Doc} :
    d ∈ q.select c ↔ d ∈ c.documents ∧ q.Matches d := by
  cases q <;> exact Collection.mem_whereField

lemma Query.Matches.of_same {q : Query} {d d' : Doc} (hq : q.Matches d)
    (h : SameDocument d d') : q.Matches d' := by
  cases q with
  | getTransactionsForUser u => exact h.owner.symm.trans hq
  | removeTransactionFromDatabase x => exact h.id.symm.trans hq
  | updateTransactionInDatabase x r => exact h.id.symm.trans hq

namespace App

variable {s s' : App}

lemma mem_written {documents : List Doc} {refused : List String} {i : String} :
    i ∈ written documents refused ↔
      (∃ d ∈ documents, d.documentID = i) ∧ i ∉ refused := by
  simp [written, and_comm]

/-- The documents of every answer on its way carry the value their query asks for. -/
def AnswersMatch (s : App) : Prop :=
  ∀ q ∈ s.requests, ∀ documents, q.answer = some documents → ∀ d ∈ documents, q.query.Matches d

/-- An answer that has found the documents `documents` for the query `q`. -/
structure AnswerSound (c : Transactions) (q : Query) (documents : List Doc) : Prop where
  nodup : (documents.map Document.documentID).Nodup
  found : ∀ d ∈ documents, q.Matches d
  /-- What is left of a document found is still the same document. -/
  same : ∀ d ∈ documents, ∀ d' ∈ c.documents, d'.documentID = d.documentID → SameDocument d d'

/-- Every answer on its way is sound. -/
def AnswersSound (s : App) : Prop :=
  ∀ q ∈ s.requests, ∀ documents, q.answer = some documents →
    AnswerSound s.collection q.query documents

/-- The documents of the collection that a callback writes to are among those its query
selects now. -/
lemma AnswerSound.matches_of_written {c : Transactions} {q : Query} {documents : List Doc}
    (h : AnswerSound c q documents) {refused : List String} {d : Doc} (hd : d ∈ c.documents)
    (hw : d.documentID ∈ written documents refused) : q.Matches d := by
  obtain ⟨⟨e, he, hed⟩, -⟩ := mem_written.mp hw
  exact (h.found e he).of_same (h.same e he d hd hed.symm)

lemma mem_newDocuments [FIRTimestamp] {userId : String}
    {added : List (Transaction × Option String)} {d : Doc} :
    d ∈ newDocuments userId added ↔
      ∃ t i, (t, some i) ∈ added ∧ d = ⟨i, t.addDocumentData userId⟩ := by
  simp only [newDocuments, List.mem_filterMap, Option.map_eq_some_iff, Prod.exists]
  constructor
  · rintro ⟨t, o, hmem, i, rfl, rfl⟩
    exact ⟨t, i, hmem, rfl⟩
  · rintro ⟨t, i, hmem, rfl⟩
    exact ⟨t, some i, hmem, i, rfl, rfl⟩

lemma map_documentID_newDocuments [FIRTimestamp] (userId : String)
    (added : List (Transaction × Option String)) :
    (newDocuments userId added).map Document.documentID = added.filterMap Prod.snd := by
  rw [newDocuments, List.map_filterMap]
  congr 1
  funext p
  cases p.2 <;> rfl

/-- The documents after an addition with new identifiers. -/
lemma documents_collectionAfterAdd [FIRTimestamp] {added : List (Transaction × Option String)}
    (hnodup : (added.filterMap Prod.snd).Nodup)
    (hnew : ∀ i ∈ added.filterMap Prod.snd, ¬ s.Knows i) :
    (s.collectionAfterAdd added).documents = s.collection.documents ++
      (match s.currentUser with
        | none => []
        | some userId => newDocuments userId added) := by
  unfold collectionAfterAdd
  cases s.currentUser with
  | none => simp
  | some u =>
      apply Collection.documents_addAll
      · intro d hd hmem
        refine hnew d.documentID ?_ (Or.inl hmem)
        rw [← map_documentID_newDocuments u]
        exact List.mem_map_of_mem hd
      · rw [map_documentID_newDocuments]
        exact hnodup

/-- The documents of the signed-in user after an addition with new identifiers. -/
lemma userDocuments_collectionAfterAdd [FIRTimestamp] {u : String} (hu : s.currentUser = some u)
    {added : List (Transaction × Option String)} (hnodup : (added.filterMap Prod.snd).Nodup)
    (hnew : ∀ i ∈ added.filterMap Prod.snd, ¬ s.Knows i) :
    userDocuments u (s.collectionAfterAdd added) =
      userDocuments u s.collection ++ newDocuments u added := by
  have hown : ∀ d ∈ newDocuments u added, decide (d.data.lookup "user_id" = some (.string u)) := by
    intro d hd
    obtain ⟨t, i, -, rfl⟩ := mem_newDocuments.mp hd
    simp
  rw [userDocuments, Collection.whereField, documents_collectionAfterAdd hnodup hnew, hu,
    List.filter_append, List.filter_eq_self.mpr hown]
  rfl

/-- **Documents keep their identity.**  After an event of the app, a document is a version of
a document from before, or it was created by an addition under a new identifier. -/
theorem step_documents [FIRTimestamp] {e : Event} (hlocal : ∀ c, e ≠ .remote c)
    (h : s.step e = some s') {d : Doc} (hd : d ∈ s'.collection.documents) :
    (∃ d₀ ∈ s.collection.documents, SameDocument d₀ d) ∨
      ∃ added index u, e = .add added index ∧ s.currentUser = some u ∧
        d ∈ newDocuments u added ∧ ¬ s.Knows d.documentID := by
  have hcollection := step_collection h
  generalize s'.collection = c at hcollection hd
  cases hcollection with
  | deleted _ => exact Or.inl ⟨d, (Collection.mem_deleteAll.mp hd).1, .refl d⟩
  | overwritten _ =>
      obtain ⟨d₀, hd₀, rfl⟩ := Collection.mem_updateAll.mp hd
      exact Or.inl ⟨d₀, hd₀, sameDocument_ite _ _ _⟩
  | @added added index hnodup hnew =>
      rw [documents_collectionAfterAdd hnodup hnew, List.mem_append] at hd
      rcases hd with hd | hd
      · exact Or.inl ⟨d, hd, .refl d⟩
      · cases hu : s.currentUser with
        | none => simp [hu] at hd
        | some u =>
            simp only [hu] at hd
            refine Or.inr ⟨added, index, u, rfl, rfl, hd, hnew _ ?_⟩
            rw [← map_documentID_newDocuments u]
            exact List.mem_map_of_mem hd
  | remote => exact absurd rfl (hlocal c)
  | unchanged => exact Or.inl ⟨d, hd, .refl d⟩

/-- A request after an event is one from before, possibly evaluated by the event, or the event
has just issued it. -/
lemma step_requests [FIRTimestamp] {e : Event} (h : s.step e = some s') {q : Request}
    (hq : q ∈ s'.requests) : q ∈ s.requests ∨ (q.answer = none ∧ s.Issues e q.query) ∨
      ∃ q₀ ∈ s.requests, ∃ documents, q = ⟨q₀.query, some documents⟩ ∧
        documents.Perm (q₀.query.select s'.collection) := by
  cases e with
  | viewDidAppear => cases h; exact Or.inl hq
  | signIn u =>
      cases h
      obtain ⟨user, listeners, heq⟩ := s.exists_signIn_eq u
      rw [heq] at hq
      exact Or.inl hq
  | signOut =>
      cases h
      obtain ⟨user, listeners, heq⟩ := s.exists_signOut_eq
      rw [heq] at hq
      exact Or.inl hq
  | callListener i =>
      obtain ⟨n, -, rfl⟩ := step_callListener_iff.mp h
      rcases List.mem_append.mp hq with hq | hq
      · exact Or.inl hq
      · obtain ⟨u, hu, rfl⟩ := Option.map_eq_some_iff.mp (Option.mem_toList.mp hq)
        exact Or.inr (Or.inl ⟨rfl, .fetch hu⟩)
  | answer i documents =>
      obtain ⟨q', hq', hperm, rfl⟩ := step_answer_iff.mp h
      rcases List.mem_or_eq_of_mem_set hq with hq | rfl
      · exact Or.inl hq
      · exact Or.inr (Or.inr ⟨_, List.mem_of_getElem? hq', documents, rfl, hperm⟩)
  | deliver i outcome =>
      left
      obtain ⟨q', a, -, ⟨-, rfl⟩ | ⟨documents, refused, -, -, rfl⟩⟩ := step_deliver_iff.mp h
      · exact List.mem_of_mem_eraseIdx hq
      · cases q' <;> exact List.mem_of_mem_eraseIdx hq
  | add added index =>
      obtain ⟨-, front, back, -, -, rfl⟩ := step_add_iff.mp h
      exact Or.inl hq
  | save r e =>
      obtain ⟨hr, ⟨-, rfl⟩ | ⟨front, x, back, -, -, -, i, hi, rfl⟩⟩ := step_save_iff.mp h
      · exact Or.inl hq
      · rcases List.mem_append.mp hq with hq | hq
        · exact Or.inl hq
        · obtain rfl := List.mem_singleton.mp hq
          exact Or.inr (Or.inl ⟨rfl, .update hr hi⟩)
  | remove x =>
      cases x with
      | none => cases h; exact Or.inl hq
      | some x =>
          cases h
          rcases List.mem_append.mp hq with hq | hq
          · exact Or.inl hq
          · obtain rfl := List.mem_singleton.mp hq
            exact Or.inr (Or.inl ⟨rfl, .remove⟩)
  | remote c => cases h; exact Or.inl hq

/-- An answer after an event is one from before, or it has just been computed. -/
lemma step_answers [FIRTimestamp] {e : Event} (h : s.step e = some s') {q : Request}
    (hq : q ∈ s'.requests) {documents : List Doc} (ha : q.answer = some documents) :
    q ∈ s.requests ∨ documents.Perm (q.query.select s'.collection) := by
  rcases step_requests h hq with hq | ⟨hnone, -⟩ | ⟨q₀, -, documents', rfl, hperm⟩
  · exact Or.inl hq
  · exact absurd (ha.symm.trans hnone) (by simp)
  · cases ha
    exact Or.inr hperm

/-- A query after an event is one from before, or the event has just issued it. -/
lemma step_queries [FIRTimestamp] {e : Event} (h : s.step e = some s') {q : Request}
    (hq : q ∈ s'.requests) : (∃ q₀ ∈ s.requests, q₀.query = q.query) ∨ s.Issues e q.query := by
  rcases step_requests h hq with hq | ⟨-, hissues⟩ | ⟨q₀, hq₀, documents, rfl, -⟩
  · exact Or.inl ⟨q, hq, rfl⟩
  · exact Or.inr hissues
  · exact Or.inl ⟨q₀, hq₀, rfl⟩

/-- Every event, also one of another device, leaves the answers matching their queries. -/
lemma step_answersMatch [FIRTimestamp] {e : Event} (hs : s.AnswersMatch) (h : s.step e = some s') :
    s'.AnswersMatch := by
  intro q hq documents ha d hd
  rcases step_answers h hq ha with hq₀ | hperm
  · exact hs q hq₀ documents ha d hd
  · exact (Query.mem_select.mp (hperm.mem_iff.mp hd)).2

lemma answerSound_of_perm {c : Transactions} {q : Query} {documents : List Doc}
    (h : documents.Perm (q.select c)) : AnswerSound c q documents where
  nodup := by
    refine (h.map _).nodup_iff.mpr ?_
    cases q <;> exact (List.filter_sublist.map _).nodup c.nodup
  found d hd := (Query.mem_select.mp (h.mem_iff.mp hd)).2
  same d hd d' hd' hid := by
    obtain rfl : d' = d :=
      c.eq_of_documentID hd' (Query.mem_select.mp (h.mem_iff.mp hd)).1 hid
    exact .refl _

/-- Every event of the app keeps the answers sound. -/
theorem step_answersSound [FIRTimestamp] {e : Event} (hlocal : ∀ c, e ≠ .remote c)
    (hs : s.AnswersSound) (h : s.step e = some s') : s'.AnswersSound := by
  intro q hq documents ha
  rcases step_answers h hq ha with hq₀ | hperm
  · have hsound := hs q hq₀ documents ha
    refine ⟨hsound.nodup, hsound.found, fun d hd d' hd' hid => ?_⟩
    rcases step_documents hlocal h hd' with ⟨d₀, hd₀, hsame⟩ | ⟨-, -, -, -, -, -, hnew⟩
    · exact (hsound.same d hd d₀ hd₀ (hsame.documentID.trans hid)).trans hsame
    · refine absurd (Or.inr ⟨q, hq₀, ?_⟩) hnew
      rw [ha, hid]
      exact List.mem_map_of_mem hd
  · exact answerSound_of_perm hperm

lemma answersSound_of_requests_eq_nil (h : s.requests = []) : s.AnswersSound := by
  intro q hq
  simp [h] at hq

end App

/-! ### Fresh transaction ids -/

/-- The transaction id a query asks for, if it asks for one. -/
def Query.transactionId : Query → Option String
  | getTransactionsForUser _ => none
  | removeTransactionFromDatabase x => some x
  | updateTransactionInDatabase x _ => some x

/-- The id `x` occurs in an object, in a document or in an outstanding query.  A generated
UUID never does. -/
def App.Uses (s : App) (x : String) : Prop :=
  (∃ t ∈ s.heap.cells, t.id = some x) ∨
    (∃ d ∈ s.collection.documents, docId d = some (.string x)) ∨
      ∃ q ∈ s.requests, q.query.transactionId = some x

instance (s : App) (x : String) : Decidable (s.Uses x) := inferInstanceAs (Decidable (_ ∨ _))

lemma App.uses_of_transaction {s : App} {r : Ref} {x : String}
    (h : (s.transaction r).id = some x) : s.Uses x := by
  refine Or.inl ⟨s.transaction r, Heap.read_mem ?_, h⟩
  by_contra hr
  rw [App.transaction, Heap.read_of_size_le (Nat.le_of_not_lt hr)] at h
  cases h

end SpendingTracker
