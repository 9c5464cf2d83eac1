import SpendingTracker.Sync.Agreement

/-!
# Failures

Every operation changes the store first and issues its writes afterwards.  A write that fails is
reported on the console; nothing undoes the change of the store, and nothing repeats the write.
This file follows one operation until its query, if it has issued one, has been answered and its
callback has run, whatever fails on the way.

The store is searched with `==` of Swift, which takes canonically equivalent ids for the same;
the query of Firestore finds the documents with the very id.
-/

namespace SpendingTracker

open Lib StringEquality

/-- The operations of the store. -/
def Event.Operates : Event → Prop
  | .add _ _ | .save _ _ | .remove _ => True
  | _ => False

/-- The steps an operation waits for. -/
def Event.Settles : Event → Prop
  | .answer _ _ | .deliver _ _ => True
  | _ => False

instance : DecidablePred Event.Settles
  | .answer _ _ | .deliver _ _ => inferInstanceAs (Decidable True)
  | .viewDidAppear | .signIn _ | .signOut | .callListener _ | .add _ _ | .save _ _ | .remove _
  | .remote _ => inferInstanceAs (Decidable False)

/-- The event is the end of a query, and a write to the document `d` in its callback does not
fail. -/
def Event.Writes (d : Doc) : Event → Bool
  | .deliver _ (.succeeded refused) => d.documentID ∉ refused
  | _ => false

/-- One of the steps writes to the document `d` if the operation is concerned with it. -/
def Wrote (rest : List Event) (d : Doc) : Prop := ∃ e ∈ rest, e.Writes d = true

instance (rest : List Event) : DecidablePred (Wrote rest) :=
  fun _ => inferInstanceAs (Decidable (∃ _ ∈ rest, _))

namespace App

variable {u : String} {s s' t : App} {op : Event} {rest : List Event}

section Statement

variable [StringEquality]

instance (s : App) : DecidablePred s.Finds := fun _ => inferInstanceAs (Decidable (∃ _ ∈ _, _))

/-- The documents after an operation, when `rest` are the steps it has waited for. -/
def documentsAfter [FIRTimestamp] (s : App) : Event → List Event → List Doc
  | .add added _, _ => s.collection.documents ++
      (match s.currentUser with
        | none => []
        | some userId => newDocuments userId added)
  | .save r e, rest => s.collection.documents.map fun d =>
      if s.Finds r ∧ docId d = storedId (s.transaction r) ∧ Wrote rest d then
        d.overwrite ((s.transaction r).edited e).updateData
      else d
  | .remove (some x), rest => s.collection.documents.filter fun d =>
      ¬ (docId d = some (.string x) ∧ Wrote rest d)
  | _, _ => s.collection.documents

/-- No step that the operation needs has failed: each document of the user with an equal id has
been found by the query, as it has the very id, and has been written to.  A write that would not
change the record of its document is not needed. -/
def Complete [FIRTimestamp] (u : String) (s : App) : Event → List Event → Prop
  | .add added _, _ => ∀ p ∈ added, s.currentUser ≠ none ∧ p.2 ≠ none
  | .save r e, rest => ∀ d ∈ userDocuments u s.collection,
      Same (loadedId d) (s.transaction r).id →
        docId d = storedId (s.transaction r) ∧ Wrote rest d ∨
          recordOf d.data = ((s.transaction r).edited e).record
  | .remove (some x), rest => ∀ d ∈ userDocuments u s.collection, Same (loadedId d) (some x) →
      docId d = some (.string x) ∧ Wrote rest d
  | _, _ => True

/-- No two entries of the store have an id that equals that of the transaction that is saved. -/
def OneEntry (s : App) : Event → Prop
  | .save r _ =>
      (s.shared.filter fun x => Same (s.transaction x).id (s.transaction r).id).length ≤ 1
  | _ => True

end Statement

/-! ### Waiting for one query -/

section Settled

variable [StringEquality] [FIRTimestamp]

/-- When nothing is outstanding there is nothing to wait for. -/
lemma settled_nil (run : Run App.step s rest t) (hnone : s.requests = [])
    (settles : ∀ e ∈ rest, e.Settles) : rest = [] ∧ t = s := by
  cases run with
  | nil => exact ⟨rfl, rfl⟩
  | @cons _ s' _ e es hs _ =>
      have he := settles e List.mem_cons_self
      cases e with
      | answer i documents =>
          obtain ⟨q, hi, -⟩ := step_answer_iff.mp hs
          simp [hnone] at hi
      | deliver i outcome =>
          obtain ⟨q, a, hi, -⟩ := step_deliver_iff.mp hs
          simp [hnone] at hi
      | _ => exact he.elim

/-- A query that has been evaluated ends with an error, or its callback runs. -/
lemma settled_answered {q : Query} {documents : List Doc} (run : Run App.step s rest t)
    (hq : s.requests = [⟨q, some documents⟩]) (settles : ∀ e ∈ rest, e.Settles)
    (done : t.requests = []) :
    (t = { s with requests := [] } ∧ ∀ d, ¬ Wrote rest d) ∨
      ∃ refused, t = callback { s with requests := [] } q documents refused ∧
        ∀ d : Doc, Wrote rest d ↔ d.documentID ∉ refused := by
  cases run with
  | nil => simp [hq] at done
  | @cons _ s' _ e es hs run =>
      have hrest : ∀ e ∈ es, e.Settles := fun e he => settles e (List.mem_cons_of_mem _ he)
      have he := settles e List.mem_cons_self
      cases e with
      | answer i documents' =>
          obtain ⟨q', hi, -⟩ := step_answer_iff.mp hs
          rcases i with _ | i <;> simp [hq] at hi
      | deliver i outcome =>
          obtain ⟨q', a, hi, hs'⟩ := step_deliver_iff.mp hs
          obtain rfl : i = 0 := by
            rcases i with _ | i
            · rfl
            · simp [hq] at hi
          simp only [hq, List.getElem?_cons_zero, Option.some.injEq, Request.mk.injEq] at hi
          obtain ⟨rfl, rfl⟩ := hi
          simp only [hq, List.eraseIdx_cons_zero] at hs'
          rcases hs' with ⟨rfl, rfl⟩ | ⟨documents', refused, hdocuments, rfl, rfl⟩
          -- nothing is outstanding any more, so nothing else can happen
          · obtain ⟨rfl, rfl⟩ := settled_nil run rfl hrest
            exact Or.inl ⟨rfl, by simp [Wrote, Event.Writes]⟩
          · cases hdocuments
            obtain ⟨rfl, rfl⟩ := settled_nil run (by cases q <;> rfl) hrest
            exact Or.inr ⟨refused, rfl, by simp [Wrote, Event.Writes]⟩
      | _ => exact he.elim

/-- A query that has been issued ends with an error, or its callback runs on the documents that
the query selects. -/
lemma settled_issued (q : Query) (run : Run App.step s rest t) (hq : s.requests = [⟨q, none⟩])
    (settles : ∀ e ∈ rest, e.Settles) (done : t.requests = []) :
    (t = { s with requests := [] } ∧ ∀ d, ¬ Wrote rest d) ∨
      ∃ documents refused, documents.Perm (q.select s.collection) ∧
        t = callback { s with requests := [] } q documents refused ∧
        ∀ d : Doc, Wrote rest d ↔ d.documentID ∉ refused := by
  cases run with
  | nil => simp [hq] at done
  | @cons _ s' _ e es hs run =>
      have hrest : ∀ e ∈ es, e.Settles := fun e he => settles e (List.mem_cons_of_mem _ he)
      have he := settles e List.mem_cons_self
      cases e with
      | answer i documents =>
          obtain ⟨q', hi, hperm, rfl⟩ := step_answer_iff.mp hs
          obtain rfl : i = 0 := by
            rcases i with _ | i
            · rfl
            · simp [hq] at hi
          simp only [hq, List.getElem?_cons_zero, Option.some.injEq, Request.mk.injEq, and_true]
            at hi
          subst hi
          have hwrote : ∀ d, Wrote (.answer 0 documents :: es) d ↔ Wrote es d := by
            simp [Wrote, Event.Writes]
          simp only [hwrote]
          have hq' : (s.requests.set 0 ⟨q, some documents⟩) = [⟨q, some documents⟩] := by
            simp [hq]
          rcases settled_answered run hq' hrest done with h | ⟨refused, rfl, h⟩
          · exact Or.inl h
          · exact Or.inr ⟨documents, refused, hperm, rfl, h⟩
      | deliver i outcome =>
          obtain ⟨q', a, hi, hs'⟩ := step_deliver_iff.mp hs
          obtain rfl : i = 0 := by
            rcases i with _ | i
            · rfl
            · simp [hq] at hi
          simp only [hq, List.getElem?_cons_zero, Option.some.injEq, Request.mk.injEq] at hi
          obtain ⟨rfl, rfl⟩ := hi
          simp only [hq, List.eraseIdx_cons_zero] at hs'
          rcases hs' with ⟨rfl, rfl⟩ | ⟨documents', refused, hdocuments, -⟩
          · obtain ⟨rfl, rfl⟩ := settled_nil run rfl hrest
            exact Or.inl ⟨rfl, by simp [Wrote, Event.Writes]⟩
          -- the callback cannot run on documents before the query has been evaluated
          · cases hdocuments
      | _ => exact he.elim

end Settled

/-- The callback writes to the documents that the query selects, except where a write fails. -/
lemma mem_written_select {q : Query} {c : Transactions} {documents : List Doc}
    {refused : List String} (hperm : documents.Perm (q.select c)) {d : Doc}
    (hd : d ∈ c.documents) :
    d.documentID ∈ written documents refused ↔ q.Matches d ∧ d.documentID ∉ refused := by
  rw [mem_written]
  refine and_congr_left fun _ => ⟨?_, fun hq => ?_⟩
  · rintro ⟨d', hd', heq⟩
    obtain ⟨hmem, hq⟩ := Query.mem_select.mp (hperm.mem_iff.mp hd')
    exact c.eq_of_documentID hmem hd heq ▸ hq
  · exact ⟨d, hperm.mem_iff.mpr (Query.mem_select.mpr ⟨hd, hq⟩), rfl⟩

/-! ### What an operation leaves behind -/

section Leaves

variable [StringEquality] [FIRTimestamp]

/-- What an operation leaves behind: the store has the change in any case, and the documents have
the writes that have not failed. -/
structure Leaves (s : App) (op : Event) (rest : List Event) (t : App) : Prop where
  /-- The store is as it was directly after the operation. -/
  store : ∃ s', s.step op = some s' ∧ t.heap = s'.heap ∧ t.shared = s'.shared
  documents : t.collection.documents = s.documentsAfter op rest

lemma leaves_add {added : List (Transaction × Option String)} {index : Option ℕ}
    (idle : s.requests = []) (run : Run App.step s (.add added index :: rest) t)
    (settles : ∀ e ∈ rest, e.Settles) : s.Leaves (.add added index) rest t := by
  cases run with
  | @cons _ s' _ _ _ hs run =>
      obtain ⟨⟨hnodup, hnew⟩, front, back, -, -, rfl⟩ := step_add_iff.mp hs
      obtain ⟨rfl, rfl⟩ := settled_nil run idle settles
      exact ⟨⟨_, hs, rfl, rfl⟩, documents_collectionAfterAdd hnodup hnew⟩

lemma leaves_remove {x : String} (idle : s.requests = [])
    (run : Run App.step s (.remove (some x) :: rest) t) (settles : ∀ e ∈ rest, e.Settles)
    (done : t.requests = []) : s.Leaves (.remove (some x)) rest t := by
  cases run with
  | @cons _ s' _ _ _ hs run =>
      have hs' := hs
      rw [step_remove_same, Option.some.injEq] at hs'
      subst hs'
      rcases settled_issued (.removeTransactionFromDatabase x) run (by simp [idle]) settles done
        with ⟨rfl, hwrote⟩ | ⟨documents, refused, hperm, rfl, hwrote⟩
      · refine ⟨⟨_, hs, rfl, rfl⟩, ?_⟩
        simp [documentsAfter, hwrote]
      · refine ⟨⟨_, hs, rfl, rfl⟩, ?_⟩
        simp only [callback, Collection.documents_deleteAll, documentsAfter, hwrote]
        refine List.filter_congr fun d hd => ?_
        exact decide_eq_decide.mpr (not_congr (mem_written_select hperm hd))

lemma leaves_save {r : Ref} {e : Edit} (idle : s.requests = [])
    (run : Run App.step s (.save r e :: rest) t) (settles : ∀ e ∈ rest, e.Settles)
    (done : t.requests = []) : s.Leaves (.save r e) rest t := by
  cases run with
  | @cons _ s' _ _ _ hs run =>
      obtain ⟨hr, ⟨hno, rfl⟩ | ⟨front, y, back, hshared, -, hy, x, hx, rfl⟩⟩ :=
        step_save_same_iff.mp hs
      · obtain ⟨rfl, rfl⟩ := settled_nil run idle settles
        exact ⟨⟨_, hs, rfl, rfl⟩, by simp [documentsAfter, hno]⟩
      · have hfinds : s.Finds r := ⟨y, by simp [hshared], hy⟩
        have hstored : storedId (s.transaction r) = some (.string x) :=
          storedId_eq_string_iff.mpr hx
        rcases settled_issued (.updateTransactionInDatabase x r) run (by simp [idle]) settles done
          with ⟨rfl, hwrote⟩ | ⟨documents, refused, hperm, rfl, hwrote⟩
        · refine ⟨⟨_, hs, rfl, rfl⟩, ?_⟩
          simp [documentsAfter, hwrote]
        · refine ⟨⟨_, hs, rfl, rfl⟩, ?_⟩
          simp only [callback, Collection.documents_updateAll, documentsAfter, hwrote, hfinds,
            hstored, true_and]
          refine List.map_congr_left fun d hd => ?_
          -- the callback writes the fields of the object as the save has left them
          rw [transaction_mk, read_heapAfterSave hr, if_pos rfl]
          exact if_congr (mem_written_select hperm hd) rfl rfl

/-- Every operation leaves behind what its steps have carried out. -/
theorem leaves (operates : op.Operates) (idle : s.requests = [])
    (run : Run App.step s (op :: rest) t) (settles : ∀ e ∈ rest, e.Settles)
    (done : t.requests = []) : s.Leaves op rest t := by
  cases op with
  | add added index => exact leaves_add idle run settles
  | save r e => exact leaves_save idle run settles done
  | remove x =>
      cases x with
      | some x => exact leaves_remove idle run settles done
      | none =>
          cases run with
          | @cons _ s' _ _ _ hs run =>
              cases hs
              obtain ⟨rfl, rfl⟩ := settled_nil run idle settles
              exact ⟨⟨_, rfl, rfl, rfl⟩, rfl⟩
  | _ => exact operates.elim

end Leaves

/-! ### When the two sides agree again -/

section Agreement

variable [FIRTimestamp]

/-- Agreement is agreement of the records that meet a condition. -/
lemma Agree.filter (h : s.Agree u) (p : Record → Bool) :
    (((userDocuments u s.collection).filter fun d => p (recordOf d.data)).map
      fun d => recordOf d.data).Perm
      ((s.shared.filter fun r => p (s.transaction r).record).map
        fun r => (s.transaction r).record) := by
  have hp := List.Perm.filter p h
  rwa [List.filter_map, List.filter_map] at hp

/-- The documents of the user among those that an operation leaves behind. -/
lemma Leaves.userDocuments [StringEquality]
    (h : s.Leaves op rest t) : userDocuments u t.collection =
    (s.documentsAfter op rest).filter fun d => docOwner d = some (.string u) := by
  rw [SpendingTracker.userDocuments, Collection.whereField, h.documents]
  rfl

lemma recordOf_newDocuments {added : List (Transaction × Option String)}
    (h : ∀ p ∈ added, p.2 ≠ none) :
    (newDocuments u added).map (fun d => recordOf d.data) = added.map fun p => p.1.record := by
  induction added with
  | nil => rfl
  | cons p added ih =>
      obtain ⟨t, _ | i⟩ := p
      · exact absurd rfl (h _ List.mem_cons_self)
      · have hrest := ih fun p hp => h p (List.mem_cons_of_mem _ hp)
        simpa [newDocuments] using hrest

/-- The new documents carry the records of all the added transactions exactly when no write has
failed. -/
lemma newDocuments_perm_iff {added : List (Transaction × Option String)} :
    ((newDocuments u added).map fun d => recordOf d.data).Perm (added.map fun p => p.1.record) ↔
      ∀ p ∈ added, p.2 ≠ none := by
  constructor
  · intro h p hp
    have hlength := h.length_eq
    simp only [List.length_map, newDocuments, List.length_filterMap_eq_countP] at hlength
    have := List.countP_eq_length.mp hlength p hp
    simpa [Option.isSome_iff_ne_none] using this
  · intro h
    rw [recordOf_newDocuments h]

end Agreement

section Iff

variable [StringEquality] [FIRTimestamp]

lemma agree_add_iff {added : List (Transaction × Option String)} {index : Option ℕ}
    (objects : ∀ r ∈ s.shared, r < s.heap.size)
    (user : s.currentUser = some u ∨ s.currentUser = none) (agree : s.Agree u)
    (h : s.Leaves (.add added index) rest t) :
    t.Agree u ↔ s.Complete u (.add added index) rest := by
  obtain ⟨s', hs, hheap, hshared⟩ := h.store
  have hstore : (t.shared.map fun r => (t.transaction r).record).Perm
      ((s.shared.map fun r => (s.transaction r).record) ++ added.map fun p => p.1.record) := by
    have hp := (transactions_step_add objects hs).map Transaction.record
    rw [transaction_eq_read, ← hheap, ← hshared, ← transaction_eq_read] at hp
    simpa only [List.map_append, List.map_map, Function.comp_def] using hp
  have hdocs : (userDocuments u t.collection).map (fun d => recordOf d.data) =
      (userDocuments u s.collection).map (fun d => recordOf d.data) ++
        (match s.currentUser with
          | none => []
          | some _ => (newDocuments u added).map fun d => recordOf d.data) := by
    rw [h.userDocuments, documentsAfter]
    rcases user with hu | hu
    · have hown : ∀ d ∈ newDocuments u added, decide (docOwner d = some (.string u)) := by
        intro d hd
        obtain ⟨t, i, -, rfl⟩ := mem_newDocuments.mp hd
        simp [docOwner]
      rw [hu, List.filter_append, List.filter_eq_self.mpr hown, List.map_append]
      rfl
    · simp only [hu, List.append_nil]
      rfl
  have hperm : t.Agree u ↔
      List.Perm
        (match s.currentUser with
          | none => []
          | some _ => (newDocuments u added).map fun d => recordOf d.data)
        (added.map fun p => p.1.record) := by
    rw [Agree, hdocs, (agree.append_right _).congr_left, hstore.congr_right,
      List.perm_append_left_iff]
  rw [hperm]
  rcases user with hu | hu <;> simp only [hu, Complete]
  · simpa using newDocuments_perm_iff
  · rw [List.nil_perm, List.map_eq_nil_iff, List.eq_nil_iff_forall_not_mem]
    simp

lemma agree_remove_iff {x : String} (agree : s.Agree u) (h : s.Leaves (.remove (some x)) rest t) :
    t.Agree u ↔ s.Complete u (.remove (some x)) rest := by
  obtain ⟨s', hs, hheap, hshared⟩ := h.store
  rw [step_remove_same, Option.some.injEq] at hs
  subst hs
  -- the records of the other ids still agree
  have hothers : (((userDocuments u s.collection).filter fun d =>
      ¬ Same (loadedId d) (some x)).map fun d => recordOf d.data).Perm
      (t.shared.map fun r => (t.transaction r).record) := by
    have hp := agree.filter fun rec => ¬ Same (rec.id.bind Value.asString) (some x)
    have hfilter : s.shared.filter (fun r =>
        ¬ Same ((s.transaction r).record.id.bind Value.asString) (some x)) =
        s.shared.filter fun r => ¬ Same (s.transaction r).id (some x) :=
      List.filter_congr fun r _ => by rw [loadedId_record]
    rw [hfilter] at hp
    rw [transaction_eq_read, hheap, hshared]
    exact hp
  have hdocs : userDocuments u t.collection = (userDocuments u s.collection).filter fun d =>
      ¬ (docId d = some (.string x) ∧ Wrote rest d) := by
    rw [h.userDocuments, documentsAfter, List.filter_comm]
    rfl
  have hsub : ((userDocuments u s.collection).filter fun d =>
      ¬ Same (loadedId d) (some x)).Sublist (userDocuments u t.collection) := by
    rw [hdocs]
    refine List.monotone_filter_right _ fun d hd => ?_
    simp only [decide_eq_true_eq] at hd ⊢
    exact fun hk => hd (same_of_eq (loadedId_eq_some_iff.mpr hk.1))
  -- the documents left are the others and those that no write has reached
  rw [Agree, ← hothers.congr_right]
  constructor
  · intro hp d hd hk
    by_contra hw
    have heq := hsub.eq_of_length (by simpa using hp.length_eq.symm)
    have hmem : d ∈ userDocuments u t.collection := by
      rw [hdocs]
      exact List.mem_filter.mpr ⟨hd, decide_eq_true hw⟩
    rw [← heq] at hmem
    simp [hk] at hmem
  · intro hc
    rw [hdocs]
    refine List.Perm.of_eq (congrArg _ (List.filter_congr fun d hd => ?_))
    exact decide_eq_decide.mpr (not_congr
      ⟨fun hk => same_of_eq (loadedId_eq_some_iff.mpr hk.1), hc d hd⟩)

/-- Saving an object that the store does not know changes no record of the store. -/
lemma agree_save_unknown {r : Ref} {e : Edit} (agree : s.Agree u) (hno : ¬ s.Finds r)
    (h : s.Leaves (.save r e) rest t) : t.Agree u ∧ s.Complete u (.save r e) rest := by
  obtain ⟨s', hs, hheap, hshared⟩ := h.store
  obtain ⟨hr, ⟨-, rfl⟩ | ⟨front, y, back, hold, -, hy, -⟩⟩ := step_save_same_iff.mp hs
  · have hcollection : userDocuments u t.collection = userDocuments u s.collection := by
      rw [h.userDocuments, documentsAfter]
      simp only [hno, false_and, if_false, List.map_id']
      rfl
    have hstore : t.shared.map (fun x => (t.transaction x).record) =
        s.shared.map fun x => (s.transaction x).record := by
      rw [transaction_eq_read, hheap, hshared]
      refine List.map_congr_left fun x hx => ?_
      have hne : x ≠ r := by
        rintro rfl
        exact hno ⟨x, hx, same_refl _⟩
      rw [read_heapAfterSave hr, if_neg hne]
    refine ⟨by rw [Agree, hcollection, hstore]; exact agree, fun d hd hid => ?_⟩
    have hmem := agree.mem_iff.mp (List.mem_map_of_mem hd)
    obtain ⟨x, hx, heq⟩ := List.mem_map.mp hmem
    have hloaded : loadedId d = (s.transaction x).id :=
      loadedId_of_docId_eq (congrArg Record.id heq).symm
    exact absurd ⟨x, hx, hloaded ▸ hid⟩ hno
  · exact absurd ⟨y, by simp [hold], hy⟩ hno

/-- The only document of the user with an id that equals that of the saved transaction. -/
lemma exists_document_saved {r y : Ref} {front back : List Ref} (agree : s.Agree u)
    (unique : (s.shared.filter fun x =>
      Same (s.transaction x).id (s.transaction r).id).length ≤ 1)
    (hold : s.shared = front ++ y :: back)
    (hy : Same (s.transaction y).id (s.transaction r).id) :
    ∃ d₀, (userDocuments u s.collection).filter
        (fun d => Same (loadedId d) (s.transaction r).id) = [d₀] ∧
      (∀ x ∈ front ++ back, ¬ Same (s.transaction x).id (s.transaction r).id) ∧
      (((userDocuments u s.collection).filter
        fun d => ¬ Same (loadedId d) (s.transaction r).id).map fun d => recordOf d.data).Perm
        ((front ++ back).map fun x => (s.transaction x).record) := by
  have hnone : front.filter (fun x => Same (s.transaction x).id (s.transaction r).id) = [] ∧
      back.filter (fun x => Same (s.transaction x).id (s.transaction r).id) = [] := by
    rw [hold, List.filter_append, List.filter_cons_of_pos (by simpa using hy)] at unique
    simp only [List.length_append, List.length_cons] at unique
    exact ⟨List.eq_nil_of_length_eq_zero (by omega), List.eq_nil_of_length_eq_zero (by omega)⟩
  have hne : ∀ x ∈ front ++ back, ¬ Same (s.transaction x).id (s.transaction r).id := by
    intro x hx
    rcases List.mem_append.mp hx with hx | hx
    · simpa using List.filter_eq_nil_iff.mp hnone.1 x hx
    · simpa using List.filter_eq_nil_iff.mp hnone.2 x hx
  have hsame : s.shared.filter (fun x => decide
      (Same ((s.transaction x).record.id.bind Value.asString) (s.transaction r).id)) = [y] := by
    simp only [loadedId_record]
    rw [hold, List.filter_append, hnone.1, List.filter_cons_of_pos (by simpa using hy), hnone.2]
    rfl
  have hothers : s.shared.filter (fun x => decide
      ¬ Same ((s.transaction x).record.id.bind Value.asString) (s.transaction r).id) =
      front ++ back := by
    simp only [loadedId_record]
    rw [hold, List.filter_append, List.filter_cons_of_neg (by simpa using hy),
      ← List.filter_append]
    exact List.filter_eq_self.mpr fun x hx => decide_eq_true (hne x hx)
  have hp := agree.filter fun rec => Same (rec.id.bind Value.asString) (s.transaction r).id
  rw [hsame, List.map_singleton, List.perm_singleton, List.map_eq_singleton_iff] at hp
  obtain ⟨d₀, hd₀, -⟩ := hp
  refine ⟨d₀, hd₀, hne, ?_⟩
  exact hothers ▸ agree.filter fun rec =>
    ¬ Same (rec.id.bind Value.asString) (s.transaction r).id

/-- The documents of the user after a save. -/
lemma userDocuments_save {r : Ref} {e : Edit} (hfinds : s.Finds r)
    (h : s.Leaves (.save r e) rest t) :
    userDocuments u t.collection =
      (userDocuments u s.collection).map fun d =>
        if docId d = storedId (s.transaction r) ∧ Wrote rest d then
          d.overwrite ((s.transaction r).edited e).updateData
        else d := by
  rw [h.userDocuments, documentsAfter, List.filter_map]
  simp only [hfinds, true_and]
  congr 1
  refine List.filter_congr fun d _ => decide_eq_decide.mpr ?_
  beta_reduce
  split_ifs
  · rw [← (sameDocument_overwrite d ((s.transaction r).edited e)).owner]
    rfl
  · rfl

/-- The records of the documents after a save, of which `d₀` is the only one with an id that
equals that of the saved transaction. -/
lemma records_userDocuments_save {r : Ref} {e : Edit} {d₀ : Doc} (hfinds : s.Finds r)
    (h : s.Leaves (.save r e) rest t)
    (hd₀ : (userDocuments u s.collection).filter
      (fun d => Same (loadedId d) (s.transaction r).id) = [d₀]) :
    ((userDocuments u t.collection).map fun d => recordOf d.data).Perm
      ((if docId d₀ = storedId (s.transaction r) ∧ Wrote rest d₀ then
          ((s.transaction r).edited e).record
        else recordOf d₀.data) ::
        ((userDocuments u s.collection).filter
          fun d => ¬ Same (loadedId d) (s.transaction r).id).map fun d => recordOf d.data) := by
  have hkept : ((userDocuments u s.collection).filter
      fun d => ¬ Same (loadedId d) (s.transaction r).id).map (fun d => recordOf
        (if docId d = storedId (s.transaction r) ∧ Wrote rest d then
          d.overwrite ((s.transaction r).edited e).updateData else d).data) =
      ((userDocuments u s.collection).filter
        fun d => ¬ Same (loadedId d) (s.transaction r).id).map fun d => recordOf d.data := by
    refine List.map_congr_left fun d hd => ?_
    have hne : ¬ Same (loadedId d) (s.transaction r).id := by
      simpa using (List.mem_filter.mp hd).2
    rw [if_neg fun hk => hne (same_of_eq (loadedId_of_docId_eq hk.1))]
  rw [userDocuments_save hfinds h, List.map_map, ← hkept]
  -- the documents are split into `d₀` and the ones that the save does not concern
  refine ((List.filter_append_perm (fun d => Same (loadedId d) (s.transaction r).id)
    (userDocuments u s.collection)).map _).symm.trans (List.Perm.of_eq ?_)
  rw [hd₀, List.map_append]
  by_cases hw : docId d₀ = storedId (s.transaction r) ∧ Wrote rest d₀
  · simp [hw, recordOf_overwrite (t := (s.transaction r).edited e) hw.1]
  · simp [hw]

/-- The records of the store after a save: the edited one and those of the other entries. -/
lemma records_shared_save {r : Ref} {e : Edit} {front back : List Ref} (hr : r < s.heap.size)
    (hne : ∀ x ∈ front ++ back, ¬ Same (s.transaction x).id (s.transaction r).id) :
    ((front ++ r :: back).map fun x => ((s.heapAfterSave r e).read x).record).Perm
      (((s.transaction r).edited e).record ::
        (front ++ back).map fun x => (s.transaction x).record) := by
  have hkept : (front ++ back).map (fun x => ((s.heapAfterSave r e).read x).record) =
      (front ++ back).map fun x => (s.transaction x).record := by
    refine List.map_congr_left fun x hx => ?_
    have hxr : x ≠ r := fun heq => hne x hx (heq ▸ same_refl _)
    rw [read_heapAfterSave hr, if_neg hxr]
  rw [← hkept]
  refine (List.perm_middle.map _).trans (List.Perm.of_eq ?_)
  rw [List.map_cons, read_heapAfterSave hr, if_pos rfl]

/-- Saving an object that the store knows. -/
lemma agree_save_known_iff {r : Ref} {e : Edit} (agree : s.Agree u)
    (unique : s.OneEntry (.save r e)) (hfinds : s.Finds r) (h : s.Leaves (.save r e) rest t) :
    t.Agree u ↔ s.Complete u (.save r e) rest := by
  obtain ⟨s', hs, hheap, hshared⟩ := h.store
  obtain ⟨hr, ⟨hno, -⟩ | ⟨front, y, back, hold, -, hy, i, -, rfl⟩⟩ := step_save_same_iff.mp hs
  · exact absurd hfinds hno
  obtain ⟨d₀, hd₀, hne, hothers⟩ := exists_document_saved agree unique hold hy
  have hmem₀ : d₀ ∈ userDocuments u s.collection ∧
      Same (loadedId d₀) (s.transaction r).id := by
    have hmem := List.mem_filter.mp (hd₀.symm ▸ List.mem_singleton_self d₀)
    exact ⟨hmem.1, of_decide_eq_true hmem.2⟩
  -- the records of the other transactions, which the operation does not concern
  set others : List Record := (front ++ back).map fun x => (s.transaction x).record
  have hdocs := (records_userDocuments_save hfinds h hd₀).trans (hothers.cons _)
  have hstore : (t.shared.map fun x => (t.transaction x).record).Perm
      (((s.transaction r).edited e).record :: others) := by
    rw [transaction_eq_read, hheap, hshared]
    exact records_shared_save hr hne
  have hperm : t.Agree u ↔
      (if docId d₀ = storedId (s.transaction r) ∧ Wrote rest d₀ then
        ((s.transaction r).edited e).record else recordOf d₀.data) =
        ((s.transaction r).edited e).record := by
    rw [Agree, hdocs.congr_left, hstore.congr_right, ← List.singleton_append,
      ← List.singleton_append (l := others), List.perm_append_right_iff,
      List.singleton_perm_singleton]
  rw [hperm]
  constructor
  · intro hc d hd hid
    have hmem : d ∈ [d₀] := hd₀ ▸ List.mem_filter.mpr ⟨hd, decide_eq_true hid⟩
    obtain rfl := List.mem_singleton.mp hmem
    by_cases hw : docId d = storedId (s.transaction r) ∧ Wrote rest d
    · exact Or.inl hw
    · exact Or.inr ((if_neg hw).symm.trans hc)
  · intro hc
    rcases hc d₀ hmem₀.1 hmem₀.2 with hw | hrec
    · exact if_pos hw
    · rw [hrec, ite_self]

/-- **What failures leave behind.**  Let the store and the documents of the user agree, and let
one operation run until its query has been answered and its callback has run, with any errors on
the way.  Then the store has the change in any case, the documents have the writes that have not
failed, and the two sides agree again exactly when no step that the operation needs has
failed. -/
theorem settled_agree_iff (objects : ∀ r ∈ s.shared, r < s.heap.size)
    (user : s.currentUser = some u ∨ s.currentUser = none) (agree : s.Agree u)
    (idle : s.requests = []) (operates : op.Operates) (unique : s.OneEntry op)
    (run : Run App.step s (op :: rest) t) (settles : ∀ e ∈ rest, e.Settles)
    (done : t.requests = []) :
    s.Leaves op rest t ∧ (t.Agree u ↔ s.Complete u op rest) := by
  have h := leaves operates idle run settles done
  refine ⟨h, ?_⟩
  cases op with
  | add added index => exact agree_add_iff objects user agree h
  | save r e =>
      by_cases hfinds : s.Finds r
      · exact agree_save_known_iff agree unique hfinds h
      · obtain ⟨hagree, hcomplete⟩ := agree_save_unknown agree hfinds h
        exact iff_of_true hagree hcomplete
  | remove x =>
      cases x with
      | some x => exact agree_remove_iff agree h
      | none =>
          obtain ⟨s', hs, hheap, hshared⟩ := h.store
          cases hs
          refine iff_of_true ?_ trivial
          rw [Agree, h.userDocuments, transaction_eq_read, hheap, hshared]
          exact agree
  | _ => exact operates.elim

end Iff

instance (u : String) (s : App) : Decidable (s.Agree u) :=
  inferInstanceAs (Decidable (List.Perm _ _))

/-- A store of two transactions with the given ids, and their documents. -/
def twoTransactions (id id' : String) (currentUser : Option String) : App where
  heap := ⟨[.make id .income .sport 5 0, .make id' .expense .fuel 7 1]⟩
  shared := [0, 1]
  currentUser := currentUser
  listeners := []
  collection := Collection.empty.addAll (newDocuments "u"
    [(.make id .income .sport 5 0, some "d"), (.make id' .expense .fuel 7 1, some "e")])
  requests := []

/-- The deletion of a transaction whose document cannot be deleted. -/
def refusedDeletion : List Event :=
  [.answer 0 [⟨"e", (Transaction.make "b" .expense .fuel 7 1).addDocumentData "u"⟩],
    .deliver 0 (.succeeded ["e"])]

theorem refusedDeletion_leaves : ∃ t,
    Run App.step (twoTransactions "a" "b" (some "u")) (.remove (some "b") :: refusedDeletion) t ∧
    t.shared = [0] ∧ ¬ t.Agree "u" := by
  have run : Run App.step (twoTransactions "a" "b" (some "u"))
      (.remove (some "b") :: refusedDeletion) _ := exec_eq_some_iff.mp rfl
  have agree : Agree "u" (twoTransactions "a" "b" (some "u")) := List.Perm.refl _
  have operates : Event.Operates (.remove (some "b")) := trivial
  have unique : OneEntry (twoTransactions "a" "b" (some "u")) (.remove (some "b")) := trivial
  refine ⟨_, run, rfl, fun h => ?_⟩
  have complete := (settled_agree_iff (by decide) (Or.inl rfl) agree rfl operates unique run
    (by decide) rfl).2.mp h
  have hmem : ⟨"e", (Transaction.make "b" .expense .fuel 7 1).addDocumentData "u"⟩ ∈
      userDocuments "u" (twoTransactions "a" "b" (some "u")).collection := by decide
  exact absurd (complete _ hmem rfl).2 (by decide)

/-- Without a user an addition changes the store only.  Where two transactions share an id,
saving one of them overwrites the documents of both, although nothing has failed; and where their
ids are equal without being the same, deleting one of them deletes both entries of the store and
one document. -/
theorem settled_disagree :
    (∃ t, (twoTransactions "a" "b" none).Agree "u" ∧
      Run App.step (twoTransactions "a" "b" none)
        [.add [(.make "c" .income .kids 1 2, some "f")] none] t ∧
      t.requests = [] ∧ ¬ t.Agree "u") ∧
    (∃ t, (twoTransactions "a" "a" (some "u")).Agree "u" ∧
      Run App.step (twoTransactions "a" "a" (some "u"))
        [.save 0 ⟨some .income, some .sport, 6, 0⟩,
          .answer 0 (twoTransactions "a" "a" (some "u")).collection.documents,
          .deliver 0 (.succeeded [])] t ∧
      t.requests = [] ∧ ¬ t.Agree "u") ∧
    ∃ t, (twoTransactions "\u00e9" "e\u0301" (some "u")).Agree "u" ∧
      Run (@App.step .acute .unchanged) (twoTransactions "\u00e9" "e\u0301" (some "u"))
        [.remove (some "\u00e9"),
          .answer 0 [⟨"d", (Transaction.make "\u00e9" .income .sport 5 0).addDocumentData "u"⟩],
          .deliver 0 (.succeeded [])] t ∧
      t.requests = [] ∧ t.shared = [] ∧ ¬ t.Agree "u" :=
  ⟨⟨_, .refl _, exec_eq_some_iff.mp rfl, rfl, by decide⟩,
    ⟨_, .refl _, exec_eq_some_iff.mp rfl, rfl, by decide⟩,
    ⟨_, .refl _, exec_eq_some_iff.mp rfl, rfl, rfl, by decide⟩⟩

end App

end SpendingTracker
