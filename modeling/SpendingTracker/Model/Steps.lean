import SpendingTracker.Lib.Pool
import SpendingTracker.Model.App

/-!
# What one event can do

For each event that can fail or branch, one lemma that says what it does to the state.  The
proofs about runs use these lemmas and do not unfold `App.step`.
-/

namespace SpendingTracker

open Lib

lemma Transaction.id_edited (t : Transaction) (e : Edit) : (t.edited e).id = t.id := rfl

namespace App

variable {s s' : App}

/-! ### Fields that a handler leaves alone -/

@[simp] lemma transaction_mk (h : Heap Transaction) (sh : List Ref) (u : Option String)
    (l : List ℕ) (c : Transactions) (q : List Request) (r : Ref) :
    (App.mk h sh u l c q).transaction r = h.read r := rfl

lemma transaction_eq_read (s : App) : s.transaction = s.heap.read := rfl

/-! ### Adding -/

section Adding

variable [FIRTimestamp]

/-- The collection after transactions have been added. -/
def collectionAfterAdd (s : App) (added : List (Transaction × Option String)) : Transactions :=
  match s.currentUser with
  | none => s.collection
  | some userId => s.collection.addAll (newDocuments userId added)

lemma add_eq (s : App) (added : List (Transaction × Option String)) (index : Option ℕ) :
    (s.add added index).map Prod.fst =
      (match index with
        | some k => insertAt s.shared (s.heap.created (added.map Prod.fst)) k
        | none => some (s.shared ++ s.heap.created (added.map Prod.fst))).map fun ts =>
        { s with
          heap := s.heap.create (added.map Prod.fst)
          shared := ts
          collection := s.collectionAfterAdd added } := by
  have key : ∀ u, (addTransactionsToDatabase
      { s with heap := s.heap.create (added.map Prod.fst), shared := u }
      (((s.heap.created (added.map Prod.fst)).map
        (s.heap.create (added.map Prod.fst)).read).zip (added.map Prod.snd))) =
      { s with
        heap := s.heap.create (added.map Prod.fst)
        shared := u
        collection := s.collectionAfterAdd added } := by
    intro u
    have hzip : (added.map Prod.fst).zip (added.map Prod.snd) = added := by
      rw [← List.unzip_fst, ← List.unzip_snd, List.zip_unzip]
    rw [Heap.map_read_created, hzip]
    unfold addTransactionsToDatabase collectionAfterAdd
    cases s.currentUser <;> rfl
  simp only [add, addTransactions, Option.map_map]
  congr 1
  funext ts
  exact key ts

/-- Adding transactions splices the new objects into the store and writes their documents. -/
lemma step_add_iff [StringEquality] {added : List (Transaction × Option String)}
    {index : Option ℕ} : s.step (.add added index) = some s' ↔
      ((added.filterMap Prod.snd).Nodup ∧ ∀ i ∈ added.filterMap Prod.snd, ¬ s.Knows i) ∧
      ∃ front back, s.shared = front ++ back ∧
        (match index with
          | some k => front.length = k
          | none => back = []) ∧
        s' = { s with
          heap := s.heap.create (added.map Prod.fst)
          shared := front ++ s.heap.created (added.map Prod.fst) ++ back
          collection := s.collectionAfterAdd added } := by
  simp only [step]
  split_ifs with hnew
  · rw [add_eq, Option.map_eq_some_iff, and_iff_right hnew]
    cases index with
    | none =>
        constructor
        · rintro ⟨ts, hts, rfl⟩
          cases hts
          exact ⟨s.shared, [], by simp, rfl, by simp⟩
        · rintro ⟨front, back, hs, rfl, rfl⟩
          exact ⟨_, rfl, by simp [hs]⟩
    | some k =>
        constructor
        · rintro ⟨ts, hts, rfl⟩
          simp only [insertAt] at hts
          split_ifs at hts with hk
          cases hts
          exact ⟨s.shared.take k, s.shared.drop k, by simp, by simpa using hk, rfl⟩
        · rintro ⟨front, back, hs, hk, rfl⟩
          refine ⟨_, ?_, rfl⟩
          subst hk
          simp [insertAt, hs]
  · exact iff_of_false (by simp) fun h => hnew h.1

end Adding

/-! ### Saving an edit -/

/-- The heap after an edit has been saved into the object `r`. -/
def heapAfterSave (s : App) (r : Ref) (e : Edit) : Heap Transaction :=
  s.heap.write r ((s.transaction r).edited e)

lemma read_heapAfterSave {r x : Ref} {e : Edit} (hr : r < s.heap.size) :
    (s.heapAfterSave r e).read x =
      if x = r then (s.transaction r).edited e else s.transaction x :=
  Heap.read_write hr

/-- Saving never changes the id of an object. -/
@[simp] lemma id_read_heapAfterSave {r x : Ref} {e : Edit} :
    ((s.heapAfterSave r e).read x).id = (s.transaction x).id := by
  by_cases hr : r < s.heap.size
  · rw [read_heapAfterSave hr]
    split_ifs with hx
    · rw [hx, Transaction.id_edited]
    · rfl
  · rw [heapAfterSave, Heap.write, List.set_eq_of_length_le (Nat.le_of_not_lt hr)]
    rfl

@[simp] lemma size_heapAfterSave {r : Ref} {e : Edit} :
    (s.heapAfterSave r e).size = s.heap.size := Heap.size_write

/-- The store holds an entry with the id of the object `r`. -/
def Finds [StringEquality] (s : App) (r : Ref) : Prop :=
  ∃ x ∈ s.shared, Same (s.transaction x).id (s.transaction r).id

/-- Saving changes the object; if the store has an entry with an equal id, the first such entry
is replaced by the object and an update is issued, for which the object must have an id. -/
lemma step_save_same_iff [StringEquality] [FIRTimestamp] {r : Ref} {e : Edit} :
    s.step (.save r e) = some s' ↔ r < s.heap.size ∧
      ((¬ s.Finds r ∧ s' = { s with heap := s.heapAfterSave r e }) ∨
        ∃ front x back, s.shared = front ++ x :: back ∧
          (∀ y ∈ front, ¬ Same (s.transaction y).id (s.transaction r).id) ∧
          Same (s.transaction x).id (s.transaction r).id ∧
          ∃ i, (s.transaction r).id = some i ∧
            s' = { s with
              heap := s.heapAfterSave r e
              shared := front ++ r :: back
              requests := s.requests ++ [⟨.updateTransactionInDatabase i r, none⟩] }) := by
  simp only [step]
  split_ifs with hr
  · simp only [hr, true_and, save, updatetransaction, transaction_mk]
    have hid : ∀ x, ((s.heap.write r ((s.transaction r).edited e)).read x).id =
        (s.transaction x).id := fun x => id_read_heapAfterSave
    simp only [hid]
    split
    next i hi =>
      obtain ⟨front, x, back, hsplit, hfront, hx, rfl⟩ := findIdx?_eq_some_iff_append.mp hi
      simp only [decide_eq_false_iff_not, decide_eq_true_eq] at hfront hx
      have hset : s.shared.set front.length r = front ++ r :: back := by simp [hsplit]
      simp only [updateTransactionInDatabase, transaction_mk, Option.map_eq_some_iff, hid, hset]
      constructor
      · rintro ⟨k, hk, rfl⟩
        exact Or.inr ⟨front, x, back, hsplit, hfront, hx, k, hk, rfl⟩
      · rintro (⟨hno, -⟩ | ⟨front', x', back', hsplit', hfront', hx', k, hk, rfl⟩)
        · exact absurd ⟨x, by simp [hsplit], hx⟩ hno
        -- the first entry with the id is found at one place only
        · have hi' := findIdx?_eq_some_iff_append.mpr ⟨front', x', back', hsplit',
            fun y hy => decide_eq_false (hfront' y hy), decide_eq_true hx', rfl⟩
          have hlen : front.length = front'.length := Option.some.inj (hi.symm.trans hi')
          obtain ⟨rfl, heq⟩ := List.append_inj (hsplit.symm.trans hsplit') hlen
          cases heq
          exact ⟨k, hk, rfl⟩
    next hnone =>
      simp only [List.findIdx?_eq_none_iff, decide_eq_false_iff_not] at hnone
      simp only [Option.some.injEq]
      constructor
      · rintro rfl
        exact Or.inl ⟨fun ⟨x, hx, hxr⟩ => hnone x hx hxr, rfl⟩
      · rintro (⟨-, rfl⟩ | ⟨front, x, back, hs, -, hxr, -⟩)
        · rfl
        · exact absurd hxr (hnone x (by simp [hs]))
  · simp [hr]

/-- Saving, when ids are equal only if their scalars are. -/
lemma step_save_iff [FIRTimestamp] {r : Ref} {e : Edit} :
    s.step (.save r e) = some s' ↔ r < s.heap.size ∧
      ((¬ s.Finds r ∧ s' = { s with heap := s.heapAfterSave r e }) ∨
        ∃ front x back, s.shared = front ++ x :: back ∧
          (∀ y ∈ front, (s.transaction y).id ≠ (s.transaction r).id) ∧
          (s.transaction x).id = (s.transaction r).id ∧
          ∃ i, (s.transaction r).id = some i ∧
            s' = { s with
              heap := s.heapAfterSave r e
              shared := front ++ r :: back
              requests := s.requests ++ [⟨.updateTransactionInDatabase i r, none⟩] }) :=
  step_save_same_iff

/-! ### Deleting -/

/-- Deleting filters the store and issues the deletion of the documents. -/
lemma step_remove_same [StringEquality] [FIRTimestamp] (x : String) :
    s.step (.remove (some x)) = some { s with
      shared := s.shared.filter fun r => ¬ Same (s.transaction r).id (some x)
      requests := s.requests ++ [⟨.removeTransactionFromDatabase x, none⟩] } := rfl

/-- Deleting, when ids are equal only if their scalars are. -/
lemma step_remove_some [FIRTimestamp] (x : String) :
    s.step (.remove (some x)) = some { s with
      shared := s.shared.filter fun r => (s.transaction r).id ≠ some x
      requests := s.requests ++ [⟨.removeTransactionFromDatabase x, none⟩] } := by
  rw [step_remove_same]
  congr 2

/-! ### Queries -/

section Steps

variable [StringEquality] [FIRTimestamp]

/-- A query is evaluated once, on the collection of that instant. -/
lemma step_answer_iff {i : ℕ} {documents : List Doc} :
    s.step (.answer i documents) = some s' ↔
      ∃ q, s.requests[i]? = some ⟨q, none⟩ ∧ documents.Perm (q.select s.collection) ∧
        s' = { s with requests := s.requests.set i ⟨q, some documents⟩ } := by
  simp only [step, answer]
  split
  next q hq =>
    simp only [hq, Option.some.injEq, Request.mk.injEq, and_true, exists_eq_left']
    split_ifs with hperm
    · simp [hperm, eq_comm]
    · simp [hperm]
  next hq =>
    simp only [reduceCtorEq, false_iff]
    rintro ⟨q, hi, -, -⟩
    exact hq q hi

/-- A callback runs once; if the query has succeeded, it runs on the documents found. -/
lemma step_deliver_iff {i : ℕ} {outcome : Outcome} :
    s.step (.deliver i outcome) = some s' ↔
      ∃ q a, s.requests[i]? = some ⟨q, a⟩ ∧
        ((outcome = .failed ∧ s' = { s with requests := s.requests.eraseIdx i }) ∨
          ∃ documents refused, a = some documents ∧ outcome = .succeeded refused ∧
            s' = callback { s with requests := s.requests.eraseIdx i } q documents refused) := by
  simp only [step, deliver]
  split
  next req hreq =>
    obtain ⟨q, a⟩ := req
    simp [hreq, eq_comm]
  next refused q documents hreq =>
    simp [hreq, eq_comm]
  next h₁ h₂ =>
    simp only [reduceCtorEq, false_iff]
    rintro ⟨q, a, hi, ⟨rfl, -⟩ | ⟨documents, refused, rfl, rfl, -⟩⟩
    · exact h₁ _ hi rfl
    · exact h₂ _ _ _ hi rfl

end Steps

/-! ### Signing in and out -/

/-- Signing in changes the user and the listeners only. -/
lemma exists_signIn_eq (s : App) (userId : String) : ∃ user listeners,
    s.signIn userId = { s with currentUser := user, listeners := listeners } := by
  rw [signIn]
  split_ifs <;> exact ⟨_, _, rfl⟩

/-- Signing out changes the user and the listeners only. -/
lemma exists_signOut_eq (s : App) : ∃ user listeners,
    s.signOut = { s with currentUser := user, listeners := listeners } := by
  rw [signOut]
  split_ifs <;> exact ⟨_, _, rfl⟩

/-- A call of a listener uses up one of its calls, and issues a query if a user is signed in. -/
lemma step_callListener_iff [StringEquality] [FIRTimestamp] {i : ℕ} :
    s.step (.callListener i) = some s' ↔
      ∃ n, s.listeners[i]? = some (n + 1) ∧
        s' = { s with
          listeners := s.listeners.set i n
          requests := s.requests ++
            (s.currentUser.map fun u => ⟨.getTransactionsForUser u, none⟩).toList } := by
  simp only [step, callListener]
  split
  next n hn =>
    simp only [hn, Option.some.injEq]
    cases hu : s.currentUser with
    | none => simp [eq_comm]
    | some u => simp [issue, eq_comm]
  next hn =>
    simp only [reduceCtorEq, false_iff]
    rintro ⟨n, hi, -⟩
    exact hn n hi

/-! ### The store -/

/-- The user a fetch has asked for and the documents it has found, if the event is the
successful end of a fetch. -/
def fetched (s : App) : Event → Option (String × List Doc)
  | .deliver i (.succeeded _) =>
      match s.requests[i]? with
      | some ⟨.getTransactionsForUser userId, some documents⟩ => some (userId, documents)
      | _ => none
  | _ => none

lemma fetched_eq_some_iff {e : Event} {v : String} {documents : List Doc} :
    s.fetched e = some (v, documents) ↔ ∃ i refused, e = .deliver i (.succeeded refused) ∧
      s.requests[i]? = some ⟨.getTransactionsForUser v, some documents⟩ := by
  unfold fetched
  split
  next i refused =>
    split
    next heq => simp [heq]
    next hne =>
      simp only [reduceCtorEq, Event.deliver.injEq, Outcome.succeeded.injEq, false_iff]
      rintro ⟨i', refused', ⟨rfl, rfl⟩, heq⟩
      exact hne _ _ heq
  next hne =>
    simp only [reduceCtorEq, false_iff]
    rintro ⟨i, refused, rfl, -⟩
    exact hne _ _ rfl

variable [FIRTimestamp]

/-- The transactions that a loader makes of a list of documents. -/
def loaded (documents : List Doc) : List Transaction := documents.map fun d => decode d.data

/-- What an event makes of the objects and of the store. -/
inductive StoreStep (s : App) : Event → Heap Transaction → List Ref → Prop
  /-- The documents a fetch has found become the store. -/
  | fetched {e : Event} {v : String} {documents : List Doc} :
      s.fetched e = some (v, documents) →
      StoreStep s e (s.heap.create (loaded documents)) (s.heap.created (loaded documents))
  /-- New objects are spliced into the store. -/
  | added {added : List (Transaction × Option String)} {index : Option ℕ}
      {front back : List Ref} :
      s.shared = front ++ back →
      StoreStep s (.add added index) (s.heap.create (added.map Prod.fst))
        (front ++ s.heap.created (added.map Prod.fst) ++ back)
  /-- An object is edited, and the store may have an entry with its id, which it replaces. -/
  | saved {r : Ref} {edit : Edit} {shared : List Ref} :
      r < s.heap.size →
      (shared = s.shared ∨ ∃ front x back, s.shared = front ++ x :: back ∧
        (s.transaction x).id = (s.transaction r).id ∧ shared = front ++ r :: back) →
      StoreStep s (.save r edit) (s.heapAfterSave r edit) shared
  /-- The entries with an id leave the store. -/
  | removed {x : String} :
      StoreStep s (.remove (some x)) s.heap (s.shared.filter fun r => (s.transaction r).id ≠ some x)
  /-- Neither the objects nor the store change. -/
  | unchanged {e : Event} :
      s.fetched e = none → (∀ added index, e ≠ .add added index) → StoreStep s e s.heap s.shared

/-- Every event changes the store in one of these ways. -/
theorem step_store {e : Event} (h : s.step e = some s') :
    s.StoreStep e s'.heap s'.shared := by
  cases e with
  | viewDidAppear => cases h; exact .unchanged rfl (by simp)
  | signIn u =>
      cases h
      obtain ⟨user, listeners, heq⟩ := s.exists_signIn_eq u
      rw [heq]
      exact .unchanged rfl (by simp)
  | signOut =>
      cases h
      obtain ⟨user, listeners, heq⟩ := s.exists_signOut_eq
      rw [heq]
      exact .unchanged rfl (by simp)
  | callListener i =>
      obtain ⟨n, -, rfl⟩ := step_callListener_iff.mp h
      exact .unchanged rfl (by simp)
  | answer i documents =>
      obtain ⟨q, -, -, rfl⟩ := step_answer_iff.mp h
      exact .unchanged rfl (by simp)
  | deliver i outcome =>
      obtain ⟨q, a, hi, ⟨rfl, rfl⟩ | ⟨documents, refused, rfl, rfl, rfl⟩⟩ := step_deliver_iff.mp h
      · exact .unchanged rfl (by simp)
      · cases q with
        | getTransactionsForUser v =>
            exact .fetched (fetched_eq_some_iff.mpr ⟨i, refused, rfl, hi⟩)
        | removeTransactionFromDatabase x =>
            exact .unchanged (by simp [App.fetched, hi]) (by simp)
        | updateTransactionInDatabase x r =>
            exact .unchanged (by simp [App.fetched, hi]) (by simp)
  | add added index =>
      obtain ⟨-, front, back, hshared, -, rfl⟩ := step_add_iff.mp h
      exact .added hshared
  | save r edit =>
      obtain ⟨hr, ⟨-, rfl⟩ | ⟨front, x, back, hshared, -, hx, i, -, rfl⟩⟩ := step_save_iff.mp h
      · exact .saved hr (Or.inl rfl)
      · exact .saved hr (Or.inr ⟨front, x, back, hshared, hx, rfl⟩)
  | remove x =>
      cases x with
      | none => cases h; exact .unchanged rfl (by simp)
      | some x => cases h; exact .removed
  | remote c => cases h; exact .unchanged rfl (by simp)

/-- A store that refers to existing objects does so after the event. -/
lemma StoreStep.lt_size {e : Event} {heap : Heap Transaction} {shared : List Ref}
    (h : s.StoreStep e heap shared) (hs : ∀ r ∈ s.shared, r < s.heap.size) :
    s.heap.size ≤ heap.size ∧ ∀ r ∈ shared, r < heap.size := by
  cases h with
  | fetched _ => exact ⟨by simp, fun r hr => by simpa using (Heap.mem_created.mp hr).2⟩
  | @added added index front back hshared =>
      refine ⟨by simp, fun r hr => ?_⟩
      have hold := hs r
      simp only [hshared, List.mem_append, Heap.mem_created] at hr hold
      rw [Heap.size_create]
      rcases hr with (hr | hr) | hr
      · exact (hold (Or.inl hr)).trans_le (Nat.le_add_right _ _)
      · exact hr.2
      · exact (hold (Or.inr hr)).trans_le (Nat.le_add_right _ _)
  | @saved r edit shared hr hsaved =>
      refine ⟨by simp, fun x hx => ?_⟩
      rw [size_heapAfterSave]
      rcases hsaved with rfl | ⟨front, y, back, hshared, -, rfl⟩
      · exact hs x hx
      · have hold := hs x
        simp only [hshared, List.mem_append, List.mem_cons] at hx hold
        rcases hx with hx | rfl | hx
        · exact hold (Or.inl hx)
        · exact hr
        · exact hold (Or.inr (Or.inr hx))
  | removed => exact ⟨le_rfl, fun r hr => hs r (List.mem_filter.mp hr).1⟩
  | unchanged _ _ => exact ⟨le_rfl, hs⟩

/-- An event that is neither a fetch nor caused by a button leaves the objects and the store
alone. -/
lemma step_background {e : Event} (hb : e.Background = true) (hf : s.fetched e = none)
    (h : s.step e = some s') : s'.heap = s.heap ∧ s'.shared = s.shared := by
  have hstore := step_store h
  generalize s'.heap = heap, s'.shared = shared at hstore
  cases hstore with
  | fetched hf' => cases hf.symm.trans hf'
  | added _ => cases hb
  | saved _ _ => cases hb
  | removed => cases hb
  | unchanged _ _ => exact ⟨rfl, rfl⟩

/-- The successful end of a fetch replaces the store by new objects for the documents found. -/
lemma step_fetched {e : Event} {v : String} {documents : List Doc}
    (hf : s.fetched e = some (v, documents)) (h : s.step e = some s') :
    s'.heap = s.heap.create (loaded documents) ∧
      s'.shared = s.heap.created (loaded documents) := by
  have hstore := step_store h
  generalize s'.heap = heap, s'.shared = shared at hstore
  cases hstore with
  | fetched hf' =>
      cases hf.symm.trans hf'
      exact ⟨rfl, rfl⟩
  | added _ => cases hf
  | saved _ _ => cases hf
  | removed => cases hf
  | unchanged hf' _ => cases hf.symm.trans hf'

/-- Only signing in and signing out change the signed-in user. -/
lemma step_currentUser {e : Event} (hin : ∀ u, e ≠ .signIn u) (hout : e ≠ .signOut)
    (h : s.step e = some s') : s'.currentUser = s.currentUser := by
  cases e with
  | viewDidAppear => cases h; rfl
  | signIn u => exact absurd rfl (hin u)
  | signOut => exact absurd rfl hout
  | callListener i =>
      obtain ⟨n, -, rfl⟩ := step_callListener_iff.mp h
      rfl
  | answer i documents =>
      obtain ⟨q, -, -, rfl⟩ := step_answer_iff.mp h
      rfl
  | deliver i outcome =>
      obtain ⟨q, a, -, ⟨-, rfl⟩ | ⟨documents, refused, -, -, rfl⟩⟩ := step_deliver_iff.mp h
      · rfl
      · cases q <;> rfl
  | add added index =>
      obtain ⟨-, front, back, -, -, rfl⟩ := step_add_iff.mp h
      rfl
  | save r edit =>
      obtain ⟨-, ⟨-, rfl⟩ | ⟨front, x, back, -, -, -, i, -, rfl⟩⟩ := step_save_iff.mp h <;> rfl
  | remove x => cases x <;> (cases h; rfl)
  | remote c => cases h; rfl

/-! ### The queries -/

/-- The event issues the query. -/
inductive Issues (s : App) : Event → Query → Prop
  | fetch {i : ℕ} {u : String} :
      s.currentUser = some u → Issues s (.callListener i) (.getTransactionsForUser u)
  | update {r : Ref} {edit : Edit} {x : String} :
      r < s.heap.size → (s.transaction r).id = some x →
      Issues s (.save r edit) (.updateTransactionInDatabase x r)
  | remove {x : String} : Issues s (.remove (some x)) (.removeTransactionFromDatabase x)

/-! ### The collection -/

/-- What an event makes of the collection. -/
inductive CollectionStep (s : App) : Event → Transactions → Prop
  /-- The callback of a deletion. -/
  | deleted {i : ℕ} {x : String} {documents : List Doc} {refused : List String} :
      s.requests[i]? = some ⟨.removeTransactionFromDatabase x, some documents⟩ →
      CollectionStep s (.deliver i (.succeeded refused))
        (s.collection.deleteAll (written documents refused))
  /-- The callback of an update, which writes the current fields of the captured object. -/
  | overwritten {i : ℕ} {x : String} {r : Ref} {documents : List Doc} {refused : List String} :
      s.requests[i]? = some ⟨.updateTransactionInDatabase x r, some documents⟩ →
      CollectionStep s (.deliver i (.succeeded refused))
        (s.collection.updateAll (written documents refused) (s.transaction r).updateData)
  /-- New documents under new identifiers. -/
  | added {added : List (Transaction × Option String)} {index : Option ℕ} :
      (added.filterMap Prod.snd).Nodup → (∀ i ∈ added.filterMap Prod.snd, ¬ s.Knows i) →
      CollectionStep s (.add added index) (s.collectionAfterAdd added)
  | remote {c : Transactions} : CollectionStep s (.remote c) c
  | unchanged {e : Event} : CollectionStep s e s.collection

/-- Every event changes the collection in one of these ways. -/
theorem step_collection {e : Event} (h : s.step e = some s') :
    s.CollectionStep e s'.collection := by
  cases e with
  | viewDidAppear => cases h; exact .unchanged
  | signIn u =>
      cases h
      obtain ⟨user, listeners, heq⟩ := s.exists_signIn_eq u
      rw [heq]
      exact .unchanged
  | signOut =>
      cases h
      obtain ⟨user, listeners, heq⟩ := s.exists_signOut_eq
      rw [heq]
      exact .unchanged
  | callListener i =>
      obtain ⟨n, -, rfl⟩ := step_callListener_iff.mp h
      exact .unchanged
  | answer i documents =>
      obtain ⟨q, -, -, rfl⟩ := step_answer_iff.mp h
      exact .unchanged
  | deliver i outcome =>
      obtain ⟨q, a, hi, ⟨-, rfl⟩ | ⟨documents, refused, rfl, rfl, rfl⟩⟩ := step_deliver_iff.mp h
      · exact .unchanged
      · cases q with
        | getTransactionsForUser v => exact .unchanged
        | removeTransactionFromDatabase x => exact .deleted hi
        | updateTransactionInDatabase x r => exact .overwritten hi
  | add added index =>
      obtain ⟨⟨hnodup, hnew⟩, front, back, -, -, rfl⟩ := step_add_iff.mp h
      exact .added hnodup hnew
  | save r edit =>
      obtain ⟨-, ⟨-, rfl⟩ | ⟨front, x, back, -, -, -, i, -, rfl⟩⟩ := step_save_iff.mp h
      · exact .unchanged
      · exact .unchanged
  | remove x =>
      cases x with
      | none => cases h; exact .unchanged
      | some x => cases h; exact .unchanged
  | remote c => cases h; exact .remote

end App

end SpendingTracker
