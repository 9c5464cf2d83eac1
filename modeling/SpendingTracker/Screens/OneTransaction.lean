import SpendingTracker.Screens.EditFrame

/-!
# Deleting and saving one transaction

The list drops an entry by its position, the store by its id, and the database by a query for the
id; `updatetransaction` looks for the first entry with an equal id, and two missing ids are equal.
When the documents that have been loaded lack ids or share them, these rules mean different
transactions, and so they do when ids are equal for Swift and not for the query.  This file says
exactly when they mean the same one.
-/

namespace SpendingTracker

open Lib StringEquality

/-! ### The statement -/

/-- A step that a button waits for and that succeeds. -/
def Event.Succeeds : Event → Prop
  | .answer _ _ => True
  | .deliver _ outcome => outcome = .succeeded []
  | _ => False

lemma Event.Succeeds.settles {e : Event} (h : e.Succeeds) : e.Settles := by
  cases e with
  | answer i documents => trivial
  | deliver i outcome => trivial
  | _ => exact h.elim

/-- Every query has been answered and every write has succeeded after the steps `rest`. -/
structure Finished (rest : List Event) (T : Screens) : Prop where
  succeeds : ∀ e ∈ rest, e.Succeeds
  done : T.app.requests = []

namespace Screens

/-- Between the two states the list, the store and the documents have not changed. -/
structure SameData (S T : Screens) : Prop where
  list : T.list.transactions = S.list.transactions
  shared : T.app.shared = S.app.shared
  heap : T.app.heap = S.app.heap
  documents : T.app.collection.documents = S.app.collection.documents

/-- The list and the store have lost the entry at a row, and the database has lost the document
`d`. -/
structure DeletedOne (row : ℕ) (d : Doc) (S T : Screens) : Prop where
  list : T.list.transactions = S.list.transactions.eraseIdx row
  shared : T.app.shared = S.app.shared.eraseIdx row
  heap : T.app.heap = S.app.heap
  documents : T.app.collection.documents = S.app.collection.documents.filter (· ≠ d)

/-- The store has the edited transaction at a row, and the document `d` has been updated. -/
structure SavedOne [FIRTimestamp] (row : ℕ) (d : Doc) (e : Edit) (S T : Screens) : Prop where
  shared : T.app.shared = S.app.shared
  contents : T.app.shared.map T.app.transaction =
    (S.app.shared.map S.app.transaction).set row ((decode d.data).edited e)
  documents : T.app.collection.documents = S.app.collection.documents.map fun x =>
    if x.documentID = d.documentID then d.overwrite ((decode d.data).edited e).updateData else x

/-- Confirming the deletion does not trap, and when it is finished it has removed exactly one
transaction from all three places, or none from any. -/
def DeletesOne [StringEquality] [FIRTimestamp] (showDate : Date → Date → Date) (row : ℕ) (d : Doc)
    (S : Screens) : Prop :=
  S.step showDate .deleteButton ≠ none ∧
    ∀ rest T, Run (step showDate) S (.deleteButton :: rest.map .background) T → Finished rest T →
      DeletedOne row d S T ∨ SameData S T

/-- Saving does not trap, and when it is finished it has written the edit to exactly one entry of
the store and to exactly its document, or to nothing. -/
def SavesOne [StringEquality] [FIRTimestamp] (showDate : Date → Date → Date) (row : ℕ) (d : Doc)
    (screen : DetailScreen) (S : Screens) : Prop :=
  S.step showDate .saveButton ≠ none ∧
    ∀ rest T, Run (step showDate) S (.saveButton :: rest.map .background) T → Finished rest T →
      (∃ e, screen.edit = some e ∧ SavedOne row d e S T) ∨ SameData S T

end Screens

/-- The document has an id, no other document of the collection has the same one, and no other
document of the user `u` has one that equals it. -/
structure HasOwnId [StringEquality] (u : String) (c : Transactions) (d : Doc) : Prop where
  present : ∃ x, docId d = some (.string x)
  own : ∀ d' ∈ c.documents, docId d' = docId d → d' = d
  alone : ∀ d' ∈ userDocuments u c, Same (loadedId d') (loadedId d) → d' = d

/-! ### Waiting for a button -/

section Waiting

variable [StringEquality] [FIRTimestamp] {showDate : Date → Date → Date} {S T : Screens}
  {rest : List Event} {s t : App}

/-- While nobody is at the login screen, the steps that a button waits for are steps of the
app. -/
lemma Screens.run_background_iff (htop : S.top ≠ .login) (hrest : ∀ e ∈ rest, e.Succeeds) :
    Run (step showDate) S (rest.map .background) T ↔
      ∃ app, Run App.step S.app rest app ∧ T = { S with app := app } := by
  have hafter : ∀ (U : Screens) (e : Event) (app : App), U.top ≠ .login → e.Succeeds →
      U.afterBackground e app = { U with app := app } := by
    intro U e app hU he
    have hout : e ≠ .signOut := by
      rintro rfl
      exact he
    rw [afterBackground, if_neg hout, if_neg fun h => hU h.1]
  induction rest generalizing S with
  | nil =>
      constructor
      · intro h
        cases h
        exact ⟨_, .nil _, rfl⟩
      · rintro ⟨app, h, rfl⟩
        cases h
        exact .nil _
  | cons e rest ih =>
      obtain ⟨he, hrest⟩ := List.forall_mem_cons.mp hrest
      constructor
      · intro h
        cases h with
        | cons hs hrun =>
            obtain ⟨-, app, happ, rfl⟩ := step_background_iff.mp hs
            rw [hafter S e app htop he] at hrun
            obtain ⟨app', hrun', rfl⟩ := (ih (S := { S with app := app }) htop hrest).mp hrun
            exact ⟨app', .cons happ hrun', rfl⟩
      · rintro ⟨app', h, rfl⟩
        cases h with
        | @cons _ app _ _ _ happ hrun =>
            have hback : e.Background = true := by
              cases e with
              | answer i documents => rfl
              | deliver i outcome => rfl
              | _ => exact he.elim
            refine .cons (step_background_iff.mpr ⟨hback, app, happ, hafter S e app htop he⟩) ?_
            exact (ih (S := { S with app := app }) htop hrest).mpr ⟨app', hrun, rfl⟩

/-- When a query has been waited for and nothing has failed, all its writes have been made. -/
lemma wrote_of_succeeds (run : Run App.step s rest t) (hrest : ∀ e ∈ rest, e.Succeeds)
    (hissued : s.requests ≠ []) (done : t.requests = []) (d : Doc) : Wrote rest d := by
  induction run with
  | nil => exact absurd done hissued
  | @cons s s' t e es hs _ ih =>
      obtain ⟨he, hes⟩ := List.forall_mem_cons.mp hrest
      cases e with
      | answer i documents =>
          obtain ⟨q, -, -, rfl⟩ := App.step_answer_iff.mp hs
          obtain ⟨e', he', hwrites⟩ := ih hes (by simpa using hissued) done
          exact ⟨e', List.mem_cons_of_mem _ he', hwrites⟩
      | deliver i outcome =>
          obtain rfl : outcome = .succeeded [] := he
          exact ⟨_, List.mem_cons_self, by simp [Event.Writes]⟩
      | _ => exact he.elim

/-- After an operation that waits for a query, when nothing has failed: the store has the change,
and all writes have been made. -/
lemma App.Leaves.of_succeeds {op : Event} {s' : App} (h : s.Leaves op rest t)
    (run : Run App.step s (op :: rest) t) (hop : s.step op = some s') (hissued : s'.requests ≠ [])
    (hrest : ∀ e ∈ rest, e.Succeeds) (done : t.requests = []) :
    t.heap = s'.heap ∧ t.shared = s'.shared ∧ ∀ d, Wrote rest d := by
  obtain ⟨s'', hs'', hheap, hshared⟩ := h.store
  obtain rfl : s' = s'' := Option.some.inj (hop.symm.trans hs'')
  refine ⟨hheap, hshared, ?_⟩
  cases run with
  | cons hs hrun =>
      obtain rfl := Option.some.inj (hop.symm.trans hs)
      exact wrote_of_succeeds hrun hrest hissued done

/-- A query that has been issued alone can be answered and delivered. -/
lemma exists_run_of_issued {q : Query} (hq : s.requests = [⟨q, none⟩]) :
    ∃ rest t, Run App.step s rest t ∧ (∀ e ∈ rest, e.Succeeds) ∧ t.requests = [] := by
  obtain ⟨s₁, hs₁⟩ : ∃ s₁, s₁ = { s with
    requests := s.requests.set 0 ⟨q, some (q.select s.collection)⟩ } := ⟨_, rfl⟩
  have hanswer : s.step (.answer 0 (q.select s.collection)) = some s₁ :=
    App.step_answer_iff.mpr ⟨q, by simp [hq], .refl _, hs₁⟩
  have hreq : s₁.requests = [⟨q, some (q.select s.collection)⟩] := by
    simp [hs₁, hq]
  have hdeliver : s₁.step (.deliver 0 (.succeeded [])) = some (App.callback
      { s₁ with requests := s₁.requests.eraseIdx 0 } q (q.select s.collection) []) :=
    App.step_deliver_iff.mpr ⟨q, some (q.select s.collection), by simp [hreq],
      Or.inr ⟨_, [], rfl, rfl, rfl⟩⟩
  refine ⟨_, _, .cons hanswer (.cons hdeliver (.nil _)), by simp [Event.Succeeds], ?_⟩
  cases q <;> simp [App.callback, App.load, App.setTransactions, hreq]

end Waiting

/-! ### The opened transaction -/

lemma DetailScreen.signedText_input {d : DetailScreen} (h : SignedText d.amountField) (i : Input) :
    SignedText (d.input i).amountField := by
  cases i with
  | editAmount location length replacement => exact h.editText _ _ _
  | _ => exact h

section Opened

variable [FIRTimestamp] {showDate : Date → Date → Date} {u : String} {documents : List Doc}
  {c : Transactions}
  {row : ℕ} {now : Date} {inputs : List Input} {d : Doc} {S T : Screens} {screen : DetailScreen}
  {e : Edit} {rest : List Event} {t : App}

/-- The transaction at a row has been opened, and the user has entered something. -/
structure Opened (u : String) (documents : List Doc) (c : Transactions) (row : ℕ)
    (screen : DetailScreen) (S : Screens) : Prop where
  app : S.app = App.session u documents c
  list : S.list.transactions = S.app.shared
  top : S.top = .detail screen
  transaction : screen.transaction = row
  row : screen.row = row
  text : SignedText screen.amountField

lemma Opened.requests_eq (h : Opened u documents c row screen S) : S.app.requests = [] := by
  rw [h.app]
  rfl

lemma Opened.documents_eq (h : Opened u documents c row screen S) :
    S.app.collection.documents = c.documents := by
  rw [h.app]
  rfl

lemma Opened.nodup (h : Opened u documents c row screen S) : S.app.shared.Nodup := by
  rw [h.app]
  exact List.nodup_range'

/-- Each row of the store holds the object that has been read from its document. -/
lemma Opened.entry (h : Opened u documents c row screen S) {j : ℕ} {x : Doc}
    (hx : documents[j]? = some x) :
    S.app.shared[j]? = some j ∧ S.app.transaction j = decode x.data := by
  rw [h.app]
  exact session_row hx

lemma Opened.row_lt (h : Opened u documents c row screen S) (shown : documents[row]? = some d) :
    row < S.list.transactions.length := by
  rw [h.list]
  exact (List.getElem?_eq_some_iff.mp (h.entry shown).1).1

variable [StringEquality]

/-- What holds of the detail screen once a transaction has been opened. -/
lemma opened_of_run (shown : documents[row]? = some d)
    (run : Run (Screens.step showDate) (.loaded u documents c)
      (.openDetail row now :: inputs.map .input) S) (top : S.top = .detail screen) :
    Opened u documents c row screen S := by
  cases run with
  | cons hopen run =>
      obtain ⟨-, r, d₀, hr, hd₀, rfl⟩ := Screens.step_openDetail hopen
      obtain rfl := Screens.run_inputs rfl run
      obtain rfl : r = row := Option.some.inj (hr.symm.trans (session_row shown).1)
      obtain rfl : inputs.foldl DetailScreen.input d₀ = screen := by simpa using top
      obtain ⟨date, -, rfl⟩ := DetailScreen.viewDidLoad_eq_some hd₀
      refine ⟨rfl, rfl, rfl, DetailScreen.transaction_foldl_input _ _, ?_, ?_⟩
      · refine List.foldlRecOn inputs DetailScreen.input (motive := fun d => d.row = r) ?_
          fun d hd i _ => (d.row_input i).trans hd
        rfl
      · refine List.foldlRecOn inputs DetailScreen.input
          (motive := fun d => SignedText d.amountField) ?_ fun d hd i _ => d.signedText_input hd i
        cases hamount : ((Screens.loaded u documents c).app.transaction r).amount with
        | none => simpa [hamount] using signedText_nil
        | some amount => simpa [hamount] using signedText_amountDescription amount

/-- No other row has an id that equals the one of a document with an id of its own. -/
lemma Opened.unique (h : Opened u documents c row screen S)
    (loaded : documents.Perm (userDocuments u c)) (shown : documents[row]? = some d)
    (own : HasOwnId u c d) {j r : ℕ} (hj : S.app.shared[j]? = some r)
    (hid : Same (S.app.transaction r).id (S.app.transaction row).id) : j = row := by
  have hlen : S.app.shared.length = documents.length := by
    rw [h.app]
    simp [App.session, App.load, App.setTransactions]
  obtain ⟨hlt, -⟩ := List.getElem?_eq_some_iff.mp hj
  have hdoc : documents[j]? = some documents[j] := List.getElem?_eq_getElem (by omega)
  obtain ⟨hjrow, hjtransaction⟩ := h.entry hdoc
  obtain rfl : j = r := Option.some.inj (hjrow.symm.trans hj)
  rw [hjtransaction, (h.entry shown).2, App.id_decode, App.id_decode] at hid
  have heq := own.alone _ (loaded.mem_iff.mp (List.mem_of_getElem? hdoc)) hid
  have hnodup : documents.Nodup := loaded.nodup_iff.mpr (userDocuments_nodup u c)
  exact (List.getElem?_inj (by omega) hnodup).mp (by rw [hdoc, heq, shown])

/-! ### Deleting -/

/-- The screens after the deletion has left the app in a state. -/
def Screens.afterDelete (S : Screens) (row : ℕ) (app : App) : Screens :=
  ⟨app, { S.list with transactions := S.list.transactions.eraseIdx row }, .appearing⟩

/-- Confirming the deletion removes the transaction by its id from the store. -/
lemma Opened.step_delete (h : Opened u documents c row screen S)
    (shown : documents[row]? = some d) :
    S.step showDate .deleteButton =
      (S.app.step (.remove (decode d.data).id)).map (S.afterDelete row) := by
  have hid : S.app.transaction screen.transaction = decode d.data := by
    rw [h.transaction]
    exact (h.entry shown).2
  simp only [Screens.step, h.top, Screens.deleteButton]
  rw [h.row, if_pos (h.row_lt shown), hid]
  rfl

/-- The deletion of an opened transaction, seen from the app. -/
lemma Opened.run_delete_iff (h : Opened u documents c row screen S)
    (shown : documents[row]? = some d) (hrest : ∀ e ∈ rest, e.Succeeds) :
    Run (Screens.step showDate) S (.deleteButton :: rest.map .background) T ↔
      ∃ app, Run App.step S.app (.remove (decode d.data).id :: rest) app ∧
        T = S.afterDelete row app := by
  have hbackground : ∀ app : App,
      Run (Screens.step showDate) (S.afterDelete row app) (rest.map .background) T ↔
        ∃ app', Run App.step app rest app' ∧ T = S.afterDelete row app' := fun app =>
    Screens.run_background_iff (by simp [Screens.afterDelete]) hrest
  constructor
  · intro hrun
    cases hrun with
    | cons hs hrun =>
        rw [h.step_delete shown] at hs
        obtain ⟨app, happ, rfl⟩ := Option.map_eq_some_iff.mp hs
        obtain ⟨app', hrun', rfl⟩ := (hbackground app).mp hrun
        exact ⟨app', .cons happ hrun', rfl⟩
  · rintro ⟨app', hrun, rfl⟩
    cases hrun with
    | @cons _ app _ _ _ happ hrun =>
        have hs : S.step showDate .deleteButton = some (S.afterDelete row app) := by
          rw [h.step_delete shown, happ, Option.map_some]
        exact .cons hs ((hbackground app).mpr ⟨app', hrun, rfl⟩)

/-- Without an id the list loses its entry and nothing else happens. -/
lemma Opened.exists_id (h : Opened u documents c row screen S) (shown : documents[row]? = some d)
    (hdelete : S.DeletesOne showDate row d) : ∃ x, (decode d.data).id = some x := by
  rw [← Option.ne_none_iff_exists']
  intro hnone
  have hrow := h.row_lt shown
  have hrun : Run App.step S.app [.remove (decode d.data).id] S.app := by
    rw [hnone]
    exact .cons rfl (.nil _)
  have hfinished : Finished [] (S.afterDelete row S.app) :=
    ⟨by simp, h.requests_eq⟩
  rcases hdelete.2 [] _ ((h.run_delete_iff shown (by simp)).mpr ⟨_, hrun, rfl⟩) hfinished with
    hone | hsame
  · have hlen := congrArg List.length hone.shared
    rw [h.list] at hrow
    rw [List.length_eraseIdx_of_lt hrow] at hlen
    simp only [Screens.afterDelete] at hlen
    omega
  · have hlen := congrArg List.length hsame.list
    simp only [Screens.afterDelete, List.length_eraseIdx_of_lt hrow] at hlen
    omega

/-- The steps after the deletion of an id, when all of them have succeeded. -/
lemma Opened.after_remove {x : String} (h : Opened u documents c row screen S)
    (run : Run App.step S.app (.remove (some x) :: rest) t) (hrest : ∀ e ∈ rest, e.Succeeds)
    (done : t.requests = []) :
    t.heap = S.app.heap ∧
      t.shared = S.app.shared.filter (fun r => ¬ Same (S.app.transaction r).id (some x)) ∧
      t.collection.documents =
        S.app.collection.documents.filter fun d => ¬ docId d = some (.string x) := by
  have hleaves := App.leaves_remove h.requests_eq run (fun e he => (hrest e he).settles) done
  obtain ⟨hheap, hshared, hwrote⟩ :=
    hleaves.of_succeeds run (App.step_remove_same x) (by simp) hrest done
  refine ⟨hheap, hshared, hleaves.documents.trans ?_⟩
  simp [App.documentsAfter, hwrote]

/-- The deletion of a transaction with an id can be finished. -/
lemma Opened.exists_finished (showDate : Date → Date → Date)
    (h : Opened u documents c row screen S) (shown : documents[row]? = some d) {x : String}
    (hx : (decode d.data).id = some x) :
    ∃ rest t, Run App.step S.app (.remove (some x) :: rest) t ∧
      (∀ e ∈ rest, e.Succeeds) ∧ t.requests = [] ∧
      Run (Screens.step showDate) S (.deleteButton :: rest.map .background)
        (S.afterDelete row t) := by
  have hissued : S.app.requests ++ [⟨.removeTransactionFromDatabase x, none⟩] =
      [⟨.removeTransactionFromDatabase x, none⟩] := by rw [h.requests_eq, List.nil_append]
  obtain ⟨rest, t, hrun, hrest, hdone⟩ := exists_run_of_issued
    (s := { S.app with
      shared := S.app.shared.filter fun r => ¬ Same (S.app.transaction r).id (some x)
      requests := S.app.requests ++ [⟨.removeTransactionFromDatabase x, none⟩] }) hissued
  have hrun' : Run App.step S.app (.remove (some x) :: rest) t :=
    .cons (App.step_remove_same x) hrun
  exact ⟨rest, t, hrun', hrest, hdone, (h.run_delete_iff shown hrest).mpr ⟨t, hx ▸ hrun', rfl⟩⟩

/-- Deleting the right things takes an id that no other document has. -/
lemma Opened.hasOwnId (h : Opened u documents c row screen S)
    (loaded : documents.Perm (userDocuments u c)) (shown : documents[row]? = some d)
    (hd : d ∈ c.documents) (hdelete : S.DeletesOne showDate row d) : HasOwnId u c d := by
  obtain ⟨x, hx⟩ := h.exists_id shown hdelete
  have hdx := App.id_decode_eq_some_iff.mp hx
  obtain ⟨rest, t, hrun, hrest, hdone, hscreens⟩ := h.exists_finished showDate shown hx
  obtain ⟨-, hshared, hdocs⟩ := h.after_remove hrun hrest hdone
  -- the query has found every document with the id
  have hgone : ∀ y ∈ c.documents, docId y = some (.string x) → y ∉ t.collection.documents := by
    intro y _ hy hmem
    rw [hdocs, List.mem_filter] at hmem
    simp [hy] at hmem
  have hone : Screens.DeletedOne row d S (S.afterDelete row t) := by
    refine (hdelete.2 rest _ hscreens ⟨hrest, hdone⟩).resolve_right fun hsame => ?_
    refine absurd ?_ (hgone d hd hdx)
    rwa [show t.collection.documents = _ from hsame.documents, h.documents_eq]
  refine ⟨⟨x, hdx⟩, fun d' hd' hid => ?_, fun d' hd' hid => ?_⟩
  · by_contra hne
    refine hgone d' hd' (hid.trans hdx) ?_
    rw [show t.collection.documents = _ from hone.documents, h.documents_eq]
    exact List.mem_filter.mpr ⟨hd', decide_eq_true hne⟩
  -- the filter has dropped the entry of such a document, which is that of the row
  · obtain ⟨j, hj⟩ := List.mem_iff_getElem?.mp (loaded.mem_iff.mpr hd')
    obtain ⟨hentry, htransaction⟩ := h.entry hj
    have hdropped : j ∉ t.shared := by
      rw [hshared, List.mem_filter, htransaction, App.id_decode]
      rw [loadedId_eq_some_iff.mpr hdx] at hid
      simp [hid]
    rw [show t.shared = _ from hone.shared, List.mem_eraseIdx_iff_getElem?] at hdropped
    by_contra hne
    refine hdropped ⟨j, fun heq => hne ?_, hentry⟩
    exact Option.some.inj (hj.symm.trans (heq ▸ shown))

/-- With an id of its own, a transaction is deleted from all three places. -/
lemma Opened.deletesOne (h : Opened u documents c row screen S)
    (loaded : documents.Perm (userDocuments u c)) (shown : documents[row]? = some d)
    (own : HasOwnId u c d) : S.DeletesOne showDate row d := by
  obtain ⟨x, hdx⟩ := own.present
  have hx := App.id_decode_eq_some_iff.mpr hdx
  refine ⟨?_, fun rest T hrun hfinished => Or.inl ?_⟩
  · rw [h.step_delete shown, hx, App.step_remove_same]
    simp
  · obtain ⟨t, hrun', rfl⟩ := (h.run_delete_iff shown hfinished.succeeds).mp hrun
    rw [hx] at hrun'
    obtain ⟨hheap, hshared, hdocs⟩ := h.after_remove hrun' hfinished.succeeds hfinished.done
    obtain ⟨hrow, htransaction⟩ := h.entry shown
    refine ⟨rfl, hshared.trans ?_, hheap, hdocs.trans ?_⟩
    · refine (eraseIdx_eq_filter_of_unique (q := fun r => Same (S.app.transaction r).id (some x))
        hrow ?_ fun j r hj hid => h.unique loaded shown own hj ?_).symm
      · rw [htransaction, hx]
      · rwa [htransaction, hx]
    · refine List.filter_congr fun d' hd' => decide_eq_decide.mpr (not_congr ⟨fun hid => ?_, ?_⟩)
      · exact own.own d' (h.documents_eq ▸ hd') (hid.trans hdx.symm)
      · rintro rfl
        exact hdx

/-! ### Saving -/

/-- An opened transaction with an id of its own is the entry that saving finds. -/
lemma Opened.step_save (h : Opened u documents c row screen S)
    (loaded : documents.Perm (userDocuments u c)) (shown : documents[row]? = some d)
    (own : HasOwnId u c d) {x : String} (hx : docId d = some (.string x)) :
    S.app.step (.save row e) = some { S.app with
      heap := S.app.heapAfterSave row e
      requests := [⟨.updateTransactionInDatabase x row, none⟩] } := by
  obtain ⟨hrow, htransaction⟩ := h.entry shown
  have hid : (S.app.transaction row).id = some x := by
    rw [htransaction]
    exact App.id_decode_eq_some_iff.mpr hx
  obtain ⟨hlt, hget⟩ := List.getElem?_eq_some_iff.mp hrow
  have hsplit : S.app.shared = S.app.shared.take row ++ row :: S.app.shared.drop (row + 1) := by
    conv_lhs => rw [← List.take_append_drop row S.app.shared, List.drop_eq_getElem_cons hlt, hget]
  refine App.step_save_same_iff.mpr ⟨App.IdsDistinct.lt_size_of_id (by simp [hid]), Or.inr
    ⟨S.app.shared.take row, row, S.app.shared.drop (row + 1), hsplit, fun y hy hyid => ?_,
      same_refl _, x, hid, ?_⟩⟩
  -- no row before it has its id
  · obtain ⟨j, hj, rfl⟩ := List.mem_iff_getElem.mp hy
    rw [List.length_take] at hj
    rw [List.getElem_take] at hyid
    have hjrow : j = row :=
      h.unique loaded shown own (List.getElem?_eq_getElem (by omega)) hyid
    omega
  · rw [← hsplit, h.requests_eq, List.nil_append]

/-- The steps after a save, when all of them have succeeded. -/
lemma Opened.after_save (h : Opened u documents c row screen S)
    (loaded : documents.Perm (userDocuments u c)) (shown : documents[row]? = some d)
    (own : HasOwnId u c d) (run : Run App.step S.app (.save row e :: rest) t)
    (hrest : ∀ e ∈ rest, e.Succeeds) (done : t.requests = []) :
    t.shared = S.app.shared ∧
      t.shared.map t.transaction =
        (S.app.shared.map S.app.transaction).set row ((decode d.data).edited e) ∧
      t.collection.documents = S.app.collection.documents.map fun x =>
        if x.documentID = d.documentID then d.overwrite ((decode d.data).edited e).updateData
        else x := by
  obtain ⟨x, hx⟩ := own.present
  have hstep := h.step_save (e := e) loaded shown own hx
  obtain ⟨hrow, htransaction⟩ := h.entry shown
  have hleaves := App.leaves_save h.requests_eq run (fun e he => (hrest e he).settles) done
  obtain ⟨hheap, hshared, hwrote⟩ := hleaves.of_succeeds run hstep (by simp) hrest done
  have hd := mem_documents_of_shown loaded shown
  rw [← htransaction]
  refine ⟨hshared, ?_, hleaves.documents.trans (documentsAfter_save (h.documents_eq ▸ hd) ?_
    (h.documents_eq ▸ own.own) (List.mem_of_getElem? hrow) hwrote)⟩
  · have hr : row < S.app.heap.size :=
      App.IdsDistinct.lt_size_of_id (by simp [htransaction, App.id_decode_eq_some_iff.mpr hx])
    rw [hshared, ← map_ite_eq_set h.nodup hrow, App.transaction_eq_read, hheap]
    exact List.map_congr_left fun z _ => App.read_heapAfterSave hr
  · rw [htransaction, hx, storedId_eq_string_iff, App.id_decode_eq_some_iff, hx]

/-- Saving does not trap only if the sign of the amount is in place. -/
lemma Opened.signInPlace (h : Opened u documents c row screen S)
    (hsave : S.step showDate .saveButton ≠ none) : SignInPlace screen.amountField := by
  obtain ⟨T, hT⟩ := Option.ne_none_iff_exists'.mp hsave
  obtain ⟨screen', htop, hcases⟩ := Screens.step_saveButton hT
  obtain rfl : screen = screen' := by simpa [h.top] using htop
  by_cases hempty : screen.amountField = []
  · exact Or.inl (by simp [hempty])
  · rcases hcases with ⟨hcheck, -⟩ | ⟨-, e, app, he, -⟩
    · simp [DetailScreen.CheckAttributes, hempty] at hcheck
    · obtain ⟨amount, hamount, -⟩ := Option.map_eq_some_iff.mp he
      exact (h.text.parseInt_ne_none_iff hempty).mp (by simp [hamount])

/-- With an id of its own and the sign of the amount in place, a transaction is saved. -/
lemma Opened.savesOne (h : Opened u documents c row screen S)
    (loaded : documents.Perm (userDocuments u c)) (shown : documents[row]? = some d)
    (own : HasOwnId u c d) (sign : SignInPlace screen.amountField) :
    S.SavesOne showDate row d screen := by
  obtain ⟨x, hx⟩ := own.present
  by_cases hempty : screen.amountField = []
  -- nothing is saved
  · have hstep : S.step showDate .saveButton = some S := by
      simp [Screens.step, h.top, Screens.saveButton, DetailScreen.CheckAttributes, hempty]
    refine ⟨by simp [hstep], fun rest T hrun hfinished => Or.inr ?_⟩
    cases hrun with
    | cons hs hrun =>
        obtain rfl := Option.some.inj (hstep.symm.trans hs)
        obtain ⟨app, hrun', rfl⟩ :=
          (Screens.run_background_iff (by simp [h.top]) hfinished.succeeds).mp hrun
        obtain ⟨-, rfl⟩ := App.settled_nil hrun' h.requests_eq
          fun e he => (hfinished.succeeds e he).settles
        exact ⟨rfl, rfl, rfl, rfl⟩
  · have hcheck : screen.CheckAttributes = true := by
      simp [DetailScreen.CheckAttributes, hempty]
    obtain ⟨amount, hamount⟩ := Option.ne_none_iff_exists'.mp
      ((h.text.parseInt_ne_none_iff hempty).mpr sign)
    obtain ⟨e, he⟩ : ∃ e, screen.edit = some e := ⟨_, by rw [DetailScreen.edit, hamount]; rfl⟩
    have hstep : S.step showDate .saveButton =
        (S.app.step (.save row e)).map fun app => { S with app := app, top := .appearing } := by
      simp [Screens.step, h.top, Screens.saveButton, hcheck, he, h.transaction]
    refine ⟨by simp [hstep, h.step_save loaded shown own hx], fun rest T hrun hfinished =>
      Or.inl ⟨e, he, ?_⟩⟩
    cases hrun with
    | cons hs hrun =>
        rw [hstep] at hs
        obtain ⟨app, happ, rfl⟩ := Option.map_eq_some_iff.mp hs
        obtain ⟨app', hrun', rfl⟩ :=
          (Screens.run_background_iff (by simp) hfinished.succeeds).mp hrun
        obtain ⟨hshared, hcontents, hdocs⟩ := h.after_save loaded shown own (.cons happ hrun')
          hfinished.succeeds hfinished.done
        exact ⟨hshared, hcontents, hdocs⟩

/-- **One transaction at a time.**  Let the list show what has been loaded of the user's
documents, let the document `d` be the one at a row, and let the user open this row and enter
something.  Confirming the deletion removes exactly this transaction from the list, the store and
the database or changes none of them, and saving writes exactly this entry and this document or
nothing and does not trap, if and only if the document has an id that no other document of the
collection has and that equals no other id of the user's documents, and a minus sign in the
amount field stands at the start before a digit. -/
theorem deletesOne_and_savesOne_iff (loaded : documents.Perm (userDocuments u c))
    (shown : documents[row]? = some d)
    (run : Run (Screens.step showDate) (.loaded u documents c)
      (.openDetail row now :: inputs.map .input) S)
    (top : S.top = .detail screen) :
    S.DeletesOne showDate row d ∧ S.SavesOne showDate row d screen ↔
      HasOwnId u c d ∧ SignInPlace screen.amountField := by
  have h := opened_of_run shown run top
  have hd := mem_documents_of_shown loaded shown
  constructor
  · rintro ⟨hdelete, hsave⟩
    exact ⟨h.hasOwnId loaded shown hd hdelete, h.signInPlace hsave.1⟩
  · rintro ⟨own, sign⟩
    exact ⟨h.deletesOne loaded shown own, h.savesOne loaded shown own sign⟩

end Opened

/-- The transaction has an id of its own among several, and a digit of its amount has been taken
away. -/
theorem oneExpense_actsOnOne : ∃ S screen,
    Run (Screens.step min) (.loaded "u" [incomeDocument, expenseDocument .sport 7] threeDocuments)
      [.openDetail 1 9, .input (.editAmount 0 1 [])] S ∧
    S.top = .detail screen ∧
    S.DeletesOne min 1 (expenseDocument .sport 7) ∧
    S.SavesOne min 1 (expenseDocument .sport 7) screen := by
  have run : Run (Screens.step min)
      (.loaded "u" [incomeDocument, expenseDocument .sport 7] threeDocuments)
      (.openDetail 1 9 :: [Input.editAmount 0 1 []].map .input) _ := exec_eq_some_iff.mp rfl
  have own : HasOwnId "u" threeDocuments (expenseDocument .sport 7) :=
    ⟨⟨"a", rfl⟩, by decide, by decide⟩
  exact ⟨_, _, run, rfl, (deletesOne_and_savesOne_iff (.swap _ _ _) rfl run rfl).mpr
    ⟨own, Or.inl (by decide)⟩⟩

/-- A document of the user `u` without an id. -/
def withoutId : Doc :=
  ⟨"d", ((Transaction.make "a" .expense .fuel 42 7).addDocumentData "u").erase "id"⟩

/-- A document of the user `u` with the given identifier and id. -/
def withId (documentID id : String) : Doc :=
  ⟨documentID, (Transaction.make id .expense .fuel 42 7).addDocumentData "u"⟩

/-- Two documents with ids that are equal without being the same. -/
def withEqualIds : Transactions := ⟨[withId "d" "\u00e9", withId "e" "e\u0301"], by decide⟩

/-- Deleting a transaction without an id takes away its row only, and saving it traps.  Of two
transactions with equal ids, deleting one takes both out of the store. -/
theorem withoutId_not_actsOnOne :
    (∃ S screen,
      Run (Screens.step min) (.loaded "u" [withoutId] ⟨[withoutId], List.nodup_singleton _⟩)
        [.openDetail 0 9] S ∧
      S.top = .detail screen ∧
      (∃ T, Run (Screens.step min) S [.deleteButton] T ∧ T.list.transactions = [] ∧
        T.app = S.app ∧ T.app.shared = [0]) ∧
      ¬ S.DeletesOne min 0 withoutId ∧
      S.step min .saveButton = none ∧ ¬ S.SavesOne min 0 withoutId screen) ∧
    ∃ S,
      Run (@Screens.step .acute .unchanged min) (.loaded "u" withEqualIds.documents withEqualIds)
        [.openDetail 0 9] S ∧
      ¬ @Screens.DeletesOne .acute .unchanged min 0 (withId "d" "\u00e9") S := by
  constructor
  · have run : Run (Screens.step min)
        (.loaded "u" [withoutId] ⟨[withoutId], List.nodup_singleton _⟩)
        (.openDetail 0 9 :: [].map .input) _ := exec_eq_some_iff.mp rfl
    have opened := opened_of_run (d := withoutId) rfl run rfl
    refine ⟨_, _, run, rfl, ⟨_, exec_eq_some_iff.mp rfl, rfl, rfl, rfl⟩, fun h => ?_, rfl,
      fun h => h.1 rfl⟩
    obtain ⟨x, hx⟩ := opened.exists_id rfl h
    have hnone : (decode withoutId.data).id = none := rfl
    simp [hnone] at hx
  · let := StringEquality.acute
    have run : Run (Screens.step min) (.loaded "u" withEqualIds.documents withEqualIds)
        (.openDetail 0 9 :: [].map .input) _ := exec_eq_some_iff.mp rfl
    have opened := opened_of_run (d := withId "d" "\u00e9") rfl run rfl
    refine ⟨_, run, fun h => ?_⟩
    have own := opened.hasOwnId (.refl _) rfl (by decide) h
    exact absurd (own.alone (withId "e" "e\u0301") (by decide) rfl) (by decide)

end SpendingTracker
