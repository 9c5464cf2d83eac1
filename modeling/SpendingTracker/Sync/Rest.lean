import Mathlib.Data.List.Count
import SpendingTracker.Sync.Atomicity

/-!
# How the app comes to rest

Listeners are called, queries are evaluated and callbacks run, all by themselves and in any
order.  This file bounds how much of this there can be, whatever the order: it is started by the
user only, by what is saved and deleted and by every sign-in and sign-out, once for each login
screen that has ever appeared.  No query is lost on the way, and none is answered twice.
-/

namespace SpendingTracker

open Lib

/-! ### The events -/

namespace Event

/-- A listener is called, a query is evaluated, or a callback runs. -/
def Internal : Event → Bool
  | .callListener _ | .answer _ _ | .deliver _ _ => true
  | _ => false

/-- Someone signs in or out. -/
def Auth : Event → Bool
  | .signIn _ | .signOut => true
  | _ => false

/-- An edit is saved, or a transaction is deleted. -/
def Modifies : Event → Bool
  | .save _ _ | .remove _ => true
  | _ => false

/-- The number of internal events that an event can lead to, with `n` listeners registered. -/
def credit (n : ℕ) : Event → ℕ
  | .viewDidAppear => 3
  | .signIn _ | .signOut => 3 * n
  | .save _ _ | .remove _ => 2
  | _ => 0

end Event

/-- The number of internal events that are still to come for a query. -/
def Request.work (q : Request) : ℕ := if q.answer = none then 2 else 1

lemma Request.work_pos (q : Request) : 0 < q.work := by
  unfold work
  split_ifs <;> omega

namespace App

variable {s s' t : App} {e : Event} {es : List Event}

/-- A bound on the internal events that are still to come: a call of a listener issues a query,
which is evaluated and whose callback runs. -/
def work (s : App) : ℕ := 3 * s.listeners.sum + (s.requests.map Request.work).sum

/-- Nothing is outstanding. -/
def Idle (s : App) : Prop := s.requests = [] ∧ ∀ n ∈ s.listeners, n = 0

lemma requests_callback (s : App) (q : Query) (documents : List Doc) (refused : List String) :
    (s.callback q documents refused).requests = s.requests := by
  cases q <;> rfl

lemma listeners_callback (s : App) (q : Query) (documents : List Doc) (refused : List String) :
    (s.callback q documents refused).listeners = s.listeners := by
  cases q <;> rfl

lemma sum_map_succ (l : List ℕ) : (l.map (· + 1)).sum = l.sum + l.length := by
  induction l with
  | nil => rfl
  | cons n l ih =>
      rw [List.map_cons, List.sum_cons, List.sum_cons, List.length_cons, ih]
      omega

/-! ### What one event costs -/

/-- An internal event does a part of the work. -/
lemma work_step_internal (he : e.Internal = true) (h : s.step e = some s') :
    s'.work < s.work := by
  cases e with
  | callListener i =>
      obtain ⟨n, hi, rfl⟩ := step_callListener_iff.mp h
      obtain ⟨front, back, hl, -, hset⟩ := exists_append_of_getElem? hi
      have hnew : (((s.currentUser.map fun u => (⟨.getTransactionsForUser u, none⟩ :
          Request)).toList).map Request.work).sum ≤ 2 := by
        cases s.currentUser with
        | none => exact Nat.zero_le _
        | some u => exact le_rfl
      rw [work, work, hset, hl, List.map_append]
      simp only [List.sum_append, List.sum_cons]
      omega
  | answer i documents =>
      obtain ⟨q, hi, -, rfl⟩ := step_answer_iff.mp h
      obtain ⟨front, back, hl, -, hset⟩ := exists_append_of_getElem? hi
      rw [work, work, hset, hl]
      simp [Request.work]
  | deliver i outcome =>
      obtain ⟨q, a, hi, hend⟩ := step_deliver_iff.mp h
      obtain ⟨front, back, hl, herase, -⟩ := exists_append_of_getElem? hi
      have hlt : 3 * s.listeners.sum + ((s.requests.eraseIdx i).map Request.work).sum < s.work := by
        have hpos := Request.work_pos ⟨q, a⟩
        rw [work, herase, hl]
        simp only [List.map_append, List.map_cons, List.sum_append, List.sum_cons]
        omega
      rcases hend with ⟨-, rfl⟩ | ⟨documents, refused, -, -, rfl⟩
      · exact hlt
      · rw [work, requests_callback, listeners_callback]
        exact hlt
  | _ => cases he

lemma work_notifyListeners (s : App) :
    s.notifyListeners.work = s.work + 3 * s.listeners.length := by
  simp only [notifyListeners, work, sum_map_succ]
  omega

/-- What another event adds to the work is its credit at most. -/
lemma work_step_le (he : e.Internal = false) (h : s.step e = some s') :
    s'.work ≤ s.work + e.credit s.listeners.length := by
  cases e with
  | viewDidAppear =>
      cases h
      simp only [work, viewDidAppear, List.sum_append, List.sum_singleton, Event.credit]
      omega
  | signIn u =>
      cases h
      rw [signIn]
      split_ifs
      · exact Nat.le_add_right _ _
      · exact (work_notifyListeners _).le
  | signOut =>
      cases h
      rw [signOut]
      split_ifs
      · exact Nat.le_add_right _ _
      · exact (work_notifyListeners _).le
  | add added index =>
      obtain ⟨-, front, back, -, -, rfl⟩ := step_add_iff.mp h
      exact Nat.le_add_right _ _
  | save r edit =>
      obtain ⟨-, ⟨-, rfl⟩ | ⟨front, x, back, -, -, -, i, -, rfl⟩⟩ := step_save_iff.mp h
      · exact Nat.le_add_right _ _
      · simp [work, Request.work, Event.credit, Nat.add_assoc]
  | remove x =>
      cases x with
      | none =>
          cases h
          exact Nat.le_add_right _ _
      | some x =>
          rw [step_remove_some] at h
          cases h
          simp [work, Request.work, Event.credit, Nat.add_assoc]
  | remote c =>
      cases h
      exact Nat.le_add_right _ _
  | _ => cases he

/-- Only a login screen that appears registers a listener. -/
lemma length_listeners_step (h : s.step e = some s') : s'.listeners.length =
    s.listeners.length + if e == .viewDidAppear then 1 else 0 := by
  cases e with
  | viewDidAppear => cases h; simp [viewDidAppear]
  | signIn u =>
      cases h
      rw [signIn]
      split_ifs <;> simp_all [notifyListeners]
  | signOut =>
      cases h
      rw [signOut]
      split_ifs <;> simp_all [notifyListeners]
  | callListener i =>
      obtain ⟨n, -, rfl⟩ := step_callListener_iff.mp h
      simp
  | answer i documents =>
      obtain ⟨q, -, -, rfl⟩ := step_answer_iff.mp h
      simp
  | deliver i outcome =>
      obtain ⟨q, a, -, ⟨-, rfl⟩ | ⟨documents, refused, -, -, rfl⟩⟩ := step_deliver_iff.mp h
      · simp
      · simp [listeners_callback]
  | add added index =>
      obtain ⟨-, front, back, -, -, rfl⟩ := step_add_iff.mp h
      simp
  | save r edit =>
      obtain ⟨-, ⟨-, rfl⟩ | ⟨front, x, back, -, -, -, i, -, rfl⟩⟩ := step_save_iff.mp h <;> simp
  | remove x => cases x <;> (cases h; rfl)
  | remote c => cases h; simp

lemma credit_eq (e : Event) (n : ℕ) : e.credit n = 2 * (if e.Modifies then 1 else 0) +
    3 * (n * if e.Auth then 1 else 0) + 3 * if e == .viewDidAppear then 1 else 0 := by
  cases e <;> simp [Event.credit, Event.Modifies, Event.Auth]

/-- An event is paid for by the work that it does or by its credit. -/
lemma work_step (h : s.step e = some s') :
    (if e.Internal then 1 else 0) + s'.work ≤ s.work + e.credit s.listeners.length := by
  cases he : e.Internal with
  | true =>
      have hlt := work_step_internal he h
      rw [if_pos rfl]
      omega
  | false =>
      rw [if_neg Bool.false_ne_true, Nat.zero_add]
      exact work_step_le he h

/-- **The cost of a run.**  The internal events of a run and the work that is left are paid for by
the work at the start, by two for each modification, and by three for each call that a listener
can come to be owed. -/
theorem internal_le (run : Run App.step s es t) :
    es.countP Event.Internal + t.work ≤ s.work + 2 * es.countP Event.Modifies +
      3 * ((s.listeners.length + es.count .viewDidAppear) * es.countP Event.Auth +
        es.count .viewDidAppear) := by
  induction run with
  | nil s => simp
  | @cons s s' t e es hs _ ih =>
      have hpay := work_step hs
      rw [credit_eq] at hpay
      rw [length_listeners_step hs, Nat.add_assoc _ (ite _ _ _), Nat.add_comm (ite _ _ _)] at ih
      simp only [List.countP_cons, List.count_cons]
      -- each listener is called at most once for the change, those to come included
      have hcalls : s.listeners.length * (if e.Auth = true then 1 else 0) ≤
          (s.listeners.length + (es.count .viewDidAppear + if e == .viewDidAppear then 1 else 0)) *
            (if e.Auth = true then 1 else 0) :=
        Nat.mul_le_mul_right _ (Nat.le_add_right _ _)
      rw [Nat.mul_add (s.listeners.length + _)]
      omega

/-- The app is idle if and only if nothing more happens by itself. -/
lemma idle_iff : s.Idle ↔ ∀ e, e.Internal = true → s.step e = none := by
  constructor
  · rintro ⟨hrequests, hlisteners⟩ e he
    cases hs : s.step e with
    | none => rfl
    | some s' =>
        have hlt := work_step_internal he hs
        have hzero : s.work = 0 := by
          rw [work, hrequests, List.sum_eq_zero hlisteners]
          rfl
        omega
  · intro hstuck
    constructor
    · refine List.eq_nil_iff_forall_not_mem.mpr fun q hq => ?_
      obtain ⟨i, hi⟩ := List.mem_iff_getElem?.mp hq
      -- its callback could be passed an error
      have hs := step_deliver_iff.mpr ⟨q.query, q.answer, hi, Or.inl ⟨rfl, rfl⟩⟩
      cases hs.symm.trans (hstuck _ rfl)
    · intro n hn
      obtain ⟨i, hi⟩ := List.mem_iff_getElem?.mp hn
      cases n with
      | zero => rfl
      | succ n =>
          have hs := step_callListener_iff.mpr ⟨n, hi, rfl⟩
          cases hs.symm.trans (hstuck _ rfl)

/-- **The app comes to rest.**  Launch the app over any collection, let login screens appear `k`
times, let users sign in and out `a` times, and let `m` edits be saved and transactions be
deleted, in any order and with anything else in between.  Listeners, queries and callbacks then
take at most `2 * m + 3 * k * (a + 1)` steps of their own.  From wherever they have got to, they
come to an end whatever is next, and when nothing more happens by itself, nothing is
outstanding. -/
theorem comes_to_rest {c : Transactions} (run : Run App.step (launch c) es t) :
    es.countP Event.Internal ≤ 2 * es.countP Event.Modifies +
      3 * es.count .viewDidAppear * (es.countP Event.Auth + 1) ∧
    ∀ es' t', Run App.step t es' t' → (∀ e ∈ es', e.Internal = true) → es'.length ≤ t.work ∧
      (t'.Idle ↔ ∀ e, e.Internal = true → t'.step e = none) := by
  constructor
  · have hle := internal_le run
    have hstart : (launch c).work = 0 := rfl
    have hnone : (launch c).listeners.length = 0 := rfl
    rw [hstart, hnone, Nat.zero_add, Nat.zero_add] at hle
    rw [Nat.mul_assoc, Nat.mul_add, Nat.mul_one]
    omega
  · intro es' t' run' internal
    have hlength := run'.length_le (C := fun _ e => e.Internal = true)
      (fun _ _ _ he hs => work_step_internal he hs) (.of_mem internal)
    exact ⟨by omega, idle_iff⟩

/-- A user signs in on the second login screen that has appeared, saves the transaction that has
been loaded, and deletes it. -/
def restlessSession : List Event :=
  let d : Doc := ⟨"d", (Transaction.make "a" .income .sport 5 0).addDocumentData "u"⟩
  [.viewDidAppear, .callListener 0, .viewDidAppear, .signIn "u", .callListener 1, .callListener 0,
    .answer 1 [d], .callListener 1, .deliver 1 (.succeeded []),
    .save 0 ⟨some .income, some .fuel, 6, 1⟩, .remove (some "a"), .deliver 0 .failed]

/-- The collection with one document of the user `u`. -/
def oneDocument : Transactions :=
  Collection.empty.addDocument "d" ((Transaction.make "a" .income .sport 5 0).addDocumentData "u")

theorem restlessSession_comes_to_rest : ∃ t, Run App.step (launch oneDocument) restlessSession t ∧
    restlessSession.countP Event.Internal ≤ 2 * restlessSession.countP Event.Modifies +
      3 * restlessSession.count .viewDidAppear * (restlessSession.countP Event.Auth + 1) ∧
    ∀ es' t', Run App.step t es' t' → (∀ e ∈ es', e.Internal = true) → es'.length ≤ t.work ∧
      (t'.Idle ↔ ∀ e, e.Internal = true → t'.step e = none) := by
  have run : Run App.step (launch oneDocument) restlessSession _ := exec_eq_some_iff.mp rfl
  exact ⟨_, run, comes_to_rest run⟩

/-! ### No query is lost -/

/-- The queries that an event issues. -/
def issued (s : App) : Event → List Query
  | .callListener _ => (s.currentUser.map .getTransactionsForUser).toList
  | .save r _ =>
      if s.Finds r then
        ((s.transaction r).id.map (.updateTransactionInDatabase · r)).toList
      else []
  | .remove transactionId => (transactionId.map .removeTransactionFromDatabase).toList
  | _ => []

/-- The query whose callback runs. -/
def delivered (s : App) : Event → List Query
  | .deliver i _ => (s.requests[i]?.map Request.query).toList
  | _ => []

/-- An event keeps the outstanding queries, adds those that it issues and drops the one whose
callback runs. -/
lemma queries_step (h : s.step e = some s') :
    (s'.requests.map Request.query ++ s.delivered e).Perm
      (s.requests.map Request.query ++ s.issued e) := by
  cases e with
  | viewDidAppear => cases h; exact .refl _
  | signIn u =>
      cases h
      obtain ⟨user, listeners, heq⟩ := s.exists_signIn_eq u
      rw [heq]
      exact .refl _
  | signOut =>
      cases h
      obtain ⟨user, listeners, heq⟩ := s.exists_signOut_eq
      rw [heq]
      exact .refl _
  | callListener i =>
      obtain ⟨n, -, rfl⟩ := step_callListener_iff.mp h
      cases hu : s.currentUser <;> simp [delivered, issued, hu]
  | answer i documents =>
      obtain ⟨q, hi, -, rfl⟩ := step_answer_iff.mp h
      obtain ⟨front, back, hl, -, hset⟩ := exists_append_of_getElem? hi
      have hmap : (s.requests.set i ⟨q, some documents⟩).map Request.query =
          s.requests.map Request.query := by
        rw [hset, hl]
        simp
      simp only [delivered, issued, hmap, List.Perm.refl]
  | deliver i outcome =>
      obtain ⟨q, a, hi, hend⟩ := step_deliver_iff.mp h
      obtain ⟨front, back, hl, herase, -⟩ := exists_append_of_getElem? hi
      have hperm : ((s.requests.eraseIdx i).map Request.query ++ [q]).Perm
          (s.requests.map Request.query) := by
        rw [herase, hl]
        simp only [List.map_append, List.map_cons, List.append_assoc]
        exact (List.perm_append_comm).append_left _
      have hdelivered : s.delivered (.deliver i outcome) = [q] := by
        rw [delivered, hi]
        rfl
      have hissued : s.issued (.deliver i outcome) = [] := rfl
      rw [hdelivered, hissued, List.append_nil]
      rcases hend with ⟨-, rfl⟩ | ⟨documents, refused, -, -, rfl⟩
      · exact hperm
      · rw [requests_callback]
        exact hperm
  | add added index =>
      obtain ⟨-, front, back, -, -, rfl⟩ := step_add_iff.mp h
      exact .refl _
  | save r edit =>
      obtain ⟨-, ⟨hno, rfl⟩ | ⟨front, x, back, hshared, -, hx, i, hi, rfl⟩⟩ := step_save_iff.mp h
      · rw [issued, if_neg hno]
        exact .refl _
      · have hfinds : s.Finds r := ⟨x, by simp [hshared], hx⟩
        rw [issued, if_pos hfinds, hi]
        simp [delivered]
  | remove x =>
      cases x with
      | none => cases h; exact .refl _
      | some x =>
          rw [step_remove_some] at h
          cases h
          simp [delivered, issued]
  | remote c => cases h; exact .refl _

/-- **No query is lost.**  In every run, from whatever state, the queries that were outstanding or
have been issued are those that are outstanding or whose callback has run, each as often. -/
theorem no_query_lost (run : Run App.step s es t) :
    (t.requests.map Request.query ++ observed App.step delivered s es).Perm
      (s.requests.map Request.query ++ observed App.step issued s es) :=
  run.conserved (L := fun s => s.requests.map Request.query) fun _ _ _ => queries_step

theorem restlessSession_no_query_lost : ∃ t,
    Run App.step (launch oneDocument) restlessSession t ∧
    (t.requests.map Request.query ++
        observed App.step delivered (launch oneDocument) restlessSession).Perm
      ((launch oneDocument).requests.map Request.query ++
        observed App.step issued (launch oneDocument) restlessSession) := by
  have run : Run App.step (launch oneDocument) restlessSession _ := exec_eq_some_iff.mp rfl
  exact ⟨_, run, no_query_lost run⟩

/-! ### One fetch for each login screen -/

/-- The listeners are those of the login screens that have appeared. -/
lemma length_listeners_of_run (run : Run App.step s es t) :
    t.listeners.length = s.listeners.length + es.count .viewDidAppear := by
  induction run with
  | nil s => simp
  | @cons s s' t e es hs _ ih =>
      have hlength := length_listeners_step hs
      rw [List.count_cons]
      omega

/-- Nobody signs in or out, and no login screen appears. -/
def Steady (e : Event) : Prop := e.Auth = false ∧ e ≠ .viewDidAppear

/-- As long as nobody signs in or out, each call of a listener issues a fetch. -/
lemma fetches_step {u : String} (hu : s.currentUser = some u) (he : Steady e)
    (h : s.step e = some s') : s'.currentUser = some u ∧
      (s.issued e).count (.getTransactionsForUser u) + s'.listeners.sum = s.listeners.sum := by
  have huser : s'.currentUser = some u := by
    rw [← hu]
    refine step_currentUser (fun v hv => ?_) (fun hv => ?_) h <;>
      simp [hv, Steady, Event.Auth] at he
  refine ⟨huser, ?_⟩
  cases e with
  | viewDidAppear => exact absurd rfl he.2
  | signIn v => cases he.1
  | signOut => cases he.1
  | callListener i =>
      obtain ⟨n, hi, rfl⟩ := step_callListener_iff.mp h
      obtain ⟨front, back, hl, -, hset⟩ := exists_append_of_getElem? hi
      simp only [issued, hu, hset, Option.map_some, Option.toList_some,
        List.count_singleton_self]
      rw [hl, List.sum_append, List.sum_append, List.sum_cons, List.sum_cons]
      omega
  | answer i documents =>
      obtain ⟨q, -, -, rfl⟩ := step_answer_iff.mp h
      simp [issued]
  | deliver i outcome =>
      obtain ⟨q, a, -, ⟨-, rfl⟩ | ⟨documents, refused, -, -, rfl⟩⟩ := step_deliver_iff.mp h
      · simp [issued]
      · simp [issued, listeners_callback]
  | add added index =>
      obtain ⟨-, front, back, -, -, rfl⟩ := step_add_iff.mp h
      simp [issued]
  | save r edit =>
      have hnone : (s.issued (.save r edit)).count (.getTransactionsForUser u) = 0 := by
        refine List.count_eq_zero.mpr fun hmem => ?_
        rw [issued] at hmem
        split_ifs at hmem <;> cases hid : (s.transaction r).id <;> simp [hid] at hmem
      obtain ⟨-, ⟨-, rfl⟩ | ⟨front, x, back, -, -, -, i, -, rfl⟩⟩ := step_save_iff.mp h
      · rw [hnone, Nat.zero_add]
      · rw [hnone, Nat.zero_add]
  | remove x =>
      cases x with
      | none => cases h; simp [issued, removeTransaction]
      | some x => cases h; simp [issued, removeTransaction, removeTransactionFromDatabase, issue]
  | remote c => cases h; simp [issued]

lemma fetches_of_run {u : String} (run : Run App.step s es t) (hu : s.currentUser = some u)
    (steady : ∀ e ∈ es, Steady e) :
    (observed App.step issued s es).count (.getTransactionsForUser u) + t.listeners.sum =
      s.listeners.sum := by
  induction run with
  | nil s => simp [observed]
  | @cons s s' t e es hs _ ih =>
      obtain ⟨he, hes⟩ := List.forall_mem_cons.mp steady
      obtain ⟨hu', hstep⟩ := fetches_step hu he hs
      have hrest := ih hu' hes
      rw [observed, hs, Option.elim_some, List.count_append]
      omega

/-- **One fetch for each login screen.**  Let a user sign in while no listener is owed a call, and
let anything happen after that but another sign-in or sign-out or the appearance of a login
screen: additions, edits, deletions, evaluations and callbacks in any order.  When no listener is
owed a call any more, the fetches for the user that are outstanding or have ended since are as
many more than those outstanding at the sign-in as login screens have ever appeared. -/
theorem one_fetch_for_each_screen {c : Transactions} {u : String} {es' : List Event}
    (before : Run App.step (launch c) es s) (idle : ∀ n ∈ s.listeners, n = 0)
    (user : s.currentUser ≠ some u) (run : Run App.step s (.signIn u :: es') t)
    (steady : ∀ e ∈ es', Steady e) (called : ∀ n ∈ t.listeners, n = 0) :
    (t.requests.map Request.query).count (.getTransactionsForUser u) +
        (observed App.step delivered s (.signIn u :: es')).count (.getTransactionsForUser u) =
      (s.requests.map Request.query).count (.getTransactionsForUser u) +
        es.count .viewDidAppear := by
  have hqueries := (no_query_lost run).count_eq (.getTransactionsForUser u)
  have hlength := length_listeners_of_run before
  rw [List.count_append, List.count_append] at hqueries
  cases run with
  | @cons _ s' _ _ _ hs rest =>
      have hs' : s' = notifyListeners { s with currentUser := some u } :=
        (Option.some.inj hs).symm.trans (if_neg user)
      -- after the sign-in each listener is owed exactly one call
      have howed : s'.listeners.sum = s.listeners.length := by
        rw [hs']
        simp only [notifyListeners]
        rw [sum_map_succ, List.sum_eq_zero idle, Nat.zero_add]
      have hfetches := fetches_of_run rest (by rw [hs']; rfl) steady
      rw [List.sum_eq_zero called, howed] at hfetches
      have hissued : observed App.step issued s (.signIn u :: es') =
          observed App.step issued s' es' := by
        rw [observed, hs]
        rfl
      rw [hissued] at hqueries
      have hnone : (launch c).listeners.length = 0 := rfl
      omega

/-- The user signs in on the second login screen, and both listeners fetch the document. -/
theorem secondScreen_fetches_twice : ∃ s t,
    Run App.step (launch oneDocument)
      [.viewDidAppear, .callListener 0, .viewDidAppear, .callListener 1] s ∧
    Run App.step s [.signIn "u", .callListener 1, .callListener 0, .deliver 1 .failed] t ∧
    (t.requests.map Request.query).count (.getTransactionsForUser "u") +
        (observed App.step delivered s [.signIn "u", .callListener 1, .callListener 0,
          .deliver 1 .failed]).count (.getTransactionsForUser "u") =
      (s.requests.map Request.query).count (.getTransactionsForUser "u") + 2 := by
  obtain ⟨s, before, idle, user, t, run, called⟩ : ∃ s,
      Run App.step (launch oneDocument)
        [.viewDidAppear, .callListener 0, .viewDidAppear, .callListener 1] s ∧
      (∀ n ∈ s.listeners, n = 0) ∧ s.currentUser ≠ some "u" ∧ ∃ t,
        Run App.step s [.signIn "u", .callListener 1, .callListener 0, .deliver 1 .failed] t ∧
        ∀ n ∈ t.listeners, n = 0 :=
    ⟨_, exec_eq_some_iff.mp rfl, by decide, by decide, _, exec_eq_some_iff.mp rfl, by decide⟩
  exact ⟨s, t, before, run,
    one_fetch_for_each_screen before idle user run (by simp [Steady, Event.Auth]) called⟩

end App

end SpendingTracker
