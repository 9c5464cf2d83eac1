import SpendingTracker.Lib.Pool
import SpendingTracker.Model.Screens
import SpendingTracker.Sync.Agreement

/-!
# The list and the store

The list screen keeps its own array of transactions, which its handlers change by position,
while the store changes by id.  As long as the ids of the store are distinct and nobody
refetches it, the two arrays are the same whenever the user can see the list, and the position
an open detail screen remembers is right in both.
-/

namespace SpendingTracker

open Lib

namespace Screens

variable {showDate : Date → Date → Date} {s s' : Screens} {e : ScreenEvent}

/-- What the user relies on when working with the list. -/
structure ListSync (s : Screens) : Prop where
  /-- The list shows the store. -/
  list : s.top = .list → s.list.transactions = s.app.shared
  /-- The transaction of an open detail screen is at the remembered row of both arrays. -/
  row : ∀ d, s.top = .detail d → s.list.transactions[d.row]? = some d.transaction ∧
    s.app.shared[d.row]? = some d.transaction
  /-- Deleting by position and deleting by id take out the same single entry. -/
  delete : ∀ d, s.top = .detail d → s.list.transactions.eraseIdx d.row =
    s.app.shared.filter fun r =>
      (s.app.transaction r).id ≠ (s.app.transaction d.transaction).id
  /-- A row is inserted into the table only if it has got exactly one more. -/
  inserted : s.list.addedTransaction = true → s.viewWillAppear.list.rows = s.list.rows + 1

/-- No fetch ends, and no other tabs screen replaces the list. -/
def NoRefetch (s : Screens) : ScreenEvent → Prop
  | .background e => s.app.fetched e = none
  | .presentTabs => False
  | _ => True

instance (s : Screens) : DecidablePred s.NoRefetch
  | .background e => inferInstanceAs (Decidable (s.app.fetched e = none))
  | .presentTabs => inferInstanceAs (Decidable False)
  | .viewDidLoad | .viewWillAppear | .openAdd _ | .openDetail _ _ | .input _ | .back
  | .addButton _ _ | .saveButton | .deleteButton => inferInstanceAs (Decidable True)

/-- The invariant of the session. -/
structure InStep (s : Screens) : Prop where
  ids : s.app.IdsDistinct
  same : s.top ≠ .login → s.top ≠ .tabs → s.list.transactions = s.app.shared
  /-- The flag is set only between the confirmation of an addition and the list's appearance. -/
  added : s.list.addedTransaction = true →
    s.top = .appearing ∧ s.app.shared.length = s.list.rows + 1
  rows : s.top = .list ∨ (∃ a, s.top = .add a) ∨ (∃ d, s.top = .detail d) →
    s.list.rows = s.list.transactions.length
  row : ∀ d, s.top = .detail d → s.list.transactions[d.row]? = some d.transaction

namespace InStep

lemma listSync (h : s.InStep) : s.ListSync := by
  have hsame : ∀ d, s.top = .detail d → s.list.transactions = s.app.shared := fun d hd =>
    h.same (by simp [hd]) (by simp [hd])
  refine ⟨fun htop => h.same (by simp [htop]) (by simp [htop]), fun d hd => ?_, fun d hd => ?_,
    fun hadded => ?_⟩
  · exact ⟨h.row d hd, hsame d hd ▸ h.row d hd⟩
  · rw [hsame d hd]
    exact eraseIdx_eq_filter h.ids.nodup (hsame d hd ▸ h.row d hd)
  · simp only [viewWillAppear, hadded, if_true]
    exact (h.added hadded).2

/-- A state that differs from one of the session only in what does not concern the list. -/
lemma of_eq (h : s.InStep) (hheap : s'.app.heap = s.app.heap)
    (hshared : s'.app.shared = s.app.shared) (hlist : s'.list = s.list) (htop : s'.top = s.top) :
    s'.InStep := by
  have htransaction : s'.app.transaction = s.app.transaction := by
    funext r
    rw [App.transaction, App.transaction, hheap]
  refine ⟨h.ids.of_map_eq (by rw [hshared, htransaction]), ?_, ?_, ?_, ?_⟩
  · rw [htop, hlist, hshared]
    exact h.same
  · rw [htop, hlist, hshared]
    exact h.added
  · rw [htop, hlist]
    exact h.rows
  · rw [htop, hlist]
    exact h.row

lemma step_background [FIRTimestamp] (h : s.InStep) {e : Event} (hf : s.app.fetched e = none)
    (hs : s.step showDate (.background e) = some s') : s'.InStep := by
  obtain ⟨hb, app, happ, rfl⟩ := step_background_iff.mp hs
  obtain ⟨hheap, hshared⟩ := App.step_background hb hf happ
  have hnext : InStep { s with app := app } := h.of_eq hheap hshared rfl rfl
  unfold afterBackground
  split_ifs with hout hfetched
  · exact ⟨hnext.ids, by simp, by simp [ListScreen.init], by simp, by simp⟩
  · simp [hf] at hfetched
  · exact hnext

lemma step_viewDidLoad [FIRTimestamp] (h : s.InStep) (hs : s.step showDate .viewDidLoad = some s') :
    s'.InStep := by
  obtain ⟨htop, rfl⟩ := Screens.step_viewDidLoad hs
  refine ⟨h.ids, fun _ _ => rfl, fun hadded => ?_, by simp, by simp⟩
  exact absurd (h.added hadded).1 (by simp [htop])

/-- After `viewWillAppear` the list shows the store, and its rows have been counted. -/
lemma viewWillAppear (h : s.InStep) (hlogin : s.top ≠ .login) (htabs : s.top ≠ .tabs) (top : Top)
    (hrow : ∀ d, top = .detail d → s.top = .detail d) :
    InStep { s.viewWillAppear with top := top } := by
  have hlist : s.viewWillAppear.list = ⟨s.app.shared, false, s.app.shared.length⟩ := by
    unfold Screens.viewWillAppear
    split_ifs
    · rfl
    · rw [h.same hlogin htabs]
  refine ⟨h.ids, fun _ _ => ?_, fun hadded => ?_, fun _ => ?_, fun d hd => ?_⟩
  · simp only [hlist]
    rfl
  · simp [hlist] at hadded
  · simp [hlist]
  · simp only [hlist]
    rw [← h.same hlogin htabs]
    exact h.row d (hrow d hd)

lemma step_viewWillAppear [FIRTimestamp] (h : s.InStep)
    (hs : s.step showDate .viewWillAppear = some s') : s'.InStep := by
  rcases Screens.step_viewWillAppear hs with ⟨htop, rfl⟩ | ⟨htop, rfl⟩
  · exact h.viewWillAppear (by simp [htop]) (by simp [htop]) _ (by simp)
  · refine h.viewWillAppear ?_ ?_ s.top fun d hd => hd
    all_goals rcases htop with htop | ⟨a, htop⟩ | ⟨d, htop⟩ <;> simp [htop]

/-- The list stays in step when the user moves to the Add screen or to a detail screen, or
enters something there. -/
lemma move (h : s.InStep) (htop : s.top = .list ∨ (∃ a, s.top = .add a) ∨ ∃ d, s.top = .detail d)
    {top : Top} (hrow : ∀ d, top = .detail d → s.list.transactions[d.row]? = some d.transaction) :
    InStep { s with top := top } := by
  have hsame : s.list.transactions = s.app.shared := by
    rcases htop with htop | ⟨a, htop⟩ | ⟨d, htop⟩ <;> exact h.same (by simp [htop]) (by simp [htop])
  refine ⟨h.ids, fun _ _ => hsame, fun hadded => ?_, fun _ => h.rows htop, hrow⟩
  have happearing := (h.added hadded).1
  rcases htop with htop | ⟨a, htop⟩ | ⟨d, htop⟩ <;> simp [htop] at happearing

lemma step_openAdd [FIRTimestamp] (h : s.InStep) {now : Date}
    (hs : s.step showDate (.openAdd now) = some s') : s'.InStep := by
  obtain ⟨htop, rfl⟩ := Screens.step_openAdd hs
  exact h.move (Or.inl htop) (by simp)

lemma step_openDetail [FIRTimestamp] (h : s.InStep) {row : ℕ} {now : Date}
    (hs : s.step showDate (.openDetail row now) = some s') : s'.InStep := by
  obtain ⟨htop, r, d, hr, hd, rfl⟩ := Screens.step_openDetail hs
  refine h.move (Or.inl htop) ?_
  rintro d' ⟨⟩
  obtain ⟨date, -, rfl⟩ := DetailScreen.viewDidLoad_eq_some hd
  exact hr

lemma step_input [FIRTimestamp] (h : s.InStep) {i : Input}
    (hs : s.step showDate (.input i) = some s') : s'.InStep := by
  obtain ⟨-, ⟨a, htop, rfl⟩ | ⟨d, htop, rfl⟩⟩ := Screens.step_input hs
  · exact h.move (Or.inr (Or.inl ⟨a, htop⟩)) (by simp)
  · refine h.move (Or.inr (Or.inr ⟨d, htop⟩)) ?_
    rintro d' ⟨⟩
    simpa using h.row d htop

lemma step_back [FIRTimestamp] (h : s.InStep)
    (hs : s.step showDate .back = some s') : s'.InStep := by
  obtain ⟨htop, rfl⟩ := Screens.step_back hs
  exact h.move (Or.inr htop) (by simp)

lemma step_addButton [FIRTimestamp] (h : s.InStep) {uuid : String} {documentID : Option String}
    (hs : s.step showDate (.addButton uuid documentID) = some s') : s'.InStep := by
  obtain ⟨a, htop, ⟨-, rfl⟩ | ⟨-, huuid, t, app, ht, happ, rfl⟩⟩ := Screens.step_addButton hs
  · exact h
  · have hid : t.id = some uuid := by
      obtain ⟨amount, -, rfl⟩ := Option.map_eq_some_iff.mp ht
      rfl
    have hids : app.IdsDistinct :=
      h.ids.step_add (by simp) (by simpa [hid] using huuid) happ
    -- the list takes the store over at once, so the row counts differ by the one that is inserted
    obtain ⟨-, front, back, hshared, rfl, rfl⟩ := App.step_add_iff.mp happ
    have hrows := h.rows (Or.inr (Or.inl ⟨a, htop⟩))
    rw [h.same (by simp [htop]) (by simp [htop]), hshared] at hrows
    exact ⟨hids, fun _ _ => rfl, fun _ => ⟨rfl, by simpa using hrows.symm⟩, by simp, by simp⟩

lemma step_saveButton [FIRTimestamp] (h : s.InStep) (hs : s.step showDate .saveButton = some s') :
    s'.InStep := by
  obtain ⟨d, htop, ⟨-, rfl⟩ | ⟨-, e, app, -, happ, rfl⟩⟩ := Screens.step_saveButton hs
  · exact h
  · have hsame := h.same (by simp [htop]) (by simp [htop])
    have hmem : d.transaction ∈ s.app.shared := List.mem_of_getElem? (hsame ▸ h.row d htop)
    obtain ⟨x, -, rfl⟩ := h.ids.step_save hmem happ
    refine ⟨h.ids.heapAfterSave, fun _ _ => hsame, fun hadded => ?_, by simp, by simp⟩
    exact absurd (h.added hadded).1 (by simp [htop])

lemma step_deleteButton [FIRTimestamp] (h : s.InStep)
    (hs : s.step showDate .deleteButton = some s') : s'.InStep := by
  obtain ⟨d, htop, -, app, happ, rfl⟩ := Screens.step_deleteButton hs
  have hdelete := h.listSync.delete d htop
  have hsame := h.same (by simp [htop]) (by simp [htop])
  have hmem : d.transaction ∈ s.app.shared := List.mem_of_getElem? (hsame ▸ h.row d htop)
  obtain ⟨x, hx⟩ := Option.ne_none_iff_exists'.mp (h.ids.present _ hmem)
  rw [hx, App.step_remove_some, Option.some.injEq] at happ
  subst happ
  rw [hx] at hdelete
  refine ⟨h.ids.filter, fun _ _ => hdelete, fun hadded => ?_, by simp, by simp⟩
  exact absurd (h.added hadded).1 (by simp [htop])

/-- Every event of the session keeps the list in step with the store. -/
theorem step [FIRTimestamp] (h : s.InStep) (hn : s.NoRefetch e) (hs : s.step showDate e = some s') :
    s'.InStep := by
  cases e with
  | background e => exact h.step_background hn hs
  | presentTabs => exact hn.elim
  | viewDidLoad => exact h.step_viewDidLoad hs
  | viewWillAppear => exact h.step_viewWillAppear hs
  | openAdd now => exact h.step_openAdd hs
  | openDetail row now => exact h.step_openDetail hs
  | input i => exact h.step_input hs
  | back => exact h.step_back hs
  | addButton uuid documentID => exact h.step_addButton hs
  | saveButton => exact h.step_saveButton hs
  | deleteButton => exact h.step_deleteButton hs

end InStep

/-- **The list agrees with the store.**  Let a session start with a store of distinct ids, and
let the store not be fetched again.  Whatever the user does on the list, on the Add screen and
on the detail screens, in every state the list on top shows the store, the row of an open
detail screen is right, deleting at this row and deleting by id are the same, and a row is
inserted into the table exactly when there is one more. -/
theorem always_listSync [FIRTimestamp] {app : App} {es : List ScreenEvent} {t : Screens}
    (ids : app.IdsDistinct) (run : Run (step showDate) ⟨app, .init, .tabs⟩ es t)
    (session : EachStep (step showDate) NoRefetch ⟨app, .init, .tabs⟩ es) :
    Always (step showDate) ListSync ⟨app, .init, .tabs⟩ es :=
  run.always (fun _ h => InStep.listSync h) (fun _ _ _ h hn hs => InStep.step h hn hs) session
    ⟨ids, by simp, by simp [ListScreen.init], by simp, by simp⟩

/-- The user `u` with one transaction. -/
def oneRow : App where
  heap := ⟨[.make "a" .income .sport 5 0]⟩
  shared := [0]
  currentUser := some "u"
  listeners := []
  collection := Collection.empty
  requests := []

/-- A session in which a transaction is added, edited, and the other one deleted. -/
def oneSession : List ScreenEvent :=
  [.viewDidLoad, .viewWillAppear, .openAdd 9, .input (.selectType 1), .input (.selectCategory 0 3),
    .input (.editAmount 0 0 ['4', '2']), .addButton "b" (some "e"), .viewWillAppear,
    .openDetail 1 9, .input (.editAmount 0 1 []), .saveButton, .viewWillAppear,
    .openDetail 0 9, .deleteButton, .viewWillAppear]

theorem oneSession_listSync :
    Always (step min) ListSync ⟨oneRow, .init, .tabs⟩ oneSession :=
  always_listSync ⟨by decide, by decide⟩ (exec_eq_some_iff.mp rfl) (by decide)

end Screens

end SpendingTracker
