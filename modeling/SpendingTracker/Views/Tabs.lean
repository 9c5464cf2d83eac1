import SpendingTracker.Model.Display
import SpendingTracker.Screens.Lifetime
import SpendingTracker.Screens.ListSync
import SpendingTracker.Views.Periods

/-!
# What traps in the tabs

The controllers unwrap what is optional, index arrays by remembered rows, add up integers, and
insert rows into a table.  Over documents of any kind some of this traps.  This file says that
over the documents that the app itself writes only the table can object: in every state of every
run that starts over an empty collection, all rows of the list can be shown, and whatever the
screens offer goes through, unless UIKit does not take a row that the list inserts when it
appears.  After an addition it takes the row unless a fetch has replaced the store meanwhile.
-/

namespace SpendingTracker

open Lib

/-! ### What can happen -/

/-- The event of the background can occur: a call of the listener is owed, the query has not been
evaluated, the callback has not run. -/
def App.Owes (s : App) : Event → Prop
  | .viewDidAppear | .signIn _ | .signOut => True
  | .callListener i => ∃ n, s.listeners[i]? = some (n + 1)
  | .answer i documents =>
      ∃ q, s.requests[i]? = some ⟨q, none⟩ ∧ documents.Perm (q.select s.collection)
  | .deliver i outcome =>
      ∃ q answer, s.requests[i]? = some ⟨q, answer⟩ ∧ (outcome = .failed ∨ answer ≠ none)
  | .add _ _ | .save _ _ | .remove _ | .remote _ => False

/-- The screens offer the event, whatever becomes of it. -/
def Screens.Offers (s : Screens) : ScreenEvent → Prop
  | .background e => s.app.Owes e
  | .presentTabs => s.top ≠ .login
  | .viewDidLoad => s.top = .tabs
  | .viewWillAppear => s.top ≠ .login ∧ s.top ≠ .tabs
  | .openAdd _ => s.top = .list
  | .openDetail row _ => s.top = .list ∧ row < s.list.rows
  | .input i => i.Offered ∧ ((∃ a, s.top = .add a) ∨ ∃ d, s.top = .detail d)
  | .back => (∃ a, s.top = .add a) ∨ ∃ d, s.top = .detail d
  | .addButton uuid documentID =>
      (∃ a, s.top = .add a) ∧ ¬ s.app.Uses uuid ∧ ∀ i ∈ documentID, ¬ s.app.Knows i
  | .saveButton | .deleteButton => ∃ d, s.top = .detail d

/-- The tab bar offers the event.  The dashboard and the settings leave the screens of the other
tab alone. -/
def Tabs.Offers (s : Tabs) : TabsEvent → Prop
  | .screens e => (s.selected = .transactions ∨ e.Anywhere = true) ∧ s.screens.Offers e
  | .viewDidAppear _ => s.selected = .report ∧ s.Visible
  | .select _ _ => s.Visible
  | .segmentControlClicked segment _ => s.selected = .report ∧ s.report ≠ none ∧ segment < 3

/-- UIKit raises an exception because the list inserts a row: when it appears after an addition
without having one row more than before, or when its view is loaded. -/
def Tabs.RowRefused (acceptsRow : ℕ → Bool) (s : Tabs) : TabsEvent → Prop
  | .screens .viewWillAppear => ¬ s.screens.InsertsRow
  | .select .transactions _ =>
      s.screens.top = .tabs ∧ acceptsRow s.screens.app.shared.length = false
  | _ => False

/-! ### The screens -/

lemma App.exists_step_owes [FIRTimestamp] {s : App} {e : Event} (h : s.Owes e) :
    ∃ s', s.step e = some s' := by
  cases e with
  | viewDidAppear => exact ⟨_, rfl⟩
  | signIn userId => exact ⟨_, rfl⟩
  | signOut => exact ⟨_, rfl⟩
  | callListener i =>
      obtain ⟨n, hn⟩ := h
      exact ⟨_, step_callListener_iff.mpr ⟨n, hn, rfl⟩⟩
  | answer i documents =>
      obtain ⟨q, hq, hperm⟩ := h
      exact ⟨_, step_answer_iff.mpr ⟨q, hq, hperm, rfl⟩⟩
  | deliver i outcome =>
      obtain ⟨q, answer, hq, hend⟩ := h
      cases outcome with
      | failed => exact ⟨_, step_deliver_iff.mpr ⟨q, answer, hq, Or.inl ⟨rfl, rfl⟩⟩⟩
      | succeeded refused =>
          obtain ⟨documents, rfl⟩ :=
            Option.ne_none_iff_exists'.mp (hend.resolve_left Outcome.noConfusion)
          exact ⟨_, step_deliver_iff.mpr ⟨q, _, hq, Or.inr ⟨documents, refused, rfl, rfl, rfl⟩⟩⟩
  | add added index => exact h.elim
  | save r edit => exact h.elim
  | remove x => exact h.elim
  | remote c => exact h.elim

lemma App.background_of_owes {s : App} {e : Event} (h : s.Owes e) : e.Background = true := by
  cases e with
  | add added index => exact h.elim
  | save r edit => exact h.elim
  | remove x => exact h.elim
  | remote c => exact h.elim
  | _ => rfl

/-- Saving an edit of an object that has an id does not trap. -/
lemma App.exists_step_save [FIRTimestamp] {s : App} {r : Ref} (hr : r < s.heap.size)
    (hid : (s.transaction r).id ≠ none) (edit : Edit) :
    ∃ s', s.step (.save r edit) = some s' := by
  by_cases hfinds : s.Finds r
  · obtain ⟨x, hx, hsame⟩ := hfinds
    obtain ⟨i, hi⟩ := Option.ne_none_iff_exists'.mp hid
    -- the first entry with the id
    obtain ⟨y, front, back, hfront, hy, hshared, -⟩ :=
      List.exists_of_eraseP (p := fun x => (s.transaction x).id = (s.transaction r).id) hx
        (decide_eq_true hsame)
    exact ⟨_, step_save_iff.mpr ⟨hr, Or.inr ⟨front, y, back, hshared,
      fun z hz => by simpa using hfront z hz, of_decide_eq_true hy, i, hi, rfl⟩⟩⟩
  · exact ⟨_, step_save_iff.mpr ⟨hr, Or.inl ⟨hfinds, rfl⟩⟩⟩

namespace Screens

variable {showDate : Date → Date → Date} {s s' : Screens} {e : ScreenEvent}

/-- The rows that the screens remember are rows of the list. -/
structure Anchored (s : Screens) : Prop where
  /-- The flag is set only between the confirmation of an addition and the list's appearance. -/
  added : s.list.addedTransaction = true → s.top = .appearing
  rows : s.top = .list → s.list.rows ≤ s.list.transactions.length
  row : ∀ d, s.top = .detail d → d.row < s.list.transactions.length

namespace Anchored

/-- Neither the list nor a detail screen is on top. -/
lemma of_top (hlist : s.top ≠ .list) (hdetail : ∀ d, s.top ≠ .detail d)
    (hadded : s.list.addedTransaction = true → s.top = .appearing) : s.Anchored :=
  ⟨hadded, fun h => absurd h hlist, fun d h => absurd h (hdetail d)⟩

/-- The list keeps its entries when it appears again. -/
lemma viewWillAppear (h : s.Anchored) (htop : s.top ≠ .appearing) :
    s.viewWillAppear.list = ⟨s.list.transactions, false, s.list.transactions.length⟩ := by
  have hadded : ¬ s.list.addedTransaction = true := fun hadded => htop (h.added hadded)
  simp only [Screens.viewWillAppear, if_neg hadded]

/-- Every event keeps the remembered rows in the list. -/
theorem step [FIRTimestamp] (h : s.Anchored) (hs : s.step showDate e = some s') : s'.Anchored := by
  cases e with
  | background event =>
      obtain ⟨-, app, -, rfl⟩ := step_background_iff.mp hs
      unfold afterBackground
      split_ifs
      · exact .of_top (by simp) (by simp) (by simp [ListScreen.init])
      · exact .of_top (by simp) (by simp) (by simp [ListScreen.init])
      · exact ⟨h.added, h.rows, h.row⟩
  | presentTabs =>
      obtain ⟨-, rfl⟩ := step_presentTabs hs
      exact .of_top (by simp) (by simp) (by simp [ListScreen.init])
  | viewDidLoad =>
      obtain ⟨-, rfl⟩ := step_viewDidLoad hs
      exact .of_top (by simp) (by simp) (by simp)
  | viewWillAppear =>
      rcases step_viewWillAppear hs with ⟨-, rfl⟩ | ⟨htop, rfl⟩
      · exact ⟨by simp [Screens.viewWillAppear], fun _ => le_rfl, by simp⟩
      · have hlist := h.viewWillAppear (by rcases htop with h | ⟨a, h⟩ | ⟨d, h⟩ <;> simp [h])
        refine ⟨by simp [hlist], fun _ => by rw [hlist], fun d hd => ?_⟩
        rw [hlist]
        exact h.row d hd
  | openAdd now =>
      obtain ⟨htop, rfl⟩ := step_openAdd hs
      exact .of_top (by simp) (by simp) fun hadded => by simp [h.added hadded] at htop
  | openDetail row now =>
      obtain ⟨htop, r, d, hr, hd, rfl⟩ := step_openDetail hs
      refine ⟨fun hadded => by simp [h.added hadded] at htop, by simp, ?_⟩
      rintro d' ⟨⟩
      obtain ⟨date, -, rfl⟩ := DetailScreen.viewDidLoad_eq_some hd
      exact (List.getElem?_eq_some_iff.mp hr).1
  | input i =>
      obtain ⟨-, ⟨a, htop, rfl⟩ | ⟨d, htop, rfl⟩⟩ := step_input hs
      · exact .of_top (by simp) (by simp) fun hadded => by simp [h.added hadded] at htop
      · refine ⟨fun hadded => by simp [h.added hadded] at htop, by simp, ?_⟩
        rintro d' ⟨⟩
        simpa using h.row d htop
  | back =>
      obtain ⟨-, rfl⟩ := step_back hs
      exact .of_top (by simp) (by simp) (by simp)
  | addButton uuid documentID =>
      obtain ⟨a, -, ⟨-, rfl⟩ | ⟨-, -, t, app, -, -, rfl⟩⟩ := step_addButton hs
      · exact h
      · exact .of_top (by simp) (by simp) (by simp)
  | saveButton =>
      obtain ⟨d, -, ⟨-, rfl⟩ | ⟨-, edit, app, -, -, rfl⟩⟩ := step_saveButton hs
      · exact h
      · exact .of_top (by simp) (by simp) (by simp)
  | deleteButton =>
      obtain ⟨d, -, -, app, -, rfl⟩ := step_deleteButton hs
      exact .of_top (by simp) (by simp) (by simp)

/-- The launch of the app. -/
lemma launch (app : App) : (Screens.launch app).Anchored :=
  .of_top Top.noConfusion (fun _ => Top.noConfusion) Bool.noConfusion

end Anchored

/-- Every row of the list can be shown. -/
lemma exists_render [FIRTimestamp] (h : s.WellKept) :
    ∃ cells, s.list.render s.app = some cells := by
  refine Option.ne_none_iff_exists'.mp fun hnone => ?_
  obtain ⟨r, hr, hcell⟩ := mapM_eq_none_iff.mp hnone
  have hwf := h.app.transaction (h.list r hr)
  rcases cellForRowAt_eq_none_iff.mp hcell with htype | hdate
  · rcases hwf.transactionType with hk | hk <;> simp [htype] at hk
  · exact hwf.date hdate

/-- A row of the list can be opened. -/
lemma exists_openDetail [FIRTimestamp] (h : s.WellKept) (ha : s.Anchored) {row : ℕ} {now : Date}
    (htop : s.top = .list) (hrow : row < s.list.rows) :
    ∃ s', s.step showDate (.openDetail row now) = some s' := by
  have hlt := hrow.trans_le (ha.rows htop)
  obtain ⟨date, hdate⟩ := Option.ne_none_iff_exists'.mp
    (h.app.transaction (h.list _ (List.getElem_mem hlt))).date
  simp [step, htop, hrow, hlt, DetailScreen.viewDidLoad, hdate]

/-- The Add screen can be confirmed. -/
lemma exists_addButton [FIRTimestamp] (h : s.WellKept) {a : AddScreen} {uuid : String}
    {documentID : Option String} (htop : s.top = .add a) (huuid : ¬ s.app.Uses uuid)
    (hdoc : ∀ i ∈ documentID, ¬ s.app.Knows i) :
    ∃ s', s.step showDate (.addButton uuid documentID) = some s' := by
  simp only [step, htop, addButton]
  split_ifs with hcheck
  · simp only [AddScreen.CheckAttributes, Bool.and_eq_true, decide_eq_true_eq] at hcheck
    obtain ⟨amount, hparse, -⟩ :=
      (h.add a htop).parseInt fun hnil => hcheck.2 (List.length_eq_zero_iff.mpr hnil)
    have hadd : ∀ t, ∃ app, s.app.step (.add [(t, documentID)] none) = some app := fun t =>
      ⟨_, App.step_add_iff.mpr ⟨by cases documentID <;> simp_all,
        s.app.shared, [], by simp, rfl, rfl⟩⟩
    obtain ⟨app, happ⟩ := hadd (.make uuid a.transactionType a.category amount a.datePicker)
    simp [AddScreen.transaction, hparse, happ]
  · exact ⟨s, rfl⟩

/-- The detail screen can be saved. -/
lemma exists_saveButton [FIRTimestamp] (h : s.WellKept) {d : DetailScreen}
    (htop : s.top = .detail d) : ∃ s', s.step showDate .saveButton = some s' := by
  obtain ⟨hlt, hd⟩ := h.detail d htop
  simp only [step, htop, saveButton]
  split_ifs with hcheck
  · simp only [DetailScreen.CheckAttributes, decide_eq_true_eq] at hcheck
    obtain ⟨amount, hparse, -⟩ :=
      hd.amountField.parseInt fun hnil => hcheck (List.length_eq_zero_iff.mpr hnil)
    obtain ⟨app, happ⟩ := App.exists_step_save hlt (h.app.transaction hlt).id
      ⟨d.transactionType, d.category, amount, d.datePicker⟩
    simp [DetailScreen.edit, hparse, happ]
  · exact ⟨s, rfl⟩

/-- The shown transaction can be deleted. -/
lemma exists_deleteButton [FIRTimestamp] (ha : s.Anchored) {d : DetailScreen}
    (htop : s.top = .detail d) : ∃ s', s.step showDate .deleteButton = some s' := by
  simp only [step, htop, deleteButton, if_pos (ha.row d htop)]
  exact ⟨_, rfl⟩

/-- Whatever the screens offer goes through, if the table takes a row that is inserted. -/
theorem exists_step [FIRTimestamp] (h : s.WellKept) (ha : s.Anchored) (offered : s.Offers e)
    (hrow : e = .viewWillAppear → s.InsertsRow) : ∃ s', s.step showDate e = some s' := by
  cases e with
  | background event =>
      obtain ⟨app, happ⟩ := App.exists_step_owes offered
      exact ⟨_, step_background_iff.mpr ⟨App.background_of_owes offered, app, happ, rfl⟩⟩
  | presentTabs => exact ⟨_, if_neg offered⟩
  | viewDidLoad => exact ⟨_, if_pos offered⟩
  | viewWillAppear =>
      obtain ⟨hlogin, htabs⟩ := offered
      cases htop : s.top with
      | login => exact absurd htop hlogin
      | tabs => exact absurd htop htabs
      | _ => simp [step, htop, hrow rfl]
  | openAdd now => exact ⟨_, if_pos offered⟩
  | openDetail row now => exact exists_openDetail h ha offered.1 offered.2
  | input i =>
      obtain ⟨hi, ⟨a, htop⟩ | ⟨d, htop⟩⟩ := offered
      · simp [step, htop, hi]
      · simp [step, htop, hi]
  | back => rcases offered with ⟨a, htop⟩ | ⟨d, htop⟩ <;> simp [step, htop]
  | addButton uuid documentID =>
      obtain ⟨⟨a, htop⟩, huuid, hdoc⟩ := offered
      exact exists_addButton h htop huuid hdoc
  | saveButton =>
      obtain ⟨d, htop⟩ := offered
      exact exists_saveButton h htop
  | deleteButton =>
      obtain ⟨d, htop⟩ := offered
      exact exists_deleteButton ha htop

/-- The row that the list inserts when it appears has been taken. -/
lemma insertsRow_of_step [FIRTimestamp]
    (hs : s.step showDate .viewWillAppear = some s') : s.InsertsRow := by
  simp only [step] at hs
  split_ifs at hs with hrow
  exact hrow

/-- The list keeps its entries, and inserts no row, when it has been on top all the time. -/
lemma Anchored.insertsRow (ha : s.Anchored) (htop : s.top = .list) : s.InsertsRow := fun hadded =>
  absurd (ha.added hadded) (by simp [htop])

lemma Anchored.step_viewWillAppear [FIRTimestamp] (ha : s.Anchored) (htop : s.top = .list) :
    s.step showDate .viewWillAppear = some s.viewWillAppear := by
  simp only [Screens.step, if_pos (ha.insertsRow htop), htop]

/-- Only a sign-in and a fetch that has ended lead to a tab bar without a list. -/
lemma top_eq_tabs [FIRTimestamp] (hs : s.step showDate e = some s') (htop : s'.top = .tabs) :
    s.top = .login ∨ s.top = .tabs ∨ e = .presentTabs := by
  cases e with
  | background event =>
      obtain ⟨-, app, -, rfl⟩ := step_background_iff.mp hs
      unfold afterBackground at htop
      split_ifs at htop with hout hfetched
      · exact Or.inl hfetched.1
      · exact Or.inr (Or.inl htop)
  | presentTabs => exact Or.inr (Or.inr rfl)
  | viewDidLoad => exact Or.inr (Or.inl (step_viewDidLoad hs).1)
  | viewWillAppear =>
      rcases step_viewWillAppear hs with ⟨-, rfl⟩ | ⟨-, rfl⟩
      · cases htop
      · exact Or.inr (Or.inl htop)
  | openAdd now => obtain ⟨-, rfl⟩ := step_openAdd hs; cases htop
  | openDetail row now => obtain ⟨-, r, d, -, -, rfl⟩ := step_openDetail hs; cases htop
  | input i => obtain ⟨-, ⟨a, -, rfl⟩ | ⟨d, -, rfl⟩⟩ := step_input hs <;> cases htop
  | back => obtain ⟨-, rfl⟩ := step_back hs; cases htop
  | addButton uuid documentID =>
      obtain ⟨a, -, ⟨-, rfl⟩ | ⟨-, -, t, app, -, -, rfl⟩⟩ := step_addButton hs
      · exact Or.inr (Or.inl htop)
      · cases htop
  | saveButton =>
      obtain ⟨d, -, ⟨-, rfl⟩ | ⟨-, edit, app, -, -, rfl⟩⟩ := step_saveButton hs
      · exact Or.inr (Or.inl htop)
      · cases htop
  | deleteButton =>
      obtain ⟨d, -, -, app, -, rfl⟩ := step_deleteButton hs
      cases htop

/-! ### The list and the store -/

/-- No fetch ends once the list has been loaded. -/
def NoFetchOnList (s : Screens) : ScreenEvent → Prop
  | .background e => s.top ≠ .login → s.top ≠ .tabs → s.app.fetched e = none
  | _ => True

instance (s : Screens) : DecidablePred s.NoFetchOnList
  | .background e =>
      inferInstanceAs (Decidable (s.top ≠ .login → s.top ≠ .tabs → s.app.fetched e = none))
  | .presentTabs | .viewDidLoad | .viewWillAppear | .openAdd _ | .openDetail _ _ | .input _ | .back
  | .addButton _ _ | .saveButton | .deleteButton => inferInstanceAs (Decidable True)

namespace InStep

/-- Before the list has been loaded only the ids matter. -/
lemma of_top (ids : s.app.IdsDistinct) (htop : s.top = .login ∨ s.top = .tabs)
    (hadded : ¬ s.list.addedTransaction = true) : s.InStep where
  ids := ids
  same hlogin htabs := by rcases htop with htop | htop <;> contradiction
  added h := absurd h hadded
  rows h := by rcases htop with htop | htop <;> simp [htop] at h
  row d hd := by rcases htop with htop | htop <;> simp [htop] at hd

/-- Every event keeps the list in step with the store, if no fetch ends once the list has been
loaded. -/
theorem step_noFetchOnList [FIRTimestamp] (h : s.InStep) (hkept : s'.WellKept)
    (hn : s.NoFetchOnList e) (hs : s.step showDate e = some s') : s'.InStep := by
  have hids := hkept.app.ids.store
  cases e with
  | background event =>
      by_cases hloaded : s.top ≠ .login ∧ s.top ≠ .tabs
      · exact h.step_background (hn hloaded.1 hloaded.2) hs
      · have htop : s.top = .login ∨ s.top = .tabs := by tauto
        have hadded : ¬ s.list.addedTransaction = true := fun hadded => by
          rcases htop with htop | htop <;> simp [(h.added hadded).1] at htop
        obtain ⟨-, app, -, rfl⟩ := step_background_iff.mp hs
        refine .of_top hids ?_ ?_
        all_goals unfold afterBackground; split_ifs
        · exact Or.inl rfl
        · exact Or.inr rfl
        · exact htop
        · exact Bool.noConfusion
        · exact Bool.noConfusion
        · exact hadded
  | presentTabs =>
      obtain ⟨-, rfl⟩ := step_presentTabs hs
      exact .of_top hids (Or.inr rfl) Bool.noConfusion
  | viewDidLoad => exact h.step_viewDidLoad hs
  | viewWillAppear => exact h.step_viewWillAppear hs
  | openAdd now => exact h.step_openAdd hs
  | openDetail row now => exact h.step_openDetail hs
  | input i => exact h.step_input hs
  | back => exact h.step_back hs
  | addButton uuid documentID => exact h.step_addButton hs
  | saveButton => exact h.step_saveButton hs
  | deleteButton => exact h.step_deleteButton hs

/-- The launch of the app. -/
lemma launch : (Screens.launch (.launch .empty)).InStep :=
  .of_top WellKept.launch.app.ids.store (Or.inl rfl) Bool.noConfusion

end InStep

end Screens

/-! ### The tabs -/

/-- A refresh of the dashboard does not trap while the store is of a realistic size. -/
lemma Dashboard.exists_updateView [FIRTimestamp] {s : App} {d : Dashboard} {k : Segment}
    {calendar : Calendar} {now : Date} (h : s.WellKept) (hk : d.segment = some k.index)
    (hsmall : 999999 * s.shared.length < 2 ^ 63) :
    ∃ d', d.updateView s calendar now = some d' := by
  have hwf : ∀ r ∈ s.shared, (s.transaction r).WellFormed := fun r hr =>
    h.transaction (h.shared r hr)
  have hshown : (s.shown calendar now k).Sublist s.shared := List.filter_sublist
  obtain ⟨d', hd', -⟩ := exists_calculateData
    (d := { d with transactions := s.shown calendar now k })
    (fun r hr => hwf r (hshown.subset hr)) hshown.length_le hsmall
  refine ⟨d', ?_⟩
  rw [updateView, updateTransactions_segment (fun r hr => (hwf r hr).date) hk]
  exact hd'

namespace Tabs

variable {showDate : Date → Date → Date} {calendar : Calendar} {acceptsRow : ℕ → Bool}
  {s s' : Tabs} {e : TabsEvent}

lemma exists_index_eq {segment : ℕ} (h : segment < 3) :
    ∃ k : Segment, (segment : ℤ) = k.index := by
  match segment, h with
  | 0, _ => exact ⟨.allTime, rfl⟩
  | 1, _ => exact ⟨.thisMonth, rfl⟩
  | 2, _ => exact ⟨.today, rfl⟩

/-- A refresh changes the dashboard only. -/
lemma updateView_eq_some_iff [NumberFormat] {d : Dashboard} {now : Date} :
    s.updateView calendar d now = some s' ↔
      ∃ d', d.updateView s.screens.app calendar now = some d' ∧
        s' = { s with report := some ⟨d', d'.labels, now⟩ } := by
  simp only [updateView, Option.map_eq_some_iff, eq_comm (b := s')]

section Invariant

variable [FIRTimestamp]

lemma step_screens [NumberFormat] {e : ScreenEvent}
    (hs : s.step showDate calendar acceptsRow (.screens e) = some s') :
    (s.selected = .transactions ∨ e.Anywhere = true) ∧
      ∃ screens, s.screens.step showDate e = some screens ∧ s' = s.afterScreens e screens := by
  simp only [step] at hs
  split_ifs at hs with hguard
  obtain ⟨screens, hscreens, rfl⟩ := Option.map_eq_some_iff.mp hs
  exact ⟨hguard, screens, hscreens, rfl⟩

lemma step_viewDidAppear [NumberFormat] {now : Date}
    (hs : s.step showDate calendar acceptsRow (.viewDidAppear now) = some s') :
    s.selected = .report ∧ s.Visible ∧ s.updateView calendar s.dashboard now = some s' := by
  simp only [step] at hs
  split_ifs at hs with hguard
  exact ⟨hguard.1, hguard.2, hs⟩

/-- The list is loaded when its tab is selected for the first time; else it appears. -/
lemma selectTransactions_eq_some (hs : s.selectTransactions showDate acceptsRow = some s') :
    ∃ e screens, (e = .viewDidLoad ∨ e = .viewWillAppear) ∧
      s.screens.step showDate e = some screens ∧
      s' = { s with screens := screens, selected := .transactions } := by
  unfold selectTransactions at hs
  split_ifs at hs
  · obtain ⟨screens, hscreens, rfl⟩ := Option.map_eq_some_iff.mp hs
    exact ⟨_, screens, Or.inl rfl, hscreens, rfl⟩
  · obtain ⟨screens, hscreens, rfl⟩ := Option.map_eq_some_iff.mp hs
    exact ⟨_, screens, Or.inr rfl, hscreens, rfl⟩

lemma step_select [NumberFormat] {tab : Tab} {now : Date}
    (hs : s.step showDate calendar acceptsRow (.select tab now) = some s') : s.Visible ∧
      (s' = s ∨
        (tab = .transactions ∧ s.selectTransactions showDate acceptsRow = some s') ∨
        (tab = .report ∧
          updateView calendar { s with selected := .report } s.dashboard now = some s') ∨
        (tab = .settings ∧ s' = { s with selected := .settings })) := by
  simp only [step] at hs
  split_ifs at hs with hvisible hsame
  · exact ⟨hvisible, Or.inl (Option.some.inj hs).symm⟩
  · cases tab with
    | transactions => exact ⟨hvisible, Or.inr (Or.inl ⟨rfl, hs⟩)⟩
    | report => exact ⟨hvisible, Or.inr (Or.inr (Or.inl ⟨rfl, hs⟩))⟩
    | settings => exact ⟨hvisible, Or.inr (Or.inr (Or.inr ⟨rfl, (Option.some.inj hs).symm⟩))⟩

lemma step_segmentControlClicked [NumberFormat] {segment : ℕ} {now : Date}
    (hs : s.step showDate calendar acceptsRow (.segmentControlClicked segment now) = some s') :
    ∃ r k, s.selected = .report ∧ s.report = some r ∧
      s.updateView calendar { r.dashboard with segment := some (Segment.index k) } now =
        some s' := by
  simp only [step] at hs
  split at hs
  next r hsel hr =>
    split_ifs at hs with hlt
    obtain ⟨k, hk⟩ := exists_index_eq hlt
    exact ⟨r, k, hsel, hr, hk ▸ hs⟩
  next => cases hs

/-- In another tab than that of the list only a background event gets through, unless it leads to
the login screen or to a new tab bar. -/
lemma exists_background {e : ScreenEvent} {screens : Screens}
    (hguard : s.selected = .transactions ∨ e.Anywhere = true) (hsel : s.selected ≠ .transactions)
    (hs : s.screens.step showDate e = some screens)
    (htop : ¬ (screens.top = .login ∨
      screens.top = .tabs ∧ (s.screens.top = .login ∨ e = .presentTabs))) :
    ∃ event app, e = .background event ∧ event.Background = true ∧
      s.screens.app.step event = some app ∧ screens = { s.screens with app := app } := by
  have hany := hguard.resolve_left hsel
  cases e with
  | background event =>
      obtain ⟨hb, app, happ, rfl⟩ := Screens.step_background_iff.mp hs
      refine ⟨event, app, rfl, hb, happ, ?_⟩
      unfold Screens.afterBackground at htop ⊢
      split_ifs at htop ⊢ <;> simp_all
  | presentTabs =>
      obtain ⟨-, rfl⟩ := Screens.step_presentTabs hs
      exact absurd (Or.inr ⟨rfl, Or.inr rfl⟩) htop
  | _ => cases hany

/-- Everything is well-formed, and the list and the dashboard have been loaded before they are on
the screen. -/
structure Kept (s : Tabs) : Prop where
  screens : s.screens.WellKept
  anchored : s.screens.Anchored
  /-- Behind the other tabs is the list, unless it has not been loaded. -/
  list : s.selected ≠ .transactions → s.Visible ∨ s.screens.top = .login
  loaded : s.selected = .transactions → s.screens.top ≠ .login ∧ s.screens.top ≠ .tabs
  segment : ∀ r, s.report = some r → ∃ k : Segment, r.dashboard.segment = some k.index
  /-- The user has come to the dashboard from the list. -/
  report : s.selected = .report → s.screens.top = .list → s.report ≠ none

namespace Kept

/-- The login screen covers the tab bar, or a new one has been presented. -/
lemma of_screens {screens : Screens} (h : screens.WellKept) (ha : screens.Anchored)
    (htop : screens.top = .login ∨ screens.top = .tabs) : Kept ⟨screens, none, .report⟩ where
  screens := h
  anchored := ha
  list _ := htop.elim Or.inr fun htabs => Or.inl (Or.inr htabs)
  loaded := by simp
  segment := by simp
  report _ hlist := by rcases htop with htop | htop <;> cases htop.symm.trans hlist

/-- The launch of the app over an empty collection. -/
lemma launch : (Tabs.launch (.launch .empty)).Kept :=
  .of_screens .launch (.launch _) (Or.inl rfl)

/-- The dashboard has a segment. -/
lemma exists_segment (h : s.Kept) : ∃ k : Segment, s.dashboard.segment = some k.index := by
  unfold dashboard
  cases hr : s.report with
  | none => exact ⟨.allTime, rfl⟩
  | some r => exact h.segment r hr

/-- The screens go on in the tab of the list. -/
lemma withScreens (h : s.Kept) {screens : Screens} (hkept : screens.WellKept)
    (hanchored : screens.Anchored) (htop : screens.top ≠ .login ∧ screens.top ≠ .tabs) :
    Kept { s with screens := screens, selected := .transactions } :=
  ⟨hkept, hanchored, by simp, fun _ => htop, h.segment, by simp⟩

/-- A refresh of the dashboard. -/
lemma updateView [NumberFormat] (h : s.screens.WellKept) (ha : s.screens.Anchored)
    (hsel : s.selected = .report) (hlist : s.Visible ∨ s.screens.top = .login) {d : Dashboard}
    {k : Segment} {now : Date} (hk : d.segment = some k.index)
    (hs : s.updateView calendar d now = some s') : s'.Kept := by
  have hdates : ∀ r ∈ s.screens.app.shared, (s.screens.app.transaction r).date ≠ none :=
    fun r hr => (h.app.transaction (h.app.shared r hr)).date
  obtain ⟨d', hd, rfl⟩ := updateView_eq_some_iff.mp hs
  obtain ⟨-, -, -, -, -, hsegment⟩ := (Dashboard.updateView_eq_some_iff hdates hk).mp hd
  refine ⟨h, ha, fun _ => hlist, fun htransactions => ?_, ?_, by simp⟩
  · simp [hsel] at htransactions
  · rintro r ⟨⟩
    exact ⟨k, hsegment.trans hk⟩

lemma step_screens [NumberFormat] (h : s.Kept) {e : ScreenEvent}
    (hs : s.step showDate calendar acceptsRow (.screens e) = some s') : s'.Kept := by
  obtain ⟨hguard, screens, hscreens, rfl⟩ := Tabs.step_screens hs
  have hkept := h.screens.step hscreens
  have hanchored := h.anchored.step hscreens
  unfold afterScreens
  split_ifs with htop
  · exact .of_screens hkept hanchored (htop.imp_right And.left)
  by_cases hsel : s.selected = .transactions
  · obtain ⟨hlogin, htabs⟩ := h.loaded hsel
    have hnext : screens.top ≠ .login ∧ screens.top ≠ .tabs := by
      refine ⟨fun heq => htop (Or.inl heq), fun heq => htop (Or.inr ⟨heq, ?_⟩)⟩
      rcases Screens.top_eq_tabs hscreens heq with hnew | hnew | hnew
      · exact Or.inl hnew
      · exact absurd hnew htabs
      · exact Or.inr hnew
    have := h.withScreens hkept hanchored hnext
    rwa [← hsel] at this
  · obtain ⟨event, app, -, -, -, rfl⟩ := exists_background hguard hsel hscreens htop
    exact ⟨hkept, hanchored, h.list, h.loaded, h.segment, h.report⟩

lemma step_select [NumberFormat] (h : s.Kept) {tab : Tab} {now : Date}
    (hs : s.step showDate calendar acceptsRow (.select tab now) = some s') : s'.Kept := by
  obtain ⟨hvisible, rfl | ⟨-, hload⟩ | ⟨-, hview⟩ | ⟨-, rfl⟩⟩ := Tabs.step_select hs
  · exact h
  · obtain ⟨e, screens, he, hscreens, rfl⟩ := selectTransactions_eq_some hload
    refine h.withScreens (h.screens.step hscreens) (h.anchored.step hscreens) ?_
    rcases he with rfl | rfl
    · obtain ⟨-, rfl⟩ := Screens.step_viewDidLoad hscreens
      simp
    · rcases Screens.step_viewWillAppear hscreens with ⟨-, rfl⟩ | ⟨htop, rfl⟩
      · simp
      · rcases htop with htop | ⟨a, htop⟩ | ⟨d, htop⟩ <;> simp [Screens.viewWillAppear, htop]
  · obtain ⟨k, hk⟩ := h.exists_segment
    exact updateView (s := { s with selected := .report }) h.screens h.anchored rfl
      (Or.inl hvisible) hk hview
  · exact ⟨h.screens, h.anchored, fun _ => Or.inl hvisible, by simp, h.segment, by simp⟩

theorem step [NumberFormat] (h : s.Kept)
    (hs : s.step showDate calendar acceptsRow e = some s') : s'.Kept := by
  cases e with
  | screens e => exact h.step_screens hs
  | viewDidAppear now =>
      obtain ⟨hsel, hvisible, hview⟩ := step_viewDidAppear hs
      obtain ⟨k, hk⟩ := h.exists_segment
      exact updateView h.screens h.anchored hsel (Or.inl hvisible) hk hview
  | select tab now => exact h.step_select hs
  | segmentControlClicked segment now =>
      obtain ⟨r, k, hsel, -, hview⟩ := step_segmentControlClicked hs
      exact updateView h.screens h.anchored hsel (h.list (by simp [hsel])) rfl hview

/-! ### What goes through -/

/-- A refresh goes through while the store is of a realistic size. -/
lemma exists_updateView [NumberFormat] (h : s.screens.WellKept) {d : Dashboard} {k : Segment}
    {now : Date} (hk : d.segment = some k.index)
    (hsmall : 999999 * s.screens.app.shared.length < 2 ^ 63) :
    ∃ s', s.updateView calendar d now = some s' := by
  obtain ⟨d', hd'⟩ := Dashboard.exists_updateView h.app hk hsmall
  exact ⟨_, updateView_eq_some_iff.mpr ⟨d', hd', rfl⟩⟩

/-- The tab of the list can be selected unless the table does not take the first row. -/
lemma exists_selectTransactions (h : s.Kept) (hvisible : s.Visible)
    (hrow : s.screens.top = .tabs → acceptsRow s.screens.app.shared.length = true) :
    ∃ s', s.selectTransactions showDate acceptsRow = some s' := by
  unfold selectTransactions
  rcases hvisible with htop | htop
  · simp [htop, h.anchored.step_viewWillAppear htop]
  · have haccepts : acceptsRow s.screens.app.getTransactions.length = true := hrow htop
    simp [htop, haccepts, Screens.step]

/-- What the screens of the list offer goes through unless UIKit refuses a row. -/
lemma exists_step_screens_iff [NumberFormat] (h : s.Kept) {e : ScreenEvent}
    (offered : s.Offers (.screens e)) :
    (∃ s', s.step showDate calendar acceptsRow (.screens e) = some s') ↔
      ¬ s.RowRefused acceptsRow (.screens e) := by
  obtain ⟨hguard, he⟩ := offered
  constructor
  · rintro ⟨s', hs⟩ hrefused
    obtain ⟨-, screens, hscreens, -⟩ := Tabs.step_screens hs
    cases e with
    | viewWillAppear => exact hrefused (Screens.insertsRow_of_step hscreens)
    | _ => exact hrefused
  · intro hrefused
    have hrow : e = .viewWillAppear → s.screens.InsertsRow := by
      rintro rfl
      exact not_not.mp hrefused
    obtain ⟨screens, hscreens⟩ : ∃ screens, s.screens.step showDate e = some screens :=
      Screens.exists_step h.screens h.anchored he hrow
    exact ⟨s.afterScreens e screens, by simp only [Tabs.step, if_pos hguard, hscreens]; rfl⟩

/-- A tab can be selected unless UIKit refuses a row. -/
lemma exists_step_select_iff [NumberFormat] (h : s.Kept) {tab : Tab} {now : Date}
    (hvisible : s.Visible) (hsmall : 999999 * s.screens.app.shared.length < 2 ^ 63) :
    (∃ s', s.step showDate calendar acceptsRow (.select tab now) = some s') ↔
      ¬ s.RowRefused acceptsRow (.select tab now) := by
  simp only [Tabs.step, if_pos hvisible]
  split_ifs with hsame
  · refine iff_of_true ⟨s, rfl⟩ ?_
    subst hsame
    cases hsel : s.selected with
    | transactions => exact fun hrefused => (h.loaded hsel).2 hrefused.1
    | report => exact id
    | settings => exact id
  cases tab with
  | transactions =>
      constructor
      · rintro ⟨s', hs⟩ ⟨htop, hrow⟩
        have hnone : s.selectTransactions showDate acceptsRow = none := by
          rw [selectTransactions, if_pos htop, if_neg]
          simpa [App.getTransactions] using hrow
        cases hs.symm.trans hnone
      · exact fun hrefused => h.exists_selectTransactions hvisible fun htop => by
          simpa using fun hrow => hrefused ⟨htop, hrow⟩
  | report =>
      obtain ⟨k, hk⟩ := h.exists_segment
      exact iff_of_true
        (exists_updateView (s := { s with selected := .report }) h.screens hk hsmall) id
  | settings => exact iff_of_true ⟨_, rfl⟩ id

/-- Whatever the tab bar offers goes through unless UIKit refuses a row. -/
theorem exists_step_iff [NumberFormat] (h : s.Kept) (offered : s.Offers e)
    (hsmall : 999999 * s.screens.app.shared.length < 2 ^ 63) :
    (∃ s', s.step showDate calendar acceptsRow e = some s') ↔ ¬ s.RowRefused acceptsRow e := by
  cases e with
  | screens e => exact h.exists_step_screens_iff offered
  | viewDidAppear now =>
      obtain ⟨k, hk⟩ := h.exists_segment
      simp only [Tabs.step, if_pos (show s.selected = .report ∧ s.Visible from offered)]
      exact iff_of_true (exists_updateView h.screens hk hsmall) id
  | select tab now => exact h.exists_step_select_iff offered hsmall
  | segmentControlClicked segment now =>
      obtain ⟨hsel, hreport, hlt⟩ := offered
      obtain ⟨r, hr⟩ := Option.ne_none_iff_exists'.mp hreport
      obtain ⟨k, hk⟩ := exists_index_eq hlt
      simp only [Tabs.step, hsel, hr, if_pos hlt]
      exact iff_of_true (exists_updateView h.screens (congrArg some hk) hsmall) id

end Kept

/-- No fetch ends once the list has been loaded. -/
def NoFetchOnList (s : Tabs) : TabsEvent → Prop
  | .screens e => s.screens.NoFetchOnList e
  | _ => True

instance (s : Tabs) : DecidablePred s.NoFetchOnList
  | .screens e => inferInstanceAs (Decidable (s.screens.NoFetchOnList e))
  | .viewDidAppear _ | .select _ _ | .segmentControlClicked _ _ => inferInstanceAs (Decidable True)

/-- Whatever happens in the tabs keeps the list in step with the store, if no fetch ends once the
list has been loaded. -/
theorem inStep_step [NumberFormat] (h : s.Kept) (hin : s.screens.InStep) (hn : s.NoFetchOnList e)
    (hs : s.step showDate calendar acceptsRow e = some s') : s'.screens.InStep := by
  cases e with
  | screens e =>
      obtain ⟨-, screens, hscreens, rfl⟩ := Tabs.step_screens hs
      have hnext := hin.step_noFetchOnList (h.screens.step hscreens) hn hscreens
      unfold afterScreens
      split_ifs <;> exact hnext
  | viewDidAppear now =>
      obtain ⟨-, -, hview⟩ := step_viewDidAppear hs
      obtain ⟨d', -, rfl⟩ := updateView_eq_some_iff.mp hview
      exact hin
  | select tab now =>
      obtain ⟨-, rfl | ⟨-, hload⟩ | ⟨-, hview⟩ | ⟨-, rfl⟩⟩ := Tabs.step_select hs
      · exact hin
      · obtain ⟨e, screens, he, hscreens, rfl⟩ := selectTransactions_eq_some hload
        rcases he with rfl | rfl
        · exact hin.step_viewDidLoad hscreens
        · exact hin.step_viewWillAppear hscreens
      · obtain ⟨d', -, rfl⟩ := updateView_eq_some_iff.mp hview
        exact hin
      · exact hin
  | segmentControlClicked segment now =>
      obtain ⟨r, k, -, -, hview⟩ := step_segmentControlClicked hs
      obtain ⟨d', -, rfl⟩ := updateView_eq_some_iff.mp hview
      exact hin

end Invariant

/-- **Only the table objects.**  Start the app over an empty collection.  Whatever users have
done, and in whatever order the replies have arrived, all rows of the list can be shown.  As long
as the amounts of the store cannot add up to more than an integer holds, what the tabs, the
screens in them and Firebase offer next goes through exactly if UIKit does not refuse a row that
the list inserts: opening a row, confirming an addition, an edit or a deletion, and selecting a
segment always do.  If no fetch has ended once the list was loaded, the row that the list inserts
after an addition is not refused. -/
theorem never_traps [NumberFormat] [FIRTimestamp] {t : Tabs} {es : List TabsEvent}
    (run : Run (step showDate calendar acceptsRow) (launch (.launch .empty)) es t) :
    (∃ cells, t.screens.list.render t.screens.app = some cells) ∧
    (999999 * t.screens.app.shared.length < 2 ^ 63 → ∀ e, t.Offers e →
      ((∃ t', t.step showDate calendar acceptsRow e = some t') ↔ ¬ t.RowRefused acceptsRow e)) ∧
    (EachStep (step showDate calendar acceptsRow) NoFetchOnList (launch (.launch .empty)) es →
      ¬ t.RowRefused acceptsRow (.screens .viewWillAppear)) := by
  have hkept : t.Kept :=
    run.invariant (C := fun _ _ => True) (fun _ _ _ h _ hs => h.step hs)
      (.of_forall (fun _ _ => trivial) _ _) .launch
  refine ⟨Screens.exists_render hkept.screens, fun hsmall e offered =>
    hkept.exists_step_iff offered hsmall, fun quiet => ?_⟩
  obtain ⟨-, hin⟩ : t.Kept ∧ t.screens.InStep :=
    run.invariant (I := fun t => t.Kept ∧ t.screens.InStep)
      (fun _ _ _ h hn hs => ⟨h.1.step hs, inStep_step h.1 h.2 hn hs⟩) quiet
      ⟨.launch, .launch⟩
  exact not_not.mpr hin.listSync.inserted

/-- The user signs in and looks at the dashboard, adds an income of 1200 and an expense of 42,
and looks at the dashboard again, first over all time and then for today. -/
def lookAtReport : List TabsEvent :=
  [.screens (.background .viewDidAppear), .screens (.background (.signIn "u")),
    .screens (.background (.callListener 0)), .screens (.background (.answer 0 [])),
    .screens (.background (.deliver 0 (.succeeded []))), .viewDidAppear 9, .select .transactions 9,
    .screens .viewWillAppear, .screens (.openAdd 9), .screens (.input (.selectType 0)),
    .screens (.input (.selectCategory 0 3)),
    .screens (.input (.editAmount 0 0 ['1', '2', '0', '0'])),
    .screens (.addButton "a" (some "d")), .screens .viewWillAppear, .screens (.openAdd 9),
    .screens (.input (.selectType 1)), .screens (.input (.selectCategory 1 0)),
    .screens (.input (.editAmount 0 0 ['4', '2'])), .screens (.addButton "b" (some "e")),
    .screens .viewWillAppear, .select .report 9, .segmentControlClicked 2 9]

/-- With two login screens there are two fetches; the second one ends when the user has added a
transaction, and takes it out of the store again. -/
def lateFetch : List TabsEvent :=
  [.screens (.background .viewDidAppear), .screens (.background .viewDidAppear),
    .screens (.background (.signIn "u")), .screens (.background (.callListener 0)),
    .screens (.background (.callListener 1)), .screens (.background (.answer 0 [])),
    .screens (.background (.answer 1 [])), .screens (.background (.deliver 0 (.succeeded []))),
    .viewDidAppear 9, .select .transactions 9, .screens .viewWillAppear, .screens (.openAdd 9),
    .screens (.input (.selectType 1)), .screens (.input (.selectCategory 0 3)),
    .screens (.input (.editAmount 0 0 ['4', '2'])), .screens (.addButton "a" (some "d")),
    .screens (.background (.deliver 0 (.succeeded [])))]

theorem lookAtReport_never_traps :
    (∃ t, Run (step min (.gregorian 0) fun _ => true) (launch (.launch .empty)) lookAtReport t ∧
      (∃ cells, t.screens.list.render t.screens.app = some cells) ∧
      (∀ e, t.Offers e → ((∃ t', t.step min (.gregorian 0) (fun _ => true) e = some t') ↔
        ¬ t.RowRefused (fun _ => true) e)) ∧
      ¬ t.RowRefused (fun _ => true) (.screens .viewWillAppear)) ∧
    ∃ t, Run (step min (.gregorian 0) fun _ => true) (launch (.launch .empty)) lateFetch t ∧
      t.Offers (.screens .viewWillAppear) ∧
      ¬ ∃ t', t.step min (.gregorian 0) (fun _ => true) (.screens .viewWillAppear) = some t' := by
  have run : Run (step min (.gregorian 0) fun _ => true) (launch (.launch .empty))
      lookAtReport _ := exec_eq_some_iff.mp rfl
  have late : Run (step min (.gregorian 0) fun _ => true) (launch (.launch .empty))
      lateFetch _ := exec_eq_some_iff.mp rfl
  obtain ⟨hcells, hstep, hrow⟩ := never_traps run
  obtain ⟨-, hlate, -⟩ := never_traps late
  refine ⟨⟨_, run, hcells, hstep (by decide), hrow (by decide)⟩, _, late,
    ⟨Or.inl rfl, by decide, by decide⟩, fun hgoes => ?_⟩
  exact (hlate (by decide) (.screens .viewWillAppear) ⟨Or.inl rfl, by decide, by decide⟩).mp hgoes
    (by unfold RowRefused; decide)

end Tabs

end SpendingTracker
