import SpendingTracker.Lib.Pool
import SpendingTracker.Model.Screens
import SpendingTracker.Sync.Ids

/-!
# Local changes and late fetches

Every login screen that has ever appeared fetches the transactions of its own when the user
signs in.  The first reply fills the store and brings the user to the tabs; a later one replaces
the store by the documents of an earlier instant.

The screens are extended by a record of what the user has last confirmed about each id.  Nothing
that has been confirmed is lost, throughout a run, exactly when every reply that is delivered is
up to date with this record and with the list.
-/

namespace SpendingTracker

open Lib

/-- Saving the object `r` issues an update of its documents, and deleting it issues their
deletion. -/
def App.Reaches (s : App) (r : Ref) : Prop :=
  ∃ x, (s.transaction r).id = some x ∧
    (∀ edit, ∃ s', s.step (.save r edit) = some s' ∧
      s'.requests = s.requests ++ [⟨.updateTransactionInDatabase x r, none⟩]) ∧
    ∃ s', s.step (.remove (some x)) = some s' ∧
      s'.requests = s.requests ++ [⟨.removeTransactionFromDatabase x, none⟩]

/-- What the user has last confirmed about an id. -/
inductive Confirmed
  | nothing
  /-- The transaction has been added or saved with these contents. -/
  | present (t : Transaction)
  | deleted
deriving DecidableEq

/-- What a button confirms: the id it concerns, and the contents or the deletion. -/
def Screens.confirmation (s : Screens) : ScreenEvent → Option (String × Confirmed)
  | .addButton uuid _ =>
      match s.top with
      | .add a =>
          if a.CheckAttributes then (a.transaction uuid).map fun t => (uuid, .present t) else none
      | _ => none
  | .saveButton =>
      match s.top with
      | .detail d =>
          if d.CheckAttributes then
            d.edit.bind fun e => (s.app.transaction d.transaction).id.map fun x =>
              (x, .present ((s.app.transaction d.transaction).edited e))
          else none
      | _ => none
  | .deleteButton =>
      match s.top with
      | .detail d => (s.app.transaction d.transaction).id.map fun x => (x, .deleted)
      | _ => none
  | _ => none

/-- The screens together with what the user has confirmed. -/
structure Session where
  screens : Screens
  confirmed : String → Confirmed

namespace Session

/-- The session starts on the login screen. -/
def start (app : App) : Session := ⟨.launch app, fun _ => .nothing⟩

/-- A step of the screens, with the record brought up to date. -/
def step (showDate : Date → Date → Date) (s : Session) (e : ScreenEvent) : Option Session :=
  (s.screens.step showDate e).map fun screens =>
    { screens := screens
      confirmed :=
        match s.screens.confirmation e with
        | some (x, c) => Function.update s.confirmed x c
        | none => s.confirmed }

/-- The transaction is in the list or on the open detail screen. -/
def Shows (s : Session) (r : Ref) : Prop :=
  r ∈ s.screens.list.transactions ∨ ∃ d, s.screens.top = .detail d ∧ d.transaction = r

/-- Nothing that the user has confirmed is lost. -/
structure NothingLost (s : Session) : Prop where
  /-- Added and saved transactions are in the store, as they have been saved last. -/
  present : ∀ x t, s.confirmed x = .present t →
    ∃ r ∈ s.screens.app.shared, s.screens.app.transaction r = t
  /-- Deleted transactions are not in the store. -/
  deleted : ∀ x, s.confirmed x = .deleted →
    ∀ r ∈ s.screens.app.shared, (s.screens.app.transaction r).id ≠ some x
  /-- Whatever the user sees can be saved and deleted. -/
  reaches : ∀ r, s.Shows r → s.screens.app.Reaches r

/-- Nobody signs in or out. -/
def OneUser : ScreenEvent → Prop
  | .background (.signIn _) | .background .signOut => False
  | _ => True

instance : DecidablePred OneUser
  | .background (.signIn _) | .background .signOut => inferInstanceAs (Decidable False)
  | .background .viewDidAppear | .background (.callListener _) | .background (.answer _ _)
  | .background (.deliver _ _) | .background (.add _ _) | .background (.save _ _)
  | .background (.remove _) | .background (.remote _) | .presentTabs | .viewDidLoad
  | .viewWillAppear | .openAdd _ | .openDetail _ _ | .input _ | .back | .addButton _ _
  | .saveButton | .deleteButton => inferInstanceAs (Decidable True)

/-- A fetch that ends successfully has found a document for each added or saved transaction,
which reads back as it has been saved last, none for a deleted transaction, and one for each
transaction of the list. -/
def UpToDate (s : Session) : ScreenEvent → Prop
  | .background e => ∀ v documents, s.screens.app.fetched e = some (v, documents) →
      (∀ x t, s.confirmed x = .present t → ∃ d ∈ documents, decode d.data = t) ∧
      (∀ x, s.confirmed x = .deleted → ∀ d ∈ documents, (decode d.data).id ≠ some x) ∧
      ∀ r ∈ s.screens.list.transactions, ∃ d ∈ documents,
        (decode d.data).id = (s.screens.app.transaction r).id
  | _ => True

/-- A fetch ends on the login screen only. -/
def FirstReply (s : Session) : ScreenEvent → Prop
  | .background e => s.screens.app.fetched e = none ∨ s.screens.top = .login
  | _ => True

instance (s : Session) : DecidablePred s.FirstReply
  | .background e =>
      inferInstanceAs (Decidable (s.screens.app.fetched e = none ∨ s.screens.top = .login))
  | .presentTabs | .viewDidLoad | .viewWillAppear | .openAdd _ | .openDetail _ _ | .input _ | .back
  | .addButton _ _ | .saveButton | .deleteButton => inferInstanceAs (Decidable True)

end Session

/-! ### When a change reaches the database -/

namespace App

variable {s s' : App} {r : Ref}

/-- A change reaches the database if the store has an entry with the id of the object. -/
lemma reaches_iff : s.Reaches r ↔ (s.transaction r).id ≠ none ∧ s.Finds r := by
  constructor
  · rintro ⟨x, hx, hsave, -⟩
    refine ⟨by simp [hx], ?_⟩
    obtain ⟨s', hs, hrequests⟩ := hsave ⟨none, none, 0, 0⟩
    obtain ⟨-, ⟨-, rfl⟩ | ⟨front, y, back, hshared, -, hy, -⟩⟩ := step_save_iff.mp hs
    · simp at hrequests
    · exact ⟨y, by simp [hshared], hy⟩
  · rintro ⟨hid, hfinds⟩
    obtain ⟨x, hx⟩ := Option.ne_none_iff_exists'.mp hid
    refine ⟨x, hx, fun edit => ?_, _, step_remove_some x, rfl⟩
    have hlt : r < s.heap.size := IdsDistinct.lt_size_of_id hid
    have hfirst : ∃ front y back, s.shared = front ++ y :: back ∧
        (∀ z ∈ front, (s.transaction z).id ≠ (s.transaction r).id) ∧
        (s.transaction y).id = (s.transaction r).id := by
      obtain ⟨z, hz, hzr⟩ := hfinds
      obtain ⟨y, hy⟩ := Option.isSome_iff_exists.mp (List.find?_isSome.mpr
        (⟨z, hz, decide_eq_true hzr⟩ : ∃ z ∈ s.shared,
          decide ((s.transaction z).id = (s.transaction r).id) = true))
      obtain ⟨hyr, front, back, hshared, hfront⟩ := List.find?_eq_some_iff_append.mp hy
      exact ⟨front, y, back, hshared, fun z hz => by simpa using hfront z hz, by simpa using hyr⟩
    obtain ⟨front, y, back, hshared, hfront, hy⟩ := hfirst
    exact ⟨_, step_save_iff.mpr
      ⟨hlt, Or.inr ⟨front, y, back, hshared, hfront, hy, x, hx, rfl⟩⟩, rfl⟩

/-- Only the ids of the object and of the store matter. -/
lemma Reaches.of_ids (h : s.Reaches r) (hid : (s'.transaction r).id = (s.transaction r).id)
    (hids : ∀ x ∈ s.shared, (s.transaction x).id = (s.transaction r).id →
      ∃ y ∈ s'.shared, (s'.transaction y).id = (s.transaction r).id) : s'.Reaches r := by
  obtain ⟨hr, x, hx, hxr⟩ := reaches_iff.mp h
  obtain ⟨y, hy, hyr⟩ := hids x hx hxr
  exact reaches_iff.mpr ⟨hid ▸ hr, y, hy, hyr.trans hid.symm⟩

/-- What the store holds can be saved and deleted. -/
lemma IdsDistinct.reaches (h : s.IdsDistinct) (hr : r ∈ s.shared) : s.Reaches r :=
  reaches_iff.mpr ⟨h.present r hr, r, hr, rfl⟩

/-- A save changes no transaction of the store with another id. -/
lemma exists_transaction_saved_iff {y : Ref} {front back : List Ref} {e : Edit} {t : Transaction}
    (hr : r < s.heap.size) (hshared : s.shared = front ++ y :: back)
    (hy : (s.transaction y).id = (s.transaction r).id) (hne : t.id ≠ (s.transaction r).id) :
    (∃ x ∈ front ++ r :: back, (s.heapAfterSave r e).read x = t) ↔
      ∃ x ∈ s.shared, s.transaction x = t := by
  have hkept : ∀ x, x ≠ r → (s.heapAfterSave r e).read x = s.transaction x := fun x hx =>
    (read_heapAfterSave hr).trans (if_neg hx)
  rw [hshared]
  constructor
  · rintro ⟨x, hx, rfl⟩
    rw [id_read_heapAfterSave] at hne
    have hxr : x ≠ r := fun heq => hne (heq ▸ rfl)
    refine ⟨x, ?_, (hkept x hxr).symm⟩
    simp only [List.mem_append, List.mem_cons] at hx ⊢
    tauto
  · rintro ⟨x, hx, rfl⟩
    have hxr : x ≠ r := fun heq => hne (heq ▸ rfl)
    have hxy : x ≠ y := fun heq => hne (heq ▸ hy)
    refine ⟨x, ?_, hkept x hxr⟩
    simp only [List.mem_append, List.mem_cons] at hx ⊢
    tauto

end App

/-! ### The invariant of a session -/

namespace Session

variable {showDate : Date → Date → Date} {u : String} {s s' : Session} {e : ScreenEvent}

/-- The documents of the user `u`, and the store, have distinct ids. -/
abbrev IdsKept (u : String) (app : App) : Prop := app.IdsKept fun owner => owner = some (.string u)

/-- What holds in every state of a session of the user `u` in which nothing has been lost. -/
structure Intact (u : String) (s : Session) : Prop where
  user : s.screens.app.currentUser = some u
  queries : ∀ q ∈ s.screens.app.requests, ∀ v, q.query = .getTransactionsForUser v → v = u
  ids : IdsKept u s.screens.app
  login : s.screens.top = .login →
    s.screens.list.transactions = [] ∧ ∀ x, s.confirmed x = .nothing
  added : s.screens.list.addedTransaction = true → s.screens.top = .appearing
  row : ∀ d, s.screens.top = .detail d →
    s.screens.list.transactions[d.row]? = some d.transaction
  /-- The entries of the list have distinct ids. -/
  listIds : (s.screens.list.transactions.map fun r => (s.screens.app.transaction r).id).Nodup
  ownId : ∀ x t, s.confirmed x = .present t → t.id = some x
  kept : s.NothingLost

/-- Where nothing is confirmed the record stays the same. -/
lemma step_quiet (hquiet : s.screens.confirmation e = none) (h : s.step showDate e = some s') :
    ∃ screens, s.screens.step showDate e = some screens ∧ s' = ⟨screens, s.confirmed⟩ := by
  obtain ⟨screens, hs, rfl⟩ := Option.map_eq_some_iff.mp h
  exact ⟨screens, hs, by rw [hquiet]⟩

/-- The transactions of the store after a fetch. -/
lemma mem_loaded_iff {app app' : App} {event : Event} {v : String} {documents : List Doc}
    (hf : app.fetched event = some (v, documents)) (hs : app.step event = some app')
    {t : Transaction} :
    t ∈ App.loaded documents ↔ ∃ r ∈ app'.shared, app'.transaction r = t := by
  obtain ⟨hheap, hshared⟩ := App.step_fetched hf hs
  rw [hshared, ← List.mem_map, App.transaction_eq_read, hheap, Heap.map_read_created]

/-- A fetch leaves the objects alone that have an id already. -/
lemma transaction_fetched {app app' : App} {event : Event} {v : String} {documents : List Doc}
    (hf : app.fetched event = some (v, documents)) (hs : app.step event = some app') {r : Ref}
    (hr : (app.transaction r).id ≠ none) : app'.transaction r = app.transaction r := by
  obtain ⟨hheap, -⟩ := App.step_fetched hf hs
  rw [App.transaction_eq_read, hheap, Heap.read_create_of_lt (App.IdsDistinct.lt_size_of_id hr)]
  rfl

namespace Intact

/-- What an open detail screen shows is in the list. -/
lemma mem_list (h : s.Intact u) {r : Ref} (hr : s.Shows r) :
    r ∈ s.screens.list.transactions := by
  rcases hr with hr | ⟨d, hd, rfl⟩
  · exact hr
  · exact List.mem_of_getElem? (h.row d hd)

/-- The session goes on with the same app and the same record, and possibly with another list
that holds part of the store or of the old list. -/
lemma withList (h : s.Intact u) {list : ListScreen} {top : Top}
    (hlist : list.transactions = [] ∨ list.transactions = s.screens.list.transactions ∨
      list.transactions = s.screens.app.shared)
    (hlogin : top ≠ .login)
    (hadded : list.addedTransaction = true → top = .appearing)
    (hrow : ∀ d, top = .detail d → list.transactions[d.row]? = some d.transaction) :
    Intact u ⟨⟨s.screens.app, list, top⟩, s.confirmed⟩ := by
  have hreaches : ∀ r ∈ list.transactions, s.screens.app.Reaches r := by
    intro r hr
    rcases hlist with heq | heq | heq <;> rw [heq] at hr
    · cases hr
    · exact h.kept.reaches r (Or.inl hr)
    · exact h.ids.store.reaches hr
  refine ⟨h.user, h.queries, h.ids, fun htop => absurd htop hlogin, hadded, hrow, ?_, h.ownId,
    ⟨h.kept.present, h.kept.deleted, ?_⟩⟩
  · rcases hlist with heq | heq | heq <;> simp only [heq]
    · simp
    · exact h.listIds
    · exact h.ids.store.nodup
  · rintro r (hr | ⟨d, hd, rfl⟩)
    · exact hreaches r hr
    · exact hreaches _ (List.mem_of_getElem? (hrow d hd))

/-- The user moves between the list, the Add screen and the detail screens. -/
lemma move (h : s.Intact u) {top : Top} (hlogin : top ≠ .login)
    (hadded : s.screens.top ≠ .appearing)
    (hrow : ∀ d, top = .detail d → s.screens.list.transactions[d.row]? = some d.transaction) :
    Intact u ⟨{ s.screens with top := top }, s.confirmed⟩ :=
  h.withList (Or.inr (Or.inl rfl)) hlogin
    (fun ha => absurd (h.added ha) hadded) hrow

/-! ### Buttons and fetches -/

/-- The user stays the same, and so does the user of the fetches. -/
lemma queries_step (h : s.Intact u) {event : Event} {app : App} (hin : ∀ v, event ≠ .signIn v)
    (hout : event ≠ .signOut) (hs : s.screens.app.step event = some app) :
    app.currentUser = some u ∧
      ∀ q ∈ app.requests, ∀ v, q.query = .getTransactionsForUser v → v = u := by
  refine ⟨(App.step_currentUser hin hout hs).trans h.user, fun q hq v hquery => ?_⟩
  rcases App.step_queries hs hq with ⟨q₀, hq₀, heq⟩ | hissues
  · exact h.queries q₀ hq₀ v (heq.trans hquery)
  · rw [hquery] at hissues
    cases hissues with
    | fetch hv => exact Option.some.inj (hv.symm.trans h.user)

lemma ids_step (h : s.Intact u) {event : Event} {app : App}
    (hfresh : s.screens.app.FreshIds event) (hs : s.screens.app.step event = some app) :
    IdsKept u app := by
  refine App.IdsKept.step h.ids hfresh (fun v documents hf => ?_) hs
  obtain ⟨i, refused, -, hi⟩ := App.fetched_eq_some_iff.mp hf
  rw [h.queries _ (List.mem_of_getElem? hi) v rfl]

/-- The ids in the list do not change when the objects keep theirs. -/
lemma listIds_congr (h : s.Intact u) {app : App}
    (hid : ∀ r ∈ s.screens.list.transactions,
      (app.transaction r).id = (s.screens.app.transaction r).id) :
    (s.screens.list.transactions.map fun r => (app.transaction r).id).Nodup := by
  rw [List.map_congr_left hid]
  exact h.listIds

/-- An event in the background that ends no fetch. -/
lemma background_quiet (h : s.Intact u) {event : Event} {app : App} (hb : event.Background = true)
    (hin : ∀ v, event ≠ .signIn v) (hout : event ≠ .signOut)
    (hf : s.screens.app.fetched event = none) (hs : s.screens.app.step event = some app) :
    Intact u ⟨{ s.screens with app := app }, s.confirmed⟩ := by
  obtain ⟨hheap, hshared⟩ := App.step_background hb hf hs
  obtain ⟨huser, hqueries⟩ := h.queries_step hin hout hs
  have hfresh : s.screens.app.FreshIds event := by
    cases event with
    | add added index => cases hb
    | remote c => cases hb
    | _ => trivial
  have htransaction : app.transaction = s.screens.app.transaction := by
    funext r
    rw [App.transaction, App.transaction, hheap]
  refine ⟨huser, hqueries, h.ids_step hfresh hs, h.login, h.added, h.row,
    h.listIds_congr fun r _ => by rw [htransaction], h.ownId, ⟨?_, ?_, fun r hr => ?_⟩⟩
  · simp only [hshared, htransaction]
    exact h.kept.present
  · simp only [hshared, htransaction]
    exact h.kept.deleted
  · refine (h.kept.reaches r hr).of_ids (by rw [htransaction]) fun x hx hid => ?_
    exact ⟨x, hshared ▸ hx, by rw [htransaction]; exact hid⟩

/-- The app and what goes with it after a fetch that is up to date. -/
lemma withFetched (h : s.Intact u) {event : Event} {v : String} {documents : List Doc} {app : App}
    (hf : s.screens.app.fetched event = some (v, documents))
    (hup : s.UpToDate (.background event)) (hs : s.screens.app.step event = some app) :
    Intact u ⟨{ s.screens with app := app }, s.confirmed⟩ := by
  obtain ⟨hpresent, hdeleted, hlist⟩ := hup v documents hf
  obtain ⟨i, refused, rfl, -⟩ := App.fetched_eq_some_iff.mp hf
  obtain ⟨huser, hqueries⟩ := h.queries_step (by simp) (by simp) hs
  have hfresh : s.screens.app.FreshIds (.deliver i (.succeeded refused)) := trivial
  have hid : ∀ r ∈ s.screens.list.transactions, app.transaction r = s.screens.app.transaction r :=
    fun r hr => transaction_fetched hf hs (App.reaches_iff.mp (h.kept.reaches r (Or.inl hr))).1
  refine ⟨huser, hqueries, h.ids_step hfresh hs, h.login, h.added, h.row,
    h.listIds_congr fun r hr => by rw [hid r hr], h.ownId, ⟨?_, ?_, fun r hr => ?_⟩⟩
  · intro x t hx
    obtain ⟨d, hd, rfl⟩ := hpresent x t hx
    exact (mem_loaded_iff hf hs).mp (List.mem_map_of_mem hd)
  · intro x hx r hr
    obtain ⟨d, hd, heq⟩ := List.mem_map.mp ((mem_loaded_iff hf hs).mpr ⟨r, hr, rfl⟩)
    exact heq ▸ hdeleted x hx d hd
  · have hmem := h.mem_list hr
    obtain ⟨d, hd, heq⟩ := hlist r hmem
    obtain ⟨y, hy, hread'⟩ := (mem_loaded_iff hf hs).mp (List.mem_map_of_mem hd)
    refine App.reaches_iff.mpr ⟨?_, y, hy, ?_⟩
    · rw [hid r hmem]
      exact (App.reaches_iff.mp (h.kept.reaches r (Or.inl hmem))).1
    · rw [hread', hid r hmem, heq]

/-- An event in the background keeps the session intact when a fetch that it ends is up to
date. -/
lemma step_background (h : s.Intact u) {event : Event} (hone : OneUser (.background event))
    (hup : s.UpToDate (.background event)) (hs : s.step showDate (.background event) = some s') :
    s'.Intact u := by
  obtain ⟨screens, hscreens, rfl⟩ := step_quiet rfl hs
  obtain ⟨hb, app, happ, rfl⟩ := Screens.step_background_iff.mp hscreens
  have hin : ∀ v, event ≠ .signIn v := by
    rintro v rfl
    exact hone
  have hout : event ≠ .signOut := by
    rintro rfl
    exact hone
  have hnext : Intact u ⟨{ s.screens with app := app }, s.confirmed⟩ := by
    cases hf : s.screens.app.fetched event with
    | none => exact h.background_quiet hb hin hout hf happ
    | some p => exact h.withFetched hf hup happ
  unfold Screens.afterBackground
  split_ifs
  · exact absurd ‹_› hout
  · exact hnext.withList (Or.inl rfl) (by simp) (by simp [ListScreen.init]) (by simp)
  · exact hnext

/-- The list appears: if a transaction has been added, it now holds the store. -/
lemma step_viewWillAppear (h : s.Intact u)
    (hs : s.step showDate .viewWillAppear = some s') : s'.Intact u := by
  obtain ⟨screens, hscreens, rfl⟩ := step_quiet rfl hs
  have hlist : s.screens.viewWillAppear.list.transactions = s.screens.list.transactions ∨
      s.screens.viewWillAppear.list.transactions = s.screens.app.shared := by
    unfold Screens.viewWillAppear
    split_ifs
    · exact Or.inr rfl
    · exact Or.inl rfl
  rcases Screens.step_viewWillAppear hscreens with ⟨-, rfl⟩ | ⟨htop, rfl⟩
  · exact h.withList (Or.inr hlist) (by simp) (by simp [Screens.viewWillAppear]) (by simp)
  · have hadded : s.screens.list.addedTransaction = false := by
      by_contra hne
      have := h.added (by simpa using hne)
      rcases htop with htop | ⟨a, htop⟩ | ⟨d, htop⟩ <;> simp [htop] at this
    have hsame : s.screens.viewWillAppear.list.transactions = s.screens.list.transactions := by
      simp [Screens.viewWillAppear, hadded]
    have hlogin : s.screens.viewWillAppear.top ≠ .login := by
      rcases htop with htop | ⟨a, htop⟩ | ⟨d, htop⟩ <;> simp [Screens.viewWillAppear, htop]
    exact h.withList (Or.inr hlist) hlogin (by simp)
      fun d hd => (congrArg (fun l => l[d.row]?) hsame).trans (h.row d hd)

lemma step_openDetail (h : s.Intact u) {row : ℕ} {now : Date}
    (hs : s.step showDate (.openDetail row now) = some s') : s'.Intact u := by
  obtain ⟨screens, hscreens, rfl⟩ := step_quiet rfl hs
  obtain ⟨htop, r, d, hr, hd, rfl⟩ := Screens.step_openDetail hscreens
  refine h.move (by simp) (by simp [htop]) ?_
  rintro d' ⟨⟩
  obtain ⟨date, -, rfl⟩ := DetailScreen.viewDidLoad_eq_some hd
  exact hr

lemma step_input (h : s.Intact u) {i : Input} (hs : s.step showDate (.input i) = some s') :
    s'.Intact u := by
  obtain ⟨screens, hscreens, rfl⟩ := step_quiet rfl hs
  obtain ⟨-, ⟨a, htop, rfl⟩ | ⟨d, htop, rfl⟩⟩ := Screens.step_input hscreens
  · exact h.move (by simp) (by simp [htop]) (by simp)
  · refine h.move (by simp) (by simp [htop]) ?_
    rintro d' ⟨⟩
    simpa using h.row d htop

/-- A button confirms `c` about the id `i`.  If the store then holds what has been confirmed and
the same transactions with other ids as before, the record is true of the store. -/
lemma record_update (h : s.Intact u) {app : App} {i : String} {c : Confirmed}
    (hpresent : ∀ t, c = .present t → t.id = some i ∧ ∃ r ∈ app.shared, app.transaction r = t)
    (hdeleted : c = .deleted → ∀ r ∈ app.shared, (app.transaction r).id ≠ some i)
    (hothers : ∀ t : Transaction, t.id ≠ some i → ((∃ r ∈ app.shared, app.transaction r = t) ↔
      ∃ r ∈ s.screens.app.shared, s.screens.app.transaction r = t)) :
    (∀ x t, Function.update s.confirmed i c x = .present t →
      t.id = some x ∧ ∃ r ∈ app.shared, app.transaction r = t) ∧
      ∀ x, Function.update s.confirmed i c x = .deleted →
        ∀ r ∈ app.shared, (app.transaction r).id ≠ some x := by
  constructor
  · intro x t hx
    by_cases hxi : x = i
    · subst hxi
      rw [Function.update_self] at hx
      exact hpresent t hx
    · rw [Function.update_of_ne hxi] at hx
      have hid := h.ownId x t hx
      have hne : t.id ≠ some i := fun heq => hxi (Option.some.inj (hid.symm.trans heq))
      exact ⟨hid, (hothers t hne).mpr (h.kept.present x t hx)⟩
  · intro x hx r hr hid
    by_cases hxi : x = i
    · subst hxi
      rw [Function.update_self] at hx
      exact hdeleted hx r hr hid
    · rw [Function.update_of_ne hxi] at hx
      have hne : (app.transaction r).id ≠ some i :=
        fun heq => hxi (Option.some.inj (hid.symm.trans heq))
      obtain ⟨r', hr', heq⟩ := (hothers _ hne).mp ⟨r, hr, rfl⟩
      exact h.kept.deleted x hx r' hr' (heq ▸ hid)

/-- The Add screen confirms a new transaction. -/
lemma step_addButton (h : s.Intact u) {uuid : String} {documentID : Option String}
    (hs : s.step showDate (.addButton uuid documentID) = some s') : s'.Intact u := by
  obtain ⟨screens, hscreens, rfl⟩ := Option.map_eq_some_iff.mp hs
  obtain ⟨a, htop, ⟨hcheck, rfl⟩ | ⟨hcheck, huuid, t, app, ht, happ, rfl⟩⟩ :=
    Screens.step_addButton hscreens
  · simpa [Screens.confirmation, htop, hcheck] using h
  have hid : t.id = some uuid := by
    obtain ⟨amount, -, rfl⟩ := Option.map_eq_some_iff.mp ht
    rfl
  simp only [Screens.confirmation, htop, hcheck, ht, if_true, Option.map_some]
  obtain ⟨huser, hqueries⟩ := h.queries_step (by simp) (by simp) happ
  have hfresh : s.screens.app.FreshIds (.add [(t, documentID)] none) :=
    ⟨by simp, by simpa [hid] using huuid⟩
  have hids := h.ids_step hfresh happ
  have hperm := App.transactions_step_add (fun r => h.ids.store.lt_size) happ
  have hstore : ∀ t', (∃ r ∈ app.shared, app.transaction r = t') ↔
      (∃ r ∈ s.screens.app.shared, s.screens.app.transaction r = t') ∨ t' = t := by
    intro t'
    rw [← List.mem_map, ← List.mem_map, hperm.mem_iff, List.mem_append]
    simp
  obtain ⟨hpresent, hdeleted⟩ := h.record_update (c := .present t)
    (by rintro _ ⟨⟩; exact ⟨hid, (hstore t).mpr (Or.inr rfl)⟩) (by simp)
    (fun t' hne => (hstore t').trans (or_iff_left fun heq => hne (heq ▸ hid)))
  refine ⟨huser, hqueries, hids, by simp, fun _ => rfl, by simp, hids.store.nodup,
    fun x t' hx => (hpresent x t' hx).1, ⟨fun x t' hx => (hpresent x t' hx).2, hdeleted, ?_⟩⟩
  rintro r (hr | ⟨d, hd, -⟩)
  · exact hids.store.reaches hr
  · cases hd

/-- The detail screen confirms new contents of the transaction it shows. -/
lemma step_saveButton (h : s.Intact u) (hs : s.step showDate .saveButton = some s') :
    s'.Intact u := by
  obtain ⟨screens, hscreens, rfl⟩ := Option.map_eq_some_iff.mp hs
  obtain ⟨d, htop, ⟨hcheck, rfl⟩ | ⟨hcheck, e, app, he, happ, rfl⟩⟩ :=
    Screens.step_saveButton hscreens
  · simpa [Screens.confirmation, htop, hcheck] using h
  obtain ⟨huser, hqueries⟩ := h.queries_step (by simp) (by simp) happ
  have hfresh : s.screens.app.FreshIds (.save d.transaction e) := trivial
  have hids := h.ids_step hfresh happ
  have hreaches := App.reaches_iff.mp (h.kept.reaches d.transaction (Or.inr ⟨d, htop, rfl⟩))
  obtain ⟨hlt, ⟨hno, -⟩ | ⟨front, y, back, hold, -, hy, i, hi, heq⟩⟩ := App.step_save_iff.mp happ
  · exact absurd hreaches.2 hno
  simp only [Screens.confirmation, htop, hcheck, he, hi, if_true, Option.map_some,
    Option.bind_some]
  have hnew : app.shared = front ++ d.transaction :: back := by rw [heq]
  have hread : app.transaction = (s.screens.app.heapAfterSave d.transaction e).read := by
    rw [App.transaction_eq_read, heq]
  have hid : ∀ r, (app.transaction r).id = (s.screens.app.transaction r).id :=
    fun r => hread ▸ App.id_read_heapAfterSave
  have hothers : ∀ t : Transaction, t.id ≠ some i → ((∃ r ∈ app.shared, app.transaction r = t) ↔
      ∃ r ∈ s.screens.app.shared, s.screens.app.transaction r = t) := by
    intro t hne
    rw [hread, hnew]
    exact App.exists_transaction_saved_iff hlt hold hy (hi.symm ▸ hne)
  have hsaved : ∃ r ∈ app.shared,
      app.transaction r = (s.screens.app.transaction d.transaction).edited e :=
    ⟨d.transaction, by simp [hnew], by rw [hread, App.read_heapAfterSave hlt, if_pos rfl]⟩
  obtain ⟨hpresent, hdeleted⟩ := h.record_update
    (c := .present ((s.screens.app.transaction d.transaction).edited e))
    (by rintro t ⟨⟩; exact ⟨hi, hsaved⟩) (by simp) hothers
  refine ⟨huser, hqueries, hids, by simp, fun hadded => ?_, by simp,
    h.listIds_congr fun r _ => hid r, fun x t hx => (hpresent x t hx).1,
    ⟨fun x t hx => (hpresent x t hx).2, hdeleted, ?_⟩⟩
  · exact absurd (h.added hadded) (by simp [htop])
  · rintro r (hr | ⟨d', hd', -⟩)
    · refine (h.kept.reaches r (Or.inl hr)).of_ids (hid r) fun x hx hxr => ?_
      by_cases hxy : x = y
      · subst hxy
        exact ⟨d.transaction, by simp [hnew], (hid _).trans (hy.symm.trans hxr)⟩
      · refine ⟨x, ?_, (hid x).trans hxr⟩
        simp only [hold, hnew, List.mem_append, List.mem_cons] at hx ⊢
        tauto
    · cases hd'

/-- The detail screen confirms the deletion of the transaction it shows. -/
lemma step_deleteButton (h : s.Intact u) (hs : s.step showDate .deleteButton = some s') :
    s'.Intact u := by
  obtain ⟨screens, hscreens, rfl⟩ := Option.map_eq_some_iff.mp hs
  obtain ⟨d, htop, -, app, happ, rfl⟩ := Screens.step_deleteButton hscreens
  obtain ⟨i, hi⟩ := Option.ne_none_iff_exists'.mp
    (App.reaches_iff.mp (h.kept.reaches d.transaction (Or.inr ⟨d, htop, rfl⟩))).1
  simp only [Screens.confirmation, htop, hi, Option.map_some]
  rw [hi] at happ
  obtain ⟨huser, hqueries⟩ := h.queries_step (by simp) (by simp) happ
  have hfresh : s.screens.app.FreshIds (.remove (some i)) := trivial
  have hids := h.ids_step hfresh happ
  rw [App.step_remove_some, Option.some.injEq] at happ
  have hread : app.transaction = s.screens.app.transaction := happ ▸ rfl
  have hmem : ∀ r, r ∈ app.shared ↔
      r ∈ s.screens.app.shared ∧ (s.screens.app.transaction r).id ≠ some i := by
    intro r
    simp [← happ]
  have hothers : ∀ t : Transaction, t.id ≠ some i → ((∃ r ∈ app.shared, app.transaction r = t) ↔
      ∃ r ∈ s.screens.app.shared, s.screens.app.transaction r = t) := by
    intro t hne
    rw [hread]
    constructor
    · rintro ⟨r, hr, rfl⟩
      exact ⟨r, ((hmem r).mp hr).1, rfl⟩
    · rintro ⟨r, hr, rfl⟩
      exact ⟨r, (hmem r).mpr ⟨hr, hne⟩, rfl⟩
  obtain ⟨hpresent, hdeleted⟩ := h.record_update (c := .deleted) (by simp)
    (fun _ r hr => hread ▸ ((hmem r).mp hr).2) hothers
  refine ⟨huser, hqueries, hids, by simp, fun hadded => ?_, by simp, ?_,
    fun x t hx => (hpresent x t hx).1, ⟨fun x t hx => (hpresent x t hx).2, hdeleted, ?_⟩⟩
  · exact absurd (h.added hadded) (by simp [htop])
  · rw [hread]
    exact (List.Sublist.map _ (List.eraseIdx_sublist _ _)).nodup h.listIds
  · rintro r (hr | ⟨d', hd', -⟩)
    -- what is left in the list has other ids
    · rw [eraseIdx_eq_filter h.listIds (h.row d htop), List.mem_filter] at hr
      refine (h.kept.reaches r (Or.inl hr.1)).of_ids (hread ▸ rfl) fun x hx hxr => ?_
      refine ⟨x, (hmem x).mpr ⟨hx, ?_⟩, hread ▸ hxr⟩
      rw [hxr]
      simpa [hi] using hr.2
    · cases hd'

/-- Every event keeps the session intact when the fetch that it ends, if any, is up to date. -/
theorem step (h : s.Intact u) (hone : OneUser e) (hup : s.UpToDate e)
    (hs : s.step showDate e = some s') : s'.Intact u := by
  cases e with
  | background event => exact h.step_background hone hup hs
  | presentTabs =>
      obtain ⟨screens, hscreens, rfl⟩ := step_quiet rfl hs
      obtain ⟨-, rfl⟩ := Screens.step_presentTabs hscreens
      exact h.withList (Or.inl rfl) (by simp) (by simp [ListScreen.init]) (by simp)
  | viewDidLoad =>
      obtain ⟨screens, hscreens, rfl⟩ := step_quiet rfl hs
      obtain ⟨-, rfl⟩ := Screens.step_viewDidLoad hscreens
      exact h.withList (Or.inr (Or.inr rfl)) (by simp) (fun _ => rfl) (by simp)
  | viewWillAppear => exact h.step_viewWillAppear hs
  | openAdd now =>
      obtain ⟨screens, hscreens, rfl⟩ := step_quiet rfl hs
      obtain ⟨htop, rfl⟩ := Screens.step_openAdd hscreens
      exact h.move (by simp) (by simp [htop]) (by simp)
  | openDetail row now => exact h.step_openDetail hs
  | input i => exact h.step_input hs
  | back =>
      obtain ⟨screens, hscreens, rfl⟩ := step_quiet rfl hs
      obtain ⟨htop, rfl⟩ := Screens.step_back hscreens
      refine h.move (by simp) ?_ (by simp)
      rcases htop with ⟨a, htop⟩ | ⟨d, htop⟩ <;> simp [htop]
  | addButton uuid documentID => exact h.step_addButton hs
  | saveButton => exact h.step_saveButton hs
  | deleteButton => exact h.step_deleteButton hs

/-- A fetch that is not up to date loses something. -/
theorem not_nothingLost (h : s.Intact u) (hup : ¬ s.UpToDate e)
    (hs : s.step showDate e = some s') : ¬ s'.NothingLost := by
  cases e with
  | background event =>
      obtain ⟨screens, hscreens, rfl⟩ := step_quiet rfl hs
      obtain ⟨-, app, happ, rfl⟩ := Screens.step_background_iff.mp hscreens
      intro hkept
      refine hup fun v documents hf => ⟨fun x t hx => ?_, fun x hx d hd => ?_, fun r hr => ?_⟩
      · obtain ⟨r, hr, hrt⟩ := hkept.present x t hx
        rw [Screens.app_afterBackground] at hr hrt
        exact List.mem_map.mp ((mem_loaded_iff hf happ).mpr ⟨r, hr, hrt⟩)
      · obtain ⟨r, hr, hrd⟩ := (mem_loaded_iff hf happ).mp (List.mem_map_of_mem hd)
        have hdeleted := hkept.deleted x hx
        rw [Screens.app_afterBackground] at hdeleted
        exact hrd ▸ hdeleted r hr
      · obtain ⟨i, refused, rfl, -⟩ := App.fetched_eq_some_iff.mp hf
        have hlogin : s.screens.top ≠ .login := fun htop => by simp [(h.login htop).1] at hr
        have hreaches := hkept.reaches r
          (Or.inl (by simpa [Screens.afterBackground, hlogin] using hr))
        rw [Screens.app_afterBackground] at hreaches
        obtain ⟨-, y, hy, hyr⟩ := App.reaches_iff.mp hreaches
        obtain ⟨d, hd, heq⟩ := List.mem_map.mp ((mem_loaded_iff hf happ).mpr ⟨y, hy, rfl⟩)
        have hid := (App.reaches_iff.mp (h.kept.reaches r (Or.inl hr))).1
        exact ⟨d, hd, by rw [heq, hyr, transaction_fetched hf happ hid]⟩
  | _ => exact absurd trivial hup

/-- The session of a user who is signed in when the app starts. -/
lemma start {app : App} (huser : app.currentUser = some u) (hrequests : app.requests = [])
    (hids : IdsKept u app) : (start app).Intact u := by
  refine ⟨huser, ?_, hids, fun _ => ⟨rfl, fun _ => rfl⟩, ?_, ?_, ?_, ?_, ⟨?_, ?_, ?_⟩⟩
  · simp [Session.start, Screens.launch, hrequests]
  all_goals simp [Session.start, Screens.launch, ListScreen.init, Shows]

/-- A fetch that brings the user from the login screen to the tabs is up to date. -/
lemma upToDate_of_firstReply (h : s.Intact u) (hfirst : FirstReply s e) : s.UpToDate e := by
  cases e with
  | background event =>
      intro v documents hf
      obtain ⟨hlist, hconfirmed⟩ := h.login (hfirst.resolve_left (by simp [hf]))
      exact ⟨by simp [hconfirmed], by simp [hconfirmed], by simp [hlist]⟩
  | _ => trivial

end Intact

/-- **Nothing is lost exactly when every fetch is up to date.**  Let a user be signed in when
the app starts, with any number of listeners still to be called.  Throughout a run in which
nobody signs in or out, whatever the user has confirmed is kept, exactly when each fetch that
ends has found documents which are up to date with what has been confirmed and with the list. -/
theorem always_nothingLost_iff {app : App} {es : List ScreenEvent} {t : Session}
    (user : app.currentUser = some u) (requests : app.requests = []) (ids : IdsKept u app)
    (run : Run (step showDate) (start app) es t)
    (oneUser : EachStep (step showDate) (fun _ e => OneUser e) (start app) es) :
    Always (step showDate) NothingLost (start app) es ↔
      EachStep (step showDate) UpToDate (start app) es :=
  run.always_iff_eachStep (fun _ h => Intact.kept h)
    (fun _ _ _ h hone hup hs => Intact.step h hone hup hs)
    (fun _ _ _ h _ hup hs => Intact.not_nothingLost h hup hs) oneUser (.start user requests ids)

/-- The user `u` without transactions; two login screens have appeared. -/
def twoListeners : App := ⟨⟨[]⟩, [], some "u", [1, 1], .empty, []⟩

/-- Both listeners fetch; the first reply brings the user to the tabs. -/
def firstReply : List ScreenEvent :=
  [.background (.callListener 0), .background (.callListener 1), .background (.answer 0 []),
    .background (.answer 1 []), .background (.deliver 0 (.succeeded [])), .viewDidLoad,
    .viewWillAppear]

/-- The user adds a transaction. -/
def addition : List ScreenEvent :=
  [.openAdd 9, .input (.selectType 1), .input (.selectCategory 0 3),
    .input (.editAmount 0 0 ['4', '2']), .addButton "a" (some "d"), .viewWillAppear]

lemma twoListeners_idsKept : IdsKept "u" twoListeners where
  present := by simp [twoListeners, Collection.empty]
  distinct := by simp [twoListeners, Collection.empty]
  answers := by simp [twoListeners]
  store := ⟨by simp [twoListeners], by simp [twoListeners]⟩

theorem firstReply_nothingLost :
    Always (step min) NothingLost (start twoListeners) (firstReply ++ addition) :=
  have run : Run (step min) (start twoListeners) (firstReply ++ addition) _ :=
    exec_eq_some_iff.mp rfl
  (always_nothingLost_iff rfl rfl twoListeners_idsKept run (by decide)).mpr
    (run.eachStep (I := Intact "u") (C := fun s e => OneUser e ∧ s.FirstReply e) (D := UpToDate)
      (fun _ _ h hfirst => Intact.upToDate_of_firstReply h hfirst.2)
      (fun _ _ _ h hfirst hs =>
        Intact.step h hfirst.1 (Intact.upToDate_of_firstReply h hfirst.2) hs)
      (by decide) (.start rfl rfl twoListeners_idsKept))

/-- The second reply has been computed before the addition.  Its delivery takes the transaction
out of the store, although it is in the list and in the database. -/
theorem lateReply_loses : ∃ t,
    Run (step min) (start twoListeners)
      (firstReply ++ addition ++ [.background (.deliver 0 (.succeeded []))]) t ∧
    EachStep (step min) (fun _ e => OneUser e) (start twoListeners)
      (firstReply ++ addition ++ [.background (.deliver 0 (.succeeded []))]) ∧
    t.confirmed "a" = .present (.make "a" .expense .fuel 42 9) ∧ t.screens.app.shared = [] ∧
    t.screens.list.transactions = [0] ∧ ¬ t.NothingLost := by
  refine ⟨_, exec_eq_some_iff.mp rfl, by decide, rfl, rfl, rfl, fun h => ?_⟩
  obtain ⟨r, hr, -⟩ := h.present "a" _ rfl
  cases hr

end Session

end SpendingTracker
