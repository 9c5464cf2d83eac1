import SpendingTracker.Model.Identity

/-!
# Whose transactions the store holds

The callback of `getTransactionsForUser` replaces the store by the documents it has been
passed, without looking at who is signed in by then.  Listeners are never removed, so that one
sign-in issues as many fetches as there are listeners, and a reply can outlive its session.

To say where a transaction in the store comes from, the state of the app is extended by a
record of the origin of every object.  The main result is that the store of a signed-in user
is free of foreign transactions throughout a run exactly when no reply to a fetch for somebody
else is delivered, except an empty one.
-/

namespace SpendingTracker

open Lib

/-- Where a transaction object comes from. -/
inductive Origin
  /-- It was loaded from a document with the given value in the field `user_id`. -/
  | document (owner : Option Value)
  /-- It was added while the given user was signed in, in the session of the given number. -/
  | added (userId : Option String) (session : ℕ)
deriving DecidableEq

/-- The app together with what an observer has seen of its past. -/
structure Traced where
  app : App
  /-- The origins of the objects of the heap. -/
  origins : List Origin
  /-- The number of times the signed-in user has changed. -/
  session : ℕ
  /-- The tabs screen has been presented since the signed-in user last changed. -/
  presented : Bool
deriving DecidableEq

namespace Traced

def launch (c : Transactions) : Traced := ⟨.launch c, [], 0, false⟩

/-- The origins of the objects that an event creates. -/
def newOrigins (s : Traced) (e : Event) : List Origin :=
  match s.app.fetched e with
  | some (_, documents) => documents.map fun d => .document (docOwner d)
  | none =>
      match e with
      | .add added _ => added.map fun _ => .added s.app.currentUser s.session
      | _ => []

/-- A step of the app, with the observer's record brought up to date.  The tabs screen is
presented at the end of each successful fetch. -/
def step (s : Traced) (e : Event) : Option Traced :=
  (s.app.step e).map fun app =>
    let same := app.currentUser = s.app.currentUser
    { app := app
      origins := s.origins ++ s.newOrigins e
      session := if same then s.session else s.session + 1
      presented := (s.app.fetched e).isSome || (decide same && s.presented) }

/-- Once the tabs screen has been presented to the user `u`, every transaction in the store
comes from a document of `u` or was added by `u` since the sign-in. -/
def Isolated (s : Traced) : Prop :=
  ∀ u, s.app.currentUser = some u → s.presented = true → ∀ r ∈ s.app.shared,
    s.origins[r]? = some (.document (some (.string u))) ∨
      s.origins[r]? = some (.added (some u) s.session)

/-- The screens save edits only of objects that they have taken from the store. -/
def Admissible (s : Traced) : Event → Prop
  | .save r _ => r ∈ s.app.shared
  | _ => True

/-- A fetch that ends successfully while a user is signed in was issued for this user, or it
has found nothing. -/
def OwnReply (s : Traced) (e : Event) : Prop :=
  ∀ v documents, s.app.fetched e = some (v, documents) →
    ∀ u, s.app.currentUser = some u → v = u ∨ documents = []

variable {s s' : Traced} {e : Event}

lemma step_eq_some (h : s.step e = some s') : s.app.step e = some s'.app ∧
    s'.origins = s.origins ++ s.newOrigins e ∧
    (s'.app.currentUser = s.app.currentUser → s'.session = s.session) ∧
    (s.app.fetched e = none → s'.presented = true →
      s'.app.currentUser = s.app.currentUser ∧ s.presented = true) ∧
    (s.app.fetched e ≠ none → s'.presented = true) := by
  obtain ⟨app, happ, rfl⟩ := Option.map_eq_some_iff.mp h
  refine ⟨happ, rfl, fun hsame => if_pos hsame, fun hf hp => ?_, fun hf => ?_⟩
  · simpa [hf] using hp
  · simp [Option.isSome_iff_ne_none.mpr hf]

/-- The origins cover the heap, the store refers to existing objects, and an outstanding
answer holds documents of the user it was asked for. -/
structure Consistent (s : Traced) : Prop where
  length : s.origins.length = s.app.heap.size
  created : ∀ r ∈ s.app.shared, r < s.app.heap.size
  answers : s.app.AnswersMatch
  isolated : s.Isolated

lemma consistent_launch (c : Transactions) : (launch c).Consistent where
  length := rfl
  created := by simp [launch, App.launch]
  answers := by simp [launch, App.launch, App.AnswersMatch]
  isolated := fun u hu => by simp [launch, App.launch] at hu

/-- Every event creates the objects whose origins it records. -/
lemma length_step (hs : s.Consistent) (h : s.step e = some s') :
    s'.origins.length = s'.app.heap.size := by
  obtain ⟨happ, horigins, -⟩ := step_eq_some h
  have hstore := App.step_store happ
  rw [horigins, List.length_append, hs.length]
  generalize s'.app.heap = heap, s'.app.shared = shared at hstore
  cases hstore with
  | fetched hf => simp [newOrigins, hf, App.loaded]
  | added _ => simp [newOrigins, App.fetched]
  | saved _ _ => simp [newOrigins, App.fetched]
  | removed => simp [newOrigins, App.fetched]
  | unchanged hf hadd =>
      simp only [newOrigins, hf]
      cases e with
      | add added index => exact absurd rfl (hadd added index)
      | _ => rfl

/-- The origin of an object that was there before the event. -/
lemma getElem?_origins_of_lt (hs : s.Consistent) (h : s.step e = some s') {r : Ref}
    (hr : r < s.app.heap.size) : s'.origins[r]? = s.origins[r]? := by
  obtain ⟨-, horigins, -⟩ := step_eq_some h
  rw [horigins, List.getElem?_append_left (hs.length ▸ hr)]

/-- The origin of an object that the event creates. -/
lemma getElem?_origins_of_created (hs : s.Consistent) (h : s.step e = some s')
    {ts : List Transaction} (hts : ts.length = (s.newOrigins e).length) {r : Ref}
    (hr : r ∈ s.app.heap.created ts) : ∃ o ∈ s.newOrigins e, s'.origins[r]? = some o := by
  obtain ⟨-, horigins, -⟩ := step_eq_some h
  obtain ⟨hle, hlt⟩ := Heap.mem_created.mp hr
  rw [hts] at hlt
  have hlt' : r - s.origins.length < (s.newOrigins e).length := by
    rw [hs.length]
    exact Nat.sub_lt_left_of_lt_add hle hlt
  refine ⟨_, List.getElem_mem hlt', ?_⟩
  rw [horigins, List.getElem?_append_right (hs.length ▸ hle), List.getElem?_eq_getElem hlt']

lemma currentUser_fetched {app : App} {v : String} {documents : List Doc}
    (hf : s.app.fetched e = some (v, documents)) (h : s.app.step e = some app) :
    app.currentUser = s.app.currentUser := by
  obtain ⟨i, refused, rfl, -⟩ := App.fetched_eq_some_iff.mp hf
  exact App.step_currentUser (by simp) (by simp) h

/-- After a fetch, the objects in the store come from documents of the user it has asked for. -/
lemma getElem?_origins_of_fetched (hs : s.Consistent) (h : s.step e = some s') {v : String}
    {documents : List Doc} (hf : s.app.fetched e = some (v, documents)) {r : Ref}
    (hr : r ∈ s'.app.shared) : s'.origins[r]? = some (.document (some (.string v))) := by
  obtain ⟨-, hshared⟩ := App.step_fetched hf (step_eq_some h).1
  obtain ⟨o, ho, heq⟩ := getElem?_origins_of_created hs h
    (by simp [newOrigins, hf, App.loaded]) (hshared ▸ hr)
  simp only [newOrigins, hf, List.mem_map] at ho
  obtain ⟨d, hd, rfl⟩ := ho
  obtain ⟨i, refused, -, hi⟩ := App.fetched_eq_some_iff.mp hf
  have howner : docOwner d = some (.string v) :=
    hs.answers _ (List.mem_of_getElem? hi) _ rfl d hd
  rw [heq, howner]

/-- An event other than a fetch adds at most transactions of the session to the store. -/
lemma origin_step_of_quiet (hs : s.Consistent) (ha : s.Admissible e)
    (hf : s.app.fetched e = none) (h : s.step e = some s') {r : Ref} (hr : r ∈ s'.app.shared) :
    (∃ x ∈ s.app.shared, s'.origins[r]? = s.origins[x]?) ∨
      s'.origins[r]? = some (.added s.app.currentUser s.session) := by
  have hold : ∀ x ∈ s.app.shared, (∃ y ∈ s.app.shared, s'.origins[x]? = s.origins[y]?) ∨
      s'.origins[x]? = some (.added s.app.currentUser s.session) := fun x hx =>
    Or.inl ⟨x, hx, getElem?_origins_of_lt hs h (hs.created x hx)⟩
  have hstore := App.step_store (step_eq_some h).1
  generalize s'.app.heap = heap, s'.app.shared = shared at hstore hr
  cases hstore with
  | fetched hf' => cases hf.symm.trans hf'
  | @added added index front back hshared =>
      simp only [List.mem_append] at hr
      rcases hr with (hr | hr) | hr
      · exact hold r (by simp [hshared, hr])
      · obtain ⟨o, ho, heq⟩ := getElem?_origins_of_created hs h
          (by simp [newOrigins, App.fetched]) hr
        simp only [newOrigins, App.fetched, List.mem_map] at ho
        obtain ⟨-, -, rfl⟩ := ho
        exact Or.inr heq
      · exact hold r (by simp [hshared, hr])
  | saved _ hshared =>
      rcases hshared with rfl | ⟨front, x, back, hshared, -, rfl⟩
      · exact hold r hr
      · simp only [List.mem_append, List.mem_cons] at hr
        rcases hr with hr | rfl | hr
        · exact hold r (by simp [hshared, hr])
        -- the object that has been saved is one of the store
        · exact hold r ha
        · exact hold r (by simp [hshared, hr])
  | removed => exact hold r (List.mem_filter.mp hr).1
  | unchanged _ _ => exact hold r hr

/-- An event other than a fetch for somebody else keeps the session isolated. -/
lemma isolated_step (hs : s.Consistent) (ha : s.Admissible e) (ho : s.OwnReply e)
    (h : s.step e = some s') : s'.Isolated := by
  intro u hu hp r hr
  obtain ⟨happ, -, hsession, hpresented, -⟩ := step_eq_some h
  cases hf : s.app.fetched e with
  | some p =>
      obtain ⟨v, documents⟩ := p
      rw [currentUser_fetched hf happ] at hu
      rcases ho v documents hf u hu with rfl | rfl
      · exact Or.inl (getElem?_origins_of_fetched hs h hf hr)
      · obtain ⟨-, hshared⟩ := App.step_fetched hf happ
        rw [hshared] at hr
        cases hr
  | none =>
      obtain ⟨hsame, hp₀⟩ := hpresented hf hp
      rw [hsame] at hu
      rw [hsession hsame]
      rcases origin_step_of_quiet hs ha hf h hr with ⟨x, hx, heq⟩ | heq
      · exact heq ▸ hs.isolated u hu hp₀ x hx
      · exact Or.inr (hu ▸ heq)

/-- The end of a fetch for somebody else, if it has found anything, breaks the isolation at
once. -/
lemma not_isolated_step (hs : s.Consistent) (ho : ¬ s.OwnReply e) (h : s.step e = some s') :
    ¬ s'.Isolated := by
  simp only [OwnReply, not_forall, not_or] at ho
  obtain ⟨v, documents, hf, u, hu, hvu, hne⟩ := ho
  obtain ⟨happ, -, -, -, hpresented⟩ := step_eq_some h
  intro hiso
  have hr : s.app.heap.size ∈ s'.app.shared := by
    rw [(App.step_fetched hf happ).2]
    exact Heap.mem_created.mpr ⟨le_rfl, by simpa [App.loaded] using List.length_pos_of_ne_nil hne⟩
  rw [← currentUser_fetched hf happ] at hu
  have := hiso u hu (hpresented (by simp [hf])) _ hr
  rw [getElem?_origins_of_fetched hs h hf hr] at this
  simp only [Option.some.injEq, Origin.document.injEq, Value.string.injEq, reduceCtorEq,
    or_false] at this
  exact hvu this

/-- Every event that is not a fetch for somebody else keeps the observer's record consistent. -/
lemma consistent_step (hs : s.Consistent) (ha : s.Admissible e) (ho : s.OwnReply e)
    (h : s.step e = some s') : s'.Consistent where
  length := length_step hs h
  created := ((App.step_store (step_eq_some h).1).lt_size hs.created).2
  answers := App.step_answersMatch hs.answers (step_eq_some h).1
  isolated := isolated_step hs ha ho h

/-- **Isolation of the sessions.**  In a run from the launch of the app, with any number of
login screens, sign-ins and sign-outs, the store of the signed-in user holds only transactions
of this user in every state, if and only if no fetch that another user's sign-in has issued
ends in this user's session with documents found. -/
theorem always_isolated_iff {c : Transactions} {es : List Event} {t : Traced}
    (run : Run step (launch c) es t) (screens : EachStep step Admissible (launch c) es) :
    Always step Isolated (launch c) es ↔ EachStep step OwnReply (launch c) es :=
  run.always_iff_eachStep (fun _ hs => hs.isolated)
    (fun _ _ _ hs ha ho h => consistent_step hs ha ho h)
    (fun _ _ _ hs _ ho h => not_isolated_step hs ho h) screens (consistent_launch c)

/-! ### A stale reply -/

/-- A document that the user `bob` has stored. -/
def bobsDocument : Doc :=
  ⟨"d", (Transaction.make "t" .income .sport 5 0).addDocumentData "bob"⟩

/-- The collection with this document. -/
def bobsTransactions : Transactions := Collection.empty.addDocument "d" bobsDocument.data

/-- The user `bob` signs in for the first time and is shown his transactions. -/
def firstSession : List Event :=
  [.viewDidAppear, .callListener 0, .signIn "bob", .callListener 0, .answer 0 [bobsDocument],
    .deliver 0 (.succeeded [])]

/-- The user `bob` signs in twice, so that his second sign-in meets two listeners.  He is
shown the tabs after the first reply and signs out before the second one arrives; `alice`
signs in and is shown her tabs, and then the reply for `bob` arrives. -/
def staleReply : List Event :=
  firstSession ++
    [.signOut, .callListener 0, .viewDidAppear, .callListener 1,
      .signIn "bob", .callListener 0, .callListener 1, .answer 0 [bobsDocument],
      .answer 1 [bobsDocument], .deliver 0 (.succeeded []),
      .signOut, .callListener 0, .callListener 1, .viewDidAppear, .callListener 2,
      .signIn "alice", .callListener 0, .answer 1 [], .deliver 1 (.succeeded []),
      .deliver 0 (.succeeded [])]

/-- The run can happen, none of its steps is a save, and at its end the transaction of `bob`
is in the store of `alice`. -/
theorem staleReply_not_isolated :
    ∃ t, Run step (launch bobsTransactions) staleReply t ∧ t.app.currentUser = some "alice" ∧
      t.presented = true ∧ ¬ t.Isolated := by
  refine ⟨_, exec_eq_some_iff.mp rfl, rfl, rfl, fun h => ?_⟩
  have := h "alice" rfl rfl 2 (by decide)
  revert this
  decide

theorem firstSession_isolated :
    Always step Isolated (launch bobsTransactions) firstSession ↔
      EachStep step OwnReply (launch bobsTransactions) firstSession :=
  always_isolated_iff (exec_eq_some_iff.mp rfl) (by simp [firstSession, EachStep, Admissible])

end Traced

end SpendingTracker
