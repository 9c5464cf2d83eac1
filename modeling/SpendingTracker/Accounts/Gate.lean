import SpendingTracker.Accounts.EmailGrammar
import SpendingTracker.Lib.Pool
import SpendingTracker.Model.Gate
import SpendingTracker.Model.Identity

/-!
# Nobody gets past the gate

The tabs are presented by a listener, which asks Firebase who is signed in, and not by the button
that the user has clicked.  Between the click and the tabs lie an answer of Firebase, the call of
a listener and a fetch, each at a time of its own.  Nevertheless everything that the app does for
a user goes back to a click with acceptable texts: until Firebase has admitted somebody on such a
click, the app does nothing at all, and after that it works for those who have been admitted.
-/

namespace SpendingTracker

open Lib

/-! ### The app -/

namespace App

variable {c : Transactions} {users users' : List String} {s s' : App} {e : Event}

/-- The app works for the given users only. -/
structure Guarded (c : Transactions) (users : List String) (s : App) : Prop where
  signedIn : ∀ u, s.currentUser = some u → u ∈ users
  fetches : ∀ q ∈ s.requests, ∀ v, q.query = .getTransactionsForUser v → v ∈ users
  answers : s.AnswersMatch
  /-- A document is one of those from the start, or it belongs to one of the users. -/
  documents : ∀ d ∈ s.collection.documents, (∃ d₀ ∈ c.documents, SameDocument d₀ d) ∨
    ∃ u ∈ users, docOwner d = some (.string u)

namespace Guarded

lemma mono (h : s.Guarded c users) (hsub : users ⊆ users') : s.Guarded c users' where
  signedIn u hu := hsub (h.signedIn u hu)
  fetches q hq v hv := hsub (h.fetches q hq v hv)
  answers := h.answers
  documents d hd := (h.documents d hd).imp_right fun ⟨u, hu, howner⟩ => ⟨u, hsub hu, howner⟩

lemma launch : (App.launch c).Guarded c users where
  signedIn u hu := by cases hu
  fetches q hq := by cases hq
  answers q hq := by cases hq
  documents d hd := Or.inl ⟨d, hd, .refl d⟩

/-- An event of the app itself, which signs in one of the users if it signs in anybody. -/
theorem step (h : s.Guarded c users) (hlocal : ∀ c', e ≠ .remote c')
    (hin : ∀ u, e = .signIn u → u ∈ users) (hs : s.step e = some s') : s'.Guarded c users where
  signedIn u hu := by
    by_cases hsign : ∃ v, e = .signIn v
    · obtain ⟨v, rfl⟩ := hsign
      cases hs
      unfold App.signIn at hu
      split_ifs at hu with hsame
      · exact h.signedIn u hu
      · obtain rfl : v = u := Option.some.inj hu
        exact hin v rfl
    · by_cases hout : e = .signOut
      · subst hout
        cases hs
        unfold App.signOut at hu
        split_ifs at hu with hnone
        · exact h.signedIn u hu
        · cases hu
      · rw [step_currentUser (fun v hv => hsign ⟨v, hv⟩) hout hs] at hu
        exact h.signedIn u hu
  fetches q hq v hv := by
    rcases step_queries hs hq with ⟨q₀, hq₀, heq⟩ | hissues
    · exact h.fetches q₀ hq₀ v (heq.trans hv)
    · rw [hv] at hissues
      cases hissues with
      | fetch hu => exact h.signedIn v hu
  answers := step_answersMatch h.answers hs
  documents d hd := by
    rcases step_documents hlocal hs hd with ⟨d₁, hd₁, hsame⟩ | ⟨added, index, u, rfl, hu, hd, -⟩
    · rcases h.documents d₁ hd₁ with ⟨d₀, hd₀, hsame₀⟩ | ⟨u, hu, howner⟩
      · exact Or.inl ⟨d₀, hd₀, hsame₀.trans hsame⟩
      · exact Or.inr ⟨u, hu, hsame.owner.symm.trans howner⟩
    · obtain ⟨t, i, -, rfl⟩ := mem_newDocuments.mp hd
      exact Or.inr ⟨u, h.signedIn u hu, rfl⟩

/-- What a fetch brings into the store belongs to one of the users. -/
lemma fetched (h : s.Guarded c users) {v : String} {documents : List Doc}
    (hf : s.fetched e = some (v, documents)) :
    v ∈ users ∧ ∀ d ∈ documents, docOwner d = some (.string v) := by
  obtain ⟨i, refused, -, hi⟩ := fetched_eq_some_iff.mp hf
  have hmem := List.mem_of_getElem? hi
  exact ⟨h.fetches _ hmem v rfl, h.answers _ hmem documents rfl⟩

end Guarded

end App

/-! ### The screens -/

namespace Screens

variable {showDate : Date → Date → Date} {s s' : Screens} {e : ScreenEvent}

/-- What an event of the screens does to the app is nothing, or an event of the app itself. -/
lemma exists_event (h : s.step showDate e = some s') : s'.app = s.app ∨ ∃ event,
    s.app.step event = some s'.app ∧ (∀ c, event ≠ .remote c) ∧
      ∀ u, event = .signIn u → e = .background (.signIn u) := by
  cases e with
  | background event =>
      obtain ⟨hb, app, happ, rfl⟩ := step_background_iff.mp h
      rw [app_afterBackground]
      refine Or.inr ⟨event, happ, fun c hc => ?_, fun u hu => by rw [hu]⟩
      rw [hc] at hb
      cases hb
  | presentTabs =>
      obtain ⟨-, rfl⟩ := step_presentTabs h
      exact Or.inl rfl
  | viewDidLoad =>
      obtain ⟨-, rfl⟩ := step_viewDidLoad h
      exact Or.inl rfl
  | viewWillAppear =>
      obtain ⟨-, rfl⟩ | ⟨-, rfl⟩ := step_viewWillAppear h <;> exact Or.inl rfl
  | openAdd now =>
      obtain ⟨-, rfl⟩ := step_openAdd h
      exact Or.inl rfl
  | openDetail row now =>
      obtain ⟨-, r, d, -, -, rfl⟩ := step_openDetail h
      exact Or.inl rfl
  | input i =>
      obtain ⟨-, ⟨a, -, rfl⟩ | ⟨d, -, rfl⟩⟩ := step_input h <;> exact Or.inl rfl
  | back =>
      obtain ⟨-, rfl⟩ := step_back h
      exact Or.inl rfl
  | addButton uuid documentID =>
      obtain ⟨a, -, ⟨-, rfl⟩ | ⟨-, -, t, app, -, happ, rfl⟩⟩ := step_addButton h
      · exact Or.inl rfl
      · exact Or.inr ⟨_, happ, fun c => by simp, fun u => by simp⟩
  | saveButton =>
      obtain ⟨d, -, ⟨-, rfl⟩ | ⟨-, edit, app, -, happ, rfl⟩⟩ := step_saveButton h
      · exact Or.inl rfl
      · exact Or.inr ⟨_, happ, fun c => by simp, fun u => by simp⟩
  | deleteButton =>
      obtain ⟨d, -, -, app, happ, rfl⟩ := step_deleteButton h
      exact Or.inr ⟨_, happ, fun c => by simp, fun u => by simp⟩

/-- Nothing has happened since the launch, except that login screens have appeared. -/
def Closed (c : Transactions) (s : Screens) : Prop :=
  ∃ listeners, s = launch { App.launch c with listeners := listeners }

/-- As long as nobody signs in, nothing happens. -/
lemma Closed.step {c : Transactions} (h : s.Closed c) (he : e.SignsIn = false)
    (hs : s.step showDate e = some s') : s'.Closed c := by
  obtain ⟨listeners, rfl⟩ := h
  have htop : (launch { App.launch c with listeners := listeners }).top = .login := rfl
  cases e with
  | background event =>
      obtain ⟨hb, app, happ, rfl⟩ := step_background_iff.mp hs
      cases event with
      | viewDidAppear =>
          cases happ
          exact ⟨listeners ++ [1], rfl⟩
      | signIn u => cases he
      | signOut =>
          cases happ
          exact ⟨listeners, rfl⟩
      | callListener i =>
          obtain ⟨n, -, rfl⟩ := App.step_callListener_iff.mp happ
          exact ⟨listeners.set i n, rfl⟩
      | answer i documents =>
          obtain ⟨q, hi, -⟩ := App.step_answer_iff.mp happ
          cases hi
      | deliver i outcome =>
          obtain ⟨q, a, hi, -⟩ := App.step_deliver_iff.mp happ
          cases hi
      | add added index => cases hb
      | save r edit => cases hb
      | remove x => cases hb
      | remote c => cases hb
  | presentTabs => exact absurd htop (step_presentTabs hs).1
  | viewDidLoad => cases (step_viewDidLoad hs).1
  | viewWillAppear =>
      obtain ⟨htop, -⟩ | ⟨htop | ⟨a, htop⟩ | ⟨d, htop⟩, -⟩ := step_viewWillAppear hs <;> cases htop
  | openAdd now => cases (step_openAdd hs).1
  | openDetail row now => cases (step_openDetail hs).1
  | input i => obtain ⟨-, ⟨a, htop, -⟩ | ⟨d, htop, -⟩⟩ := step_input hs <;> cases htop
  | back => obtain ⟨⟨a, htop⟩ | ⟨d, htop⟩, -⟩ := step_back hs <;> cases htop
  | addButton uuid documentID =>
      obtain ⟨a, htop, -⟩ := step_addButton hs
      cases htop
  | saveButton =>
      obtain ⟨d, htop, -⟩ := step_saveButton hs
      cases htop
  | deleteButton =>
      obtain ⟨d, htop, -⟩ := step_deleteButton hs
      cases htop

end Screens

/-! ### The forms -/

namespace Gate

variable {ch : Characters} (eq : ch.Equality) {showDate : Date → Date → Date}
  {c : Transactions} {g g' : Gate} {e : GateEvent} {es : List GateEvent}

/-- What Firebase is asked by an event. -/
def asked (g : Gate) (e : GateEvent) : List AuthRequest :=
  ((g.clicked eq e).bind fun (asker, attempt) => attempt.request asker).toList

/-- The request that an event answers. -/
def answered (g : Gate) : GateEvent → List AuthRequest
  | .answer attempt _ => g.attempts[attempt]?.toList
  | _ => []

/-- The user whom an event admits, with the request that has been granted. -/
def admitted (g : Gate) : GateEvent → List (String × AuthRequest)
  | .answer attempt (some user) => (g.attempts[attempt]?.map fun r => (user, r)).toList
  | _ => []

@[simp] lemma screens_setMessage (g : Gate) (text : String) (asker : Asker) :
    (g.setMessage text asker).screens = g.screens := by
  cases asker <;> rfl

@[simp] lemma attempts_setMessage (g : Gate) (text : String) (asker : Asker) :
    (g.setMessage text asker).attempts = g.attempts := by
  cases asker <;> rfl

/-- A request that is granted is answered. -/
lemma mem_answered_of_admitted : ∀ p ∈ g.admitted e, p.2 ∈ g.answered e := by
  intro p hp
  unfold admitted at hp
  split at hp
  · obtain ⟨r, hr, rfl⟩ := Option.map_eq_some_iff.mp (Option.mem_toList.mp hp)
    exact Option.mem_toList.mpr hr
  · cases hp

/-- Firebase is asked with texts that pass the checks only. -/
lemma valid_of_asked : ∀ r ∈ g.asked eq e,
    isValidEmail r.email = true ∧ 6 ≤ ch.count r.password.toList := by
  intro r hr
  obtain ⟨⟨asker, attempt⟩, hclick, hrequest⟩ :=
    Option.bind_eq_some_iff.mp (Option.mem_toList.mp hr)
  cases attempt with
  | errorMessage text => cases hrequest
  | firebase email password =>
      cases hrequest
      unfold clicked at hclick
      split at hclick
      · obtain ⟨f, -, hf⟩ := Option.map_eq_some_iff.mp hclick
        exact @isValidEmail_of_firebase ch eq _ email _ "" password
          (Or.inl (congrArg Prod.snd hf))
      · obtain ⟨f, -, hf⟩ := Option.map_eq_some_iff.mp hclick
        exact isValidEmail_of_firebase (Or.inr (congrArg Prod.snd hf))
      · cases hclick

variable {eq}

lemma click_eq_some (h : g.click eq e = some g') :
    g'.screens = g.screens ∧ g'.attempts = g.attempts ++ g.asked eq e := by
  obtain ⟨⟨asker, attempt⟩, hclick, rfl⟩ := Option.map_eq_some_iff.mp h
  refine ⟨by simp, ?_⟩
  rw [asked, hclick]
  rfl

/-- What an event can do to the screens and to the requests. -/
inductive Effect (eq : ch.Equality) (showDate : Date → Date → Date) (g g' : Gate) :
    GateEvent → Prop
  /-- The screens go on, and nobody is signed in. -/
  | screens {e : ScreenEvent} (signsIn : e.SignsIn = false)
      (screens : g.screens.step showDate e = some g'.screens)
      (attempts : g'.attempts = g.attempts) : Effect eq showDate g g' (.screens e)
  /-- Something happens to the forms; Firebase may be asked. -/
  | forms {e : GateEvent} (answered : g.answered e = []) (admitted : g.admitted e = [])
      (screens : g'.screens = g.screens) (attempts : g'.attempts = g.attempts ++ g.asked eq e) :
      Effect eq showDate g g' e
  | rejected {attempt : ℕ} {r : AuthRequest} (request : g.attempts[attempt]? = some r)
      (screens : g'.screens = g.screens) (attempts : g'.attempts = g.attempts.eraseIdx attempt) :
      Effect eq showDate g g' (.answer attempt none)
  | granted {attempt : ℕ} {user : String} {r : AuthRequest}
      (request : g.attempts[attempt]? = some r)
      (screens : g.screens.step showDate (.background (.signIn user)) = some g'.screens)
      (attempts : g'.attempts = g.attempts.eraseIdx attempt) :
      Effect eq showDate g g' (.answer attempt (some user))

lemma effect_of_step (h : g.step eq showDate e = some g') : Effect eq showDate g g' e := by
  cases e with
  | screens e =>
      simp only [step] at h
      split_ifs at h with hsign
      obtain ⟨screens, hs, rfl⟩ := Option.map_eq_some_iff.mp h
      exact .screens (by simpa using hsign) hs rfl
  | editLogin form email password =>
      simp only [step] at h
      split_ifs at h with hform
      cases h
      exact .forms rfl rfl rfl (List.append_nil _).symm
  | editSignUp form email password passwordConfirm =>
      simp only [step] at h
      split_ifs at h with hform
      cases h
      exact .forms rfl rfl rfl (List.append_nil _).symm
  | prepare form =>
      simp only [step] at h
      split_ifs at h with hform
      cases h
      exact .forms rfl rfl rfl (List.append_nil _).symm
  | loginButtonClicked form =>
      simp only [step] at h
      split_ifs at h with htop
      exact .forms rfl rfl (click_eq_some h).1 (click_eq_some h).2
  | signUpButtonClicked form =>
      simp only [step] at h
      split_ifs at h with htop
      exact .forms rfl rfl (click_eq_some h).1 (click_eq_some h).2
  | answer attempt user =>
      cases user with
      | none =>
          obtain ⟨r, hr, rfl⟩ := Option.map_eq_some_iff.mp h
          exact .rejected hr (by simp) (by simp)
      | some user =>
          obtain ⟨r, hr, hg⟩ := Option.bind_eq_some_iff.mp h
          obtain ⟨screens, hs, rfl⟩ := Option.map_eq_some_iff.mp hg
          exact .granted hr hs rfl

/-- The requests: those of a click come in, and the one that is answered goes out. -/
lemma attempts_step (h : g.step eq showDate e = some g') :
    (g'.attempts ++ g.answered e).Perm (g.attempts ++ g.asked eq e) := by
  have answers : ∀ {attempt : ℕ} {user : Option String} {r : AuthRequest},
      g.attempts[attempt]? = some r → g'.attempts = g.attempts.eraseIdx attempt →
      (g'.attempts ++ g.answered (.answer attempt user)).Perm
        (g.attempts ++ g.asked eq (.answer attempt user)) := by
    intro attempt user r hr hattempts
    obtain ⟨front, back, hl, herase, -⟩ := exists_append_of_getElem? hr
    have hasked : g.asked eq (.answer attempt user) = [] := rfl
    rw [hattempts, answered, hr, hasked, List.append_nil, herase, hl, List.append_assoc]
    exact List.perm_append_comm.append_left front
  cases effect_of_step h with
  | screens _ _ hattempts => rw [hattempts]; exact .refl _
  | forms hanswered _ _ hattempts => rw [hattempts, hanswered, List.append_nil]
  | rejected hr _ hattempts => exact answers hr hattempts
  | granted hr _ hattempts => exact answers hr hattempts

/-! ### Over a run -/

/-- The app works for those who have been admitted; before that, nothing happens. -/
structure Kept (c : Transactions) (g : Gate) (users : List (String × AuthRequest)) : Prop where
  app : g.screens.app.Guarded c (users.map Prod.fst)
  closed : users = [] → g.screens.Closed c

namespace Kept

variable {users : List (String × AuthRequest)}

lemma launch : (Gate.launch c).Kept c [] := ⟨.launch, fun _ => ⟨[], rfl⟩⟩

/-- The app goes on with an event of the screens. -/
lemma app_step (h : g.screens.app.Guarded c (users.map Prod.fst)) {e : ScreenEvent}
    (hin : ∀ u, e = .background (.signIn u) → u ∈ users.map Prod.fst) {screens : Screens}
    (hs : g.screens.step showDate e = some screens) :
    screens.app.Guarded c (users.map Prod.fst) := by
  obtain happ | ⟨event, happ, hlocal, hsign⟩ := Screens.exists_event hs
  · rw [happ]
    exact h
  · exact h.step hlocal (fun u hu => hin u (hsign u hu)) happ

theorem step (h : g.Kept c users) (hs : g.step eq showDate e = some g') :
    g'.Kept c (users ++ g.admitted e) := by
  cases effect_of_step hs with
  | @screens e hsign hscreens _ =>
      have hadmitted : g.admitted (.screens e) = [] := rfl
      rw [hadmitted, List.append_nil]
      refine ⟨app_step h.app (fun u hu => ?_) hscreens,
        fun hnil => (h.closed hnil).step hsign hscreens⟩
      rw [hu] at hsign
      cases hsign
  | forms _ hadmitted hscreens _ =>
      rw [hadmitted, List.append_nil]
      exact ⟨hscreens ▸ h.app, fun hnil => hscreens ▸ h.closed hnil⟩
  | @rejected attempt _ _ hscreens _ =>
      have hadmitted : g.admitted (.answer attempt none) = [] := rfl
      rw [hadmitted, List.append_nil]
      exact ⟨hscreens ▸ h.app, fun hnil => hscreens ▸ h.closed hnil⟩
  | @granted attempt user r hr hscreens _ =>
      have hadmitted : g.admitted (.answer attempt (some user)) = [(user, r)] := by
        rw [admitted, hr]
        rfl
      rw [hadmitted]
      refine ⟨app_step (h.app.mono ?_) (fun v hv => ?_) hscreens, fun hnil => by simp at hnil⟩
      · rw [List.map_append]
        exact List.subset_append_left _ _
      · cases hv
        simp

end Kept

/-- What those who have been admitted, each on a request, can be sure of. -/
structure Guarded (c : Transactions) (users : List (String × AuthRequest)) (g : Gate) : Prop where
  signedIn : ∀ u, g.screens.app.currentUser = some u → ∃ r, (u, r) ∈ users
  /-- A fetch brings documents of somebody who has been admitted into the store. -/
  loads : ∀ e v documents, g.screens.app.fetched e = some (v, documents) →
    (∃ r, (v, r) ∈ users) ∧ ∀ d ∈ documents, docOwner d = some (.string v)
  /-- A document is one of those from the start, or it belongs to one who has been admitted. -/
  documents : ∀ d ∈ g.screens.app.collection.documents,
    (∃ d₀ ∈ c.documents, SameDocument d₀ d) ∨
      ∃ u r, (u, r) ∈ users ∧ docOwner d = some (.string u)
  closed : users = [] → g.screens.Closed c

lemma Kept.guarded {users : List (String × AuthRequest)} (h : g.Kept c users) :
    Guarded c users g where
  signedIn u hu := by simpa using h.app.signedIn u hu
  loads e v documents hf := by simpa using h.app.fetched hf
  documents d hd := by simpa using h.app.documents d hd
  closed := h.closed

variable (eq) in
/-- **Nobody gets past the gate.**  Launch the app over any collection while nobody is signed in,
and let clicks, edits of the forms, answers of Firebase, calls of listeners, fetches and everything
else happen in any order.  Every request to Firebase has been made by a click on texts with an
acceptable address and a password of at least six characters, and it is outstanding or has been
answered once.  Whoever is signed in, whose documents are loaded and who has got new documents has
been admitted on such a request; and until somebody has been admitted, the login screen is all
there is, and neither the store nor the collection has been touched. -/
theorem nobody_past_gate (run : Run (step eq showDate) (launch c) es g) :
    Guarded c (observed (step eq showDate) admitted (launch c) es) g ∧
    (∀ p ∈ observed (step eq showDate) admitted (launch c) es,
      p.2 ∈ observed (step eq showDate) (asked eq) (launch c) es) ∧
    (g.attempts ++ observed (step eq showDate) answered (launch c) es).Perm
      (observed (step eq showDate) (asked eq) (launch c) es) ∧
    ∀ r ∈ observed (step eq showDate) (asked eq) (launch c) es,
      isValidEmail r.email = true ∧ 6 ≤ ch.count r.password.toList := by
  have hperm := run.conserved (L := attempts) fun _ _ _ => attempts_step
  have hkept : g.Kept c ([] ++ observed (step eq showDate) admitted (launch c) es) :=
    run.history (fun _ _ _ _ h hs => h.step hs) .launch
  refine ⟨hkept.guarded, fun p hp => ?_, hperm, forall_mem_observed fun _ _ => valid_of_asked eq⟩
  have hanswered := mem_observed (fun _ _ => mem_answered_of_admitted) hp
  exact hperm.subset (List.mem_append_right _ hanswered)

/-- After an address that is not accepted the user clicks twice; Firebase rejects the first
request and grants the second one, and the tabs are presented. -/
def clickedTwice : List GateEvent :=
  [.screens (.background .viewDidAppear), .editLogin 0 "a@b" "secret", .loginButtonClicked 0,
    .editLogin 0 "a@b.cz" "secret", .loginButtonClicked 0, .loginButtonClicked 0, .answer 0 none,
    .answer 0 (some "u"), .screens (.background (.callListener 0)),
    .screens (.background (.answer 0 [])), .screens (.background (.deliver 0 (.succeeded [])))]

theorem clickedTwice_guarded : ∃ g, Run (step .scalars min) (launch .empty) clickedTwice g ∧
    Guarded .empty [("u", ⟨.login 0, "a@b.cz", "secret"⟩)] g ∧ g.screens.top = .tabs := by
  obtain ⟨g, hg, htop⟩ : ∃ g, exec (step .scalars min) (launch .empty) clickedTwice = some g ∧
      g.screens.top = .tabs := by
    decide +kernel
  have hadmitted : observed (step .scalars min) admitted (launch .empty) clickedTwice =
      [("u", ⟨.login 0, "a@b.cz", "secret"⟩)] := by
    decide +kernel
  have run := exec_eq_some_iff.mp hg
  exact ⟨g, run, hadmitted ▸ (nobody_past_gate .scalars run).1, htop⟩

end Gate

end SpendingTracker
