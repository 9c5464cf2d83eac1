import Mathlib.Data.Fintype.Basic
import SpendingTracker.Lib.Clients
import SpendingTracker.Screens.Lifetime

/-!
# Many installations

Any number of devices run the whole app, with all of its screens, and share one collection.
Each of them checks only the input of its own user, and reads what the others have stored
without checking it.  From an empty collection this is enough: the well-formedness of
`Screens/Lifetime.lean` holds on all devices at once, in every interleaving of their events.
-/

namespace SpendingTracker

open Lib

/-- The collection, as the component that the installations share. -/
def sharedByScreens : Component Screens Transactions where
  get s := s.app.collection
  put c s := { s with app := { s.app with collection := c } }
  get_put _ _ := rfl

/-- What a collection must be like for the devices to read it. -/
structure Readable (c : Transactions) : Prop where
  documents : ∀ d ∈ c.documents, StoresWellFormed d
  present : ∀ d ∈ c.documents, ∃ x, docId d = some (.string x)
  distinct : ∀ d ∈ c.documents, ∀ d' ∈ c.documents, docId d = docId d' → d = d'

lemma App.WellKept.readable {s : App} (h : s.WellKept) : Readable s.collection where
  documents := h.documents
  present d hd := h.ids.present d hd trivial
  distinct d hd d' hd' := h.ids.distinct d hd d' hd' trivial trivial

/-- Everything stays well-formed when the others leave a readable collection. -/
lemma Screens.WellKept.of_readable {s : Screens} (h : s.WellKept) {c : Transactions}
    (hc : Readable c) : (sharedByScreens.put c s).WellKept where
  app :=
    { objects := h.app.objects
      documents := hc.documents
      answers := h.app.answers
      updates := h.app.updates
      shared := h.app.shared
      ids :=
        { present := fun d hd _ => hc.present d hd
          distinct := fun d hd d' hd' _ _ => hc.distinct d hd d' hd'
          answers := h.app.ids.answers
          store := ⟨h.app.ids.store.present, h.app.ids.store.nodup⟩ } }
  list := h.list
  add := h.add
  detail := h.detail

/-- The states of the installations. -/
abbrev Installations (ι : Type*) := ι → Screens

namespace Installations

variable {ι : Type*} [DecidableEq ι] {showDate : Date → Date → Date} {S T : Installations ι}
  {es : List (ι × ScreenEvent)}

/-- One event on one device. -/
def step (showDate : Date → Date → Date) (S : Installations ι) (e : ι × ScreenEvent) :
    Option (Installations ι) :=
  sharedByScreens.joint (Screens.step showDate) S e

/-- All devices have been launched over the empty collection. -/
def launch : Installations ι := fun _ => .launch (.launch .empty)

/-- A step of one device changes the id and the owner of no document, as any device sees it. -/
lemma keepsIdentity_step (hcoh : sharedByScreens.Coherent S) {e : ι × ScreenEvent}
    (hs : S.step showDate e = some T) (k : ι) :
    KeepsIdentity (S k).app.collection (T k).app.collection := by
  obtain ⟨i, e⟩ := e
  obtain ⟨s, hstep, rfl⟩ := Component.joint_eq_some_iff.mp hs
  have hafter : (sharedByScreens.spread S i s k).app.collection = s.app.collection :=
    Component.get_spread (L := sharedByScreens)
  have hbefore : (S k).app.collection = (S i).app.collection := hcoh k i
  rw [hafter, hbefore]
  exact Screens.keepsIdentity_step hstep

lemma wellKept_of_run (run : Run (step showDate) S es T) (coherent : sharedByScreens.Coherent S)
    (kept : ∀ k, (S k).WellKept) : sharedByScreens.Coherent T ∧ ∀ k, (T k).WellKept :=
  Component.rely_guarantee (P := fun _ => Screens.WellKept) (R := fun _ _ => Readable)
    (C := fun _ _ => True) (fun _ _ _ h hc => h.of_readable hc)
    (fun _ _ _ _ _ hS _ hs => (hS _).step hs)
    (fun _ _ _ _ _ hS _ hs _ _ => ((hS _).step hs).app.readable) run
    (.of_forall (fun _ _ => trivial) _ _) coherent kept

/-- **Well-formedness on all devices.**  In every state that any number of devices can reach
together from their launch over an empty collection, everything is well-formed on each of them:
the documents, the store, and, as long as the amounts cannot add up to more than an integer
holds, the totals of the dashboard.  No step on the way has changed the id
or the owner of a document. -/
theorem allWellFormed_everywhere (run : Run (step showDate) launch es T) :
    (∀ k, (T k).app.AllWellFormed) ∧
      EachStep (step showDate) (fun S e => ∀ S', S.step showDate e = some S' →
        ∀ k, KeepsIdentity (S k).app.collection (S' k).app.collection) launch es := by
  have hcoh : sharedByScreens.Coherent (launch (ι := ι)) := fun _ _ => rfl
  have hkept : ∀ k : ι, (launch k).WellKept := fun _ => .launch
  refine ⟨fun k => ((wellKept_of_run run hcoh hkept).2 k).app.allWellFormed, ?_⟩
  refine run.eachStep (I := sharedByScreens.Coherent) (C := fun _ _ => True)
    (fun S e h _ S' hs k => keepsIdentity_step h hs k) ?_ (.of_forall (fun _ _ => trivial) _ _) hcoh
  rintro S ⟨i, e⟩ S' - - hs
  obtain ⟨s, -, rfl⟩ := Component.joint_eq_some_iff.mp hs
  exact Component.coherent_spread

/-- The user `u` signs in on both devices at the same time, adds a transaction on one of them
and edits it on the other one. -/
def signedInTwice : List (Fin 2 × ScreenEvent) :=
  let signIn : List ScreenEvent := [.background .viewDidAppear, .background (.signIn "u"),
    .background (.callListener 0), .background (.answer 0 []),
    .background (.deliver 0 (.succeeded []))]
  let stored : Doc := ⟨"d", (Transaction.make "a" .expense .fuel 42 0).addDocumentData "u"⟩
  signIn.map (Prod.mk 0) ++ [(1, .background .viewDidAppear), (1, .background (.signIn "u")),
    (1, .background (.callListener 0)), (0, .viewDidLoad), (0, .viewWillAppear), (0, .openAdd 9),
    (0, .input (.selectType 1)), (0, .input (.selectCategory 0 3)),
    (0, .input (.editAmount 0 0 ['4', '2'])), (0, .input (.pickDate 0)),
    (0, .addButton "a" (some "d")), (1, .background (.answer 0 [stored])),
    (1, .background (.deliver 0 (.succeeded []))), (1, .viewDidLoad), (1, .viewWillAppear),
    (1, .openDetail 0 9), (1, .input (.editAmount 0 1 [])), (1, .saveButton),
    (1, .background (.answer 0 [stored])), (1, .background (.deliver 0 (.succeeded [])))]

theorem signedInTwice_allWellFormed : ∃ T : Installations (Fin 2),
    Run (step min) launch signedInTwice T ∧ ∀ k, (T k).app.AllWellFormed :=
  have run : Run (step min) (launch (ι := Fin 2)) signedInTwice _ := exec_eq_some_iff.mp rfl
  ⟨_, run, (allWellFormed_everywhere run).1⟩

end Installations

end SpendingTracker
