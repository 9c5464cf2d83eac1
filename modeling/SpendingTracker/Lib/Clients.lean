import Mathlib.Logic.Function.Defs
import SpendingTracker.Lib.Run

/-!
# Clients that share a component

Several clients run the same program, each in a state of its own, and one component of these
states is common to all of them: when a client takes a step, the others find the component as
the step has left it.  The steps of the clients interleave in any order.

* `Component.run_view` and `Component.eachStep_view` say what a single client experiences: a run
  of its own program, in which the steps of the others are changes of the component from outside.
* `Component.rely_guarantee` proves an invariant of each client: its own steps keep it, and the
  changes that the others make to the component do not disturb it.
-/

namespace SpendingTracker.Lib

/-- A component of a state, which can be read and replaced. -/
structure Component (σ γ : Type*) where
  get : σ → γ
  put : γ → σ → σ
  get_put (c : γ) (s : σ) : get (put c s) = c

namespace Component

variable {ι σ γ ε : Type*} [DecidableEq ι] (L : Component σ γ) {step : σ → ε → Option σ}

/-- The states of the clients after the client `i` has gone to the state `s`. -/
def spread (S : ι → σ) (i : ι) (s : σ) : ι → σ := fun j =>
  if j = i then s else L.put (L.get s) (S j)

/-- One client takes a step of the program. -/
def joint (step : σ → ε → Option σ) (S : ι → σ) (e : ι × ε) : Option (ι → σ) :=
  (step (S e.1) e.2).map (L.spread S e.1)

/-- All clients find the same component. -/
def Coherent (S : ι → σ) : Prop := ∀ i j, L.get (S i) = L.get (S j)

variable {L} {S T : ι → σ} {i j : ι} {e : ε} {s : σ} {es : List (ι × ε)}

@[simp] lemma spread_self : L.spread S i s i = s := if_pos rfl

lemma spread_of_ne (h : j ≠ i) : L.spread S i s j = L.put (L.get s) (S j) := if_neg h

@[simp] lemma get_spread : L.get (L.spread S i s j) = L.get s := by
  by_cases h : j = i
  · rw [h, spread_self]
  · rw [spread_of_ne h, L.get_put]

lemma joint_eq_some_iff :
    L.joint step S (i, e) = some T ↔ ∃ s, step (S i) e = some s ∧ T = L.spread S i s := by
  simp only [joint, Option.map_eq_some_iff, eq_comm]

lemma coherent_spread : L.Coherent (L.spread S i s) := fun j k => by
  rw [get_spread, get_spread]

/-! ### What one client experiences -/

/-- The events that the client `i` experiences while the clients take the steps `es`: its own,
and for each step of another client a change of the component.  The event `ext c` stands for
the change to `c`. -/
def view (L : Component σ γ) (step : σ → ε → Option σ) (ext : γ → ε) (i : ι) :
    (ι → σ) → List (ι × ε) → List ε
  | _, [] => []
  | S, e :: es =>
      match step (S e.1) e.2 with
      | none => []
      | some s =>
          (if e.1 = i then e.2 else ext (L.get s)) :: view L step ext i (L.spread S e.1 s) es

/-- **The view of one client.**  In a run of all the clients, each of them runs its own program
and sees the steps of the others as changes of the component. -/
theorem run_view {ext : γ → ε} (hext : ∀ s c, step s (ext c) = some (L.put c s))
    (run : Run (L.joint step) S es T) (i : ι) :
    Run step (S i) (view L step ext i S es) (T i) := by
  induction run with
  | nil S => exact .nil _
  | @cons S S' T e es hs _ ih =>
      obtain ⟨j, e⟩ := e
      obtain ⟨s, hstep, rfl⟩ := joint_eq_some_iff.mp hs
      simp only [view, hstep]
      by_cases hj : j = i
      · subst hj
        rw [if_pos rfl]
        rw [spread_self] at ih
        exact .cons hstep ih
      · rw [if_neg hj]
        rw [spread_of_ne (Ne.symm hj)] at ih
        exact .cons (hext _ _) ih

/-- What the steps of all the clients meet tells what the events meet that one client
experiences. -/
theorem eachStep_view {ext : γ → ε} (hext : ∀ s c, step s (ext c) = some (L.put c s))
    {C : (ι → σ) → ι × ε → Prop} {D : σ → ε → Prop} {i : ι}
    (own : ∀ S e, C S (i, e) → D (S i) e)
    (others : ∀ S j e s, L.Coherent S → C S (j, e) → step (S j) e = some s → j ≠ i →
      D (S i) (ext (L.get s)))
    (run : Run (L.joint step) S es T) (hC : EachStep (L.joint step) C S es)
    (coherent : L.Coherent S) : EachStep step D (S i) (view L step ext i S es) := by
  induction run with
  | nil S => trivial
  | @cons S S' T e es hs _ ih =>
      obtain ⟨j, e⟩ := e
      obtain ⟨s, hstep, rfl⟩ := joint_eq_some_iff.mp hs
      have hrest := ih (hC.2 _ hs) coherent_spread
      simp only [view, hstep]
      by_cases hj : j = i
      · subst hj
        rw [spread_self] at hrest
        rw [if_pos rfl]
        refine ⟨own S e hC.1, fun s' hs' => ?_⟩
        obtain rfl : s = s' := Option.some.inj (hstep.symm.trans hs')
        exact hrest
      · rw [spread_of_ne (Ne.symm hj)] at hrest
        rw [if_neg hj]
        refine ⟨others S j e s coherent hC.1 hstep hj, fun s' hs' => ?_⟩
        obtain rfl : L.put (L.get s) (S i) = s' := Option.some.inj ((hext _ _).symm.trans hs')
        exact hrest

/-! ### Rely and guarantee -/

/-- **Rely and guarantee.**  Let `P i` be an invariant of the client `i` which tolerates the
changes `R i` of the component.  If each step of a client keeps its own invariant and makes a
change that the others tolerate, then all the invariants hold at the end of every run. -/
theorem rely_guarantee {P : ι → σ → Prop} {R : ι → σ → γ → Prop}
    {C : (ι → σ) → ι × ε → Prop}
    (stable : ∀ i s c, P i s → R i s c → P i (L.put c s))
    (own : ∀ S i e s, L.Coherent S → (∀ k, P k (S k)) → C S (i, e) →
      step (S i) e = some s → P i s)
    (guarantee : ∀ S i e s, L.Coherent S → (∀ k, P k (S k)) → C S (i, e) →
      step (S i) e = some s → ∀ j, j ≠ i → R j (S j) (L.get s))
    (run : Run (L.joint step) S es T) (hC : EachStep (L.joint step) C S es)
    (coherent : L.Coherent S) (hP : ∀ k, P k (S k)) : L.Coherent T ∧ ∀ k, P k (T k) := by
  refine run.invariant (I := fun S => L.Coherent S ∧ ∀ k, P k (S k)) ?_ hC ⟨coherent, hP⟩
  rintro S ⟨i, e⟩ S' ⟨hcoh, hS⟩ hc hs
  obtain ⟨s, hstep, rfl⟩ := joint_eq_some_iff.mp hs
  refine ⟨coherent_spread, fun k => ?_⟩
  by_cases hk : k = i
  · subst hk
    rw [spread_self]
    exact own S k e s hcoh hS hc hstep
  · rw [spread_of_ne hk]
    exact stable k _ _ (hS k) (guarantee S i e s hcoh hS hc hstep k hk)

end Component

end SpendingTracker.Lib
