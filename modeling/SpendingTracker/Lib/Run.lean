import Mathlib.Data.List.Forall2

/-!
# Runs of a partial step function

An event-driven program is a step function `step : σ → ε → Option σ`: from a state and an
event it computes the next state, or nothing when the event cannot happen in that state or
crashes the program.  This file sets up the runs of such a function and the rules that the
proofs about whole runs use:

* `Run.invariant` carries an invariant along a run whose steps all meet a condition;
* `Run.always_iff_eachStep` characterises the runs in which a property holds in every state
  by a condition on the single steps;
* `Run.related` carries a relation between the states of two runs over related events;
* `Run.traced_back` says of what is there at the end of a run where it comes from;
* `Run.simulates` relates a run to what an abstract machine makes of the observations;
* `Run.history` relates the state to all that has been observed so far;
* `Run.conserved` says that what has come in is still there or has gone out;
* `Run.length_le` bounds the length of a run by a variant.
-/

namespace SpendingTracker.Lib

variable {σ ε : Type*} {step : σ → ε → Option σ}

/-- `Run step s es t`: from the state `s` the events `es` can happen one after the other, and
they lead to the state `t`. -/
inductive Run (step : σ → ε → Option σ) : σ → List ε → σ → Prop
  | nil (s : σ) : Run step s [] s
  | cons {s s' t : σ} {e : ε} {es : List ε} :
      step s e = some s' → Run step s' es t → Run step s (e :: es) t

/-- The property `P` holds in every state that the events lead through, the first and the
last one included. -/
def Always (step : σ → ε → Option σ) (P : σ → Prop) : σ → List ε → Prop
  | s, [] => P s
  | s, e :: es => P s ∧ ∀ s', step s e = some s' → Always step P s' es

/-- The property `P` holds in some state that the events lead through, the first and the last
one included. -/
def Sometime (step : σ → ε → Option σ) (P : σ → Prop) : σ → List ε → Prop
  | s, [] => P s
  | s, e :: es => P s ∨ ∃ s', step s e = some s' ∧ Sometime step P s' es

/-- Each event meets the condition `C` in the state in which it happens. -/
def EachStep (step : σ → ε → Option σ) (C : σ → ε → Prop) : σ → List ε → Prop
  | _, [] => True
  | s, e :: es => C s e ∧ ∀ s', step s e = some s' → EachStep step C s' es

/-- What is observed of the events, one after the other. -/
def observed {α : Type*} (step : σ → ε → Option σ) (observe : σ → ε → List α) :
    σ → List ε → List α
  | _, [] => []
  | s, e :: es => observe s e ++ (step s e).elim [] fun s' => observed step observe s' es

/-- Each of the operations meets the condition `P` in the state of the machine in which it is
applied. -/
def EachApplied {ν α : Type*} (apply : ν → α → ν) (P : ν → α → Prop) : ν → List α → Prop
  | _, [] => True
  | v, a :: as => P v a ∧ EachApplied apply P (apply v a) as

instance decidableEachStep {C : σ → ε → Prop} [∀ s e, Decidable (C s e)] :
    (s : σ) → (es : List ε) → Decidable (EachStep step C s es)
  | _, [] => isTrue trivial
  | s, e :: es =>
      match h : step s e with
      | none => decidable_of_iff (C s e) (by simp [EachStep, h])
      | some s' =>
          have : Decidable (EachStep step C s' es) := decidableEachStep s' es
          decidable_of_iff (C s e ∧ EachStep step C s' es) (by simp [EachStep, h])

/-- A condition that holds in every state is met by each event. -/
lemma EachStep.of_forall {C : σ → ε → Prop} (h : ∀ s e, C s e) (s : σ) (es : List ε) :
    EachStep step C s es := by
  induction es generalizing s with
  | nil => trivial
  | cons e es ih => exact ⟨h s e, fun s' _ => ih s'⟩

/-- A condition on the events alone. -/
lemma EachStep.of_mem {C : ε → Prop} {s : σ} {es : List ε} (h : ∀ e ∈ es, C e) :
    EachStep step (fun _ e => C e) s es := by
  induction es generalizing s with
  | nil => trivial
  | cons e es ih =>
      obtain ⟨he, hes⟩ := List.forall_mem_cons.mp h
      exact ⟨he, fun _ _ => ih hes⟩

lemma eachApplied_append {ν α : Type*} {apply : ν → α → ν} {P : ν → α → Prop} {v : ν}
    {as as' : List α} : EachApplied apply P v (as ++ as') ↔
      EachApplied apply P v as ∧ EachApplied apply P (as.foldl apply v) as' := by
  induction as generalizing v with
  | nil => simp [EachApplied]
  | cons a as ih => simp only [List.cons_append, EachApplied, ih, List.foldl_cons, and_assoc]

/-- The state after a list of events, computed. -/
def exec (step : σ → ε → Option σ) : σ → List ε → Option σ
  | s, [] => some s
  | s, e :: es => (step s e).bind fun s' => exec step s' es

/-- The computed state is the state the run ends in. -/
theorem exec_eq_some_iff {s t : σ} {es : List ε} : exec step s es = some t ↔ Run step s es t := by
  induction es generalizing s with
  | nil =>
      simp only [exec, Option.some.injEq]
      constructor
      · rintro rfl
        exact .nil s
      · intro h
        cases h
        rfl
  | cons e es ih =>
      simp only [exec, Option.bind_eq_some_iff]
      constructor
      · rintro ⟨s', hs, ht⟩
        exact .cons hs (ih.mp ht)
      · intro h
        cases h with
        | cons hs hrest => exact ⟨_, hs, ih.mpr hrest⟩

/-- What is observed of each event in one way is observed in another way. -/
lemma mem_observed {α β : Type*} {observe : σ → ε → List α} {observe' : σ → ε → List β} {f : α → β}
    (h : ∀ s e, ∀ a ∈ observe s e, f a ∈ observe' s e) {s : σ} {es : List ε} {a : α}
    (ha : a ∈ observed step observe s es) : f a ∈ observed step observe' s es := by
  induction es generalizing s with
  | nil => cases ha
  | cons e es ih =>
      rw [observed, List.mem_append] at ha ⊢
      rcases ha with ha | ha
      · exact Or.inl (h s e a ha)
      · cases hs : step s e with
        | none => simp [hs] at ha
        | some s' =>
            rw [hs] at ha
            exact Or.inr (ih ha)

/-- What holds of all that is observed of each event. -/
lemma forall_mem_observed {α : Type*} {observe : σ → ε → List α} {P : α → Prop}
    (h : ∀ s e, ∀ a ∈ observe s e, P a) {s : σ} {es : List ε} :
    ∀ a ∈ observed step observe s es, P a := by
  induction es generalizing s with
  | nil => simp [observed]
  | cons e es ih =>
      intro a ha
      rw [observed, List.mem_append] at ha
      rcases ha with ha | ha
      · exact h s e a ha
      · cases hs : step s e with
        | none => simp [hs] at ha
        | some s' =>
            rw [hs] at ha
            exact ih a ha

namespace Run

/-- A run over two lists of events passes through a state in between. -/
theorem append_inv {s t : σ} {es es' : List ε} (h : Run step s (es ++ es') t) :
    ∃ u, Run step s es u ∧ Run step u es' t := by
  induction es generalizing s with
  | nil => exact ⟨s, .nil s, h⟩
  | cons e es ih =>
      cases h with
      | cons hs hrest =>
          obtain ⟨u, hu, hrest'⟩ := ih hrest
          exact ⟨u, .cons hs hu, hrest'⟩

/-- **The invariant rule.**  An invariant that a step preserves whenever it meets the
condition `C` holds at the end of every run whose steps all meet `C`. -/
theorem invariant {I : σ → Prop} {C : σ → ε → Prop}
    (hstep : ∀ s e s', I s → C s e → step s e = some s' → I s')
    {s t : σ} {es : List ε} (h : Run step s es t) (hC : EachStep step C s es) (hI : I s) :
    I t := by
  induction h with
  | nil => exact hI
  | cons hs _ ih => exact ih (hC.2 _ hs) (hstep _ _ _ hI hC.1 hs)

/-- The invariant rule for a property of every state of the run. -/
theorem always {I P : σ → Prop} {C : σ → ε → Prop} (hP : ∀ s, I s → P s)
    (hstep : ∀ s e s', I s → C s e → step s e = some s' → I s')
    {s t : σ} {es : List ε} (h : Run step s es t) (hC : EachStep step C s es) (hI : I s) :
    Always step P s es := by
  induction h with
  | nil => exact hP _ hI
  | @cons s s' t e es hs _ ih =>
      refine ⟨hP _ hI, fun u hu => ?_⟩
      obtain rfl : s' = u := Option.some.inj (hs.symm.trans hu)
      exact ih (hC.2 _ hs) (hstep _ _ _ hI hC.1 hs)

/-- Under an invariant, a condition on the steps that implies another one. -/
theorem eachStep {I : σ → Prop} {C D : σ → ε → Prop} (hD : ∀ s e, I s → C s e → D s e)
    (hstep : ∀ s e s', I s → C s e → step s e = some s' → I s')
    {s t : σ} {es : List ε} (h : Run step s es t) (hC : EachStep step C s es) (hI : I s) :
    EachStep step D s es := by
  induction h with
  | nil => trivial
  | @cons s s' t e es hs _ ih =>
      refine ⟨hD _ _ hI hC.1, fun u hu => ?_⟩
      obtain rfl : s' = u := Option.some.inj (hs.symm.trans hu)
      exact ih (hC.2 _ hs) (hstep _ _ _ hI hC.1 hs)

/-- **The exact-condition rule.**  Let the steps that meet `C` keep an invariant which implies
`P`, and let every other step from a state of the invariant break `P` at once.  Then `P` holds
throughout a run exactly when each of its steps meets `C`.  The side condition `A` restricts
the events that are considered at all. -/
theorem always_iff_eachStep {I P : σ → Prop} {A C : σ → ε → Prop} (hP : ∀ s, I s → P s)
    (good : ∀ s e s', I s → A s e → C s e → step s e = some s' → I s')
    (bad : ∀ s e s', I s → A s e → ¬ C s e → step s e = some s' → ¬ P s')
    {s t : σ} {es : List ε} (h : Run step s es t) (hA : EachStep step A s es) (hI : I s) :
    Always step P s es ↔ EachStep step C s es := by
  induction h with
  | nil => exact iff_of_true (hP _ hI) trivial
  | @cons s s' t e es hs _ ih =>
      have next : ∀ u, step s e = some u → s' = u := fun u hu =>
        Option.some.inj (hs.symm.trans hu)
      -- as long as the steps meet `C`, the invariant goes on; the first one that does not decides
      by_cases hC : C s e
      · have ih' := ih (hA.2 _ hs) (good _ _ _ hI hA.1 hC hs)
        constructor
        · rintro ⟨-, hrest⟩
          refine ⟨hC, fun u hu => ?_⟩
          obtain rfl := next u hu
          exact ih'.mp (hrest _ hs)
        · rintro ⟨-, hrest⟩
          refine ⟨hP _ hI, fun u hu => ?_⟩
          obtain rfl := next u hu
          exact ih'.mpr (hrest _ hs)
      · refine iff_of_false ?_ fun hc => hC hc.1
        rintro ⟨-, hrest⟩
        exact bad _ _ _ hI hA.1 hC hs (always_head (hrest _ hs))
where
  /-- `Always` covers the first state. -/
  always_head {P : σ → Prop} {s : σ} {es : List ε} (h : Always step P s es) : P s := by
    cases es with
    | nil => exact h
    | cons e es => exact h.1

/-- **The simulation rule.**  Let `R` relate the states to those of an abstract machine.  If each
step does what the machine does for the observations of the step, which meet the condition `P`,
then a run does what the machine does for the observations of the run, which meet it as well. -/
theorem simulates {ν α : Type*} {R : σ → ν → Prop} {C : σ → ε → Prop} {observe : σ → ε → List α}
    {apply : ν → α → ν} {P : ν → α → Prop}
    (hstep : ∀ s e s' v, R s v → C s e → step s e = some s' →
      EachApplied apply P v (observe s e) ∧ R s' ((observe s e).foldl apply v))
    {s t : σ} {es : List ε} (h : Run step s es t) (hC : EachStep step C s es) {v : ν}
    (hR : R s v) : EachApplied apply P v (observed step observe s es) ∧
      R t ((observed step observe s es).foldl apply v) := by
  induction h generalizing v with
  | nil => exact ⟨trivial, hR⟩
  | cons hs _ ih =>
      obtain ⟨hP, hR'⟩ := hstep _ _ _ _ hR hC.1 hs
      obtain ⟨hrest, ht⟩ := ih (hC.2 _ hs) hR'
      rw [observed, hs, Option.elim_some, eachApplied_append, List.foldl_append]
      exact ⟨⟨hP, hrest⟩, ht⟩

/-- **The history rule.**  If a relation between the states and what has been observed so far is
kept by each step, it holds between the last state and all that has been observed. -/
theorem history {α : Type*} {R : σ → List α → Prop} {observe : σ → ε → List α}
    (hstep : ∀ s e s' past, R s past → step s e = some s' → R s' (past ++ observe s e))
    {s t : σ} {es : List ε} (h : Run step s es t) {past : List α} (hR : R s past) :
    R t (past ++ observed step observe s es) := by
  induction h generalizing past with
  | nil => simpa [observed] using hR
  | cons hs _ ih =>
      rw [observed, hs, Option.elim_some, ← List.append_assoc]
      exact ih (hstep _ _ _ _ hR hs)

/-- **The conservation rule.**  If in each step a list gains what comes in and loses what goes out,
the same holds of a run. -/
theorem conserved {α : Type*} {L : σ → List α} {incoming outgoing : σ → ε → List α}
    (hstep : ∀ s e s', step s e = some s' → (L s' ++ outgoing s e).Perm (L s ++ incoming s e))
    {s t : σ} {es : List ε} (h : Run step s es t) :
    (L t ++ observed step outgoing s es).Perm (L s ++ observed step incoming s es) := by
  classical
  induction h with
  | nil s => exact .refl _
  | @cons s s' t e es hs _ ih =>
      have hfirst := hstep s e s' hs
      rw [List.perm_iff_count] at ih hfirst ⊢
      intro a
      have hrest := ih a
      have hone := hfirst a
      simp only [observed, hs, Option.elim_some, List.count_append] at hrest hone ⊢
      omega

/-- **The variant rule.**  If each step makes a measure smaller, the measure bounds the length of
the run. -/
theorem length_le {μ : σ → ℕ} {C : σ → ε → Prop}
    (hstep : ∀ s e s', C s e → step s e = some s' → μ s' < μ s)
    {s t : σ} {es : List ε} (h : Run step s es t) (hC : EachStep step C s es) :
    es.length + μ t ≤ μ s := by
  induction h with
  | nil => simp
  | cons hs _ ih =>
      have hrest := ih (hC.2 _ hs)
      have hlt := hstep _ _ _ hC.1 hs
      rw [List.length_cons]
      omega

/-- **The two-run rule.**  A relation between two states that related events preserve holds
between the last states of two runs over related events. -/
theorem related {R : σ → σ → Prop} {E : ε → ε → Prop}
    (hstep : ∀ s₁ s₂ e₁ e₂ t₁ t₂, R s₁ s₂ → E e₁ e₂ → step s₁ e₁ = some t₁ →
      step s₂ e₂ = some t₂ → R t₁ t₂)
    {s₁ s₂ t₁ t₂ : σ} {es₁ es₂ : List ε} (h₁ : Run step s₁ es₁ t₁) (h₂ : Run step s₂ es₂ t₂)
    (hE : List.Forall₂ E es₁ es₂) (hR : R s₁ s₂) : R t₁ t₂ := by
  induction hE generalizing s₁ s₂ with
  | nil =>
      cases h₁
      cases h₂
      exact hR
  | cons he _ ih =>
      cases h₁ with
      | cons hs₁ hrest₁ =>
          cases h₂ with
          | cons hs₂ hrest₂ =>
              exact ih hrest₁ hrest₂ (hstep _ _ _ _ _ _ hR he hs₁ hs₂)

/-- **The tracing rule.**  If each step keeps what there is or brings it in by way of `B`, then
what there is at the end was there at the start, or was brought in at some state of the run. -/
theorem traced_back {I Q B : σ → Prop} {C : σ → ε → Prop}
    (hstep : ∀ s e s', I s → C s e → step s e = some s' → I s')
    (source : ∀ s e s', I s → C s e → step s e = some s' → Q s' → Q s ∨ B s')
    {s t : σ} {es : List ε} (h : Run step s es t) (hC : EachStep step C s es) (hI : I s)
    (ht : Q t) : Q s ∨ Sometime step B s es := by
  induction h with
  | nil => exact Or.inl ht
  | cons hs hrest ih =>
      rcases ih (hC.2 _ hs) (hstep _ _ _ hI hC.1 hs) ht with hQ | hB
      · rcases source _ _ _ hI hC.1 hs hQ with hQ | hB
        · exact Or.inl hQ
        · exact Or.inr (Or.inr ⟨_, hs, here hrest hB⟩)
      · exact Or.inr (Or.inr ⟨_, hs, hB⟩)
where
  /-- `Sometime` covers the first state. -/
  here {P : σ → Prop} {s t : σ} {es : List ε} (_ : Run step s es t) (hP : P s) :
      Sometime step P s es := by
    cases es with
    | nil => exact hP
    | cons e es => exact Or.inl hP

end Run

end SpendingTracker.Lib
