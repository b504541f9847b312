import Mathlib.Algebra.Order.Ring.Int

/-
  Runs of a machine that takes one labelled step at a time.

  A machine is a function from a state and an event to the
  next state, undefined where the event cannot happen. A run
  is a list of events that all happen, one after another.

  Main declarations:
    * `Transition.run`
    * `Transition.Along`, a condition on every step of a run
    * `Transition.Always`, a property of every state of a run
    * `Transition.invariant_of_run`
    * `Transition.rel_run`
-/

----------
-- Runs
----------

namespace Slfs

namespace Transition

variable {σ ε : Type} (step : σ → ε → Option σ)

/- Take the steps of a list of events in order. -/
def run : σ → List ε → Option σ
| s, [] => some s
| s, e :: es =>
    match step s e with
    | none => none
    | some s' => run s' es

/-
  Every step of a run meets a condition on the event and the
  state before it.
-/
def Along (C : σ → ε → Prop) : σ → List ε → Prop
| _, [] => True
| s, e :: es =>
    C s e ∧
      match step s e with
      | none => True
      | some s' => Along C s' es

instance decidableAlong
    (C : σ → ε → Prop)
    [∀ s e, Decidable (C s e)] :
    ∀ (s : σ) (es : List ε), Decidable (Along step C s es)
| _, [] => isTrue trivial
| s, e :: es =>
    match h : step s e with
    | none =>
        decidable_of_iff (C s e) (by simp [Along, h])
    | some s' =>
        have := decidableAlong C s' es
        decidable_of_iff (C s e ∧ Along step C s' es)
          (by simp [Along, h])

/- A property holds in every state of a run. -/
def Always (I : σ → Prop) : σ → List ε → Prop
| s, [] => I s
| s, e :: es =>
    I s ∧
      match step s e with
      | none => True
      | some s' => Always I s' es

variable {step} {s s' : σ} {e : ε} {es : List ε}
variable {C : σ → ε → Prop} {J I : σ → Prop}

/- The first step of a run, and the run that is left. -/
theorem run_cons :
    run step s (e :: es) = some s' ↔
      ∃ m, step s e = some m ∧ run step m es = some s' := by
  cases h : step s e with
  | none => simp [run, h]
  | some m => simp [run, h]

theorem run_append
    {fs : List ε} :
    run step s (es ++ fs) = some s' ↔
      ∃ m, run step s es = some m ∧
        run step m fs = some s' := by
  induction es generalizing s with
  | nil => simp [run]
  | cons e es ih =>
      rw [List.cons_append, run_cons]
      constructor
      · rintro ⟨m, hStep, hRest⟩
        rcases ih.mp hRest with ⟨n, hFirst, hSecond⟩
        exact ⟨n, run_cons.mpr ⟨m, hStep, hFirst⟩, hSecond⟩
      · rintro ⟨n, hFirst, hSecond⟩
        rcases run_cons.mp hFirst with ⟨m, hStep, hRest⟩
        exact ⟨m, hStep, ih.mpr ⟨n, hRest, hSecond⟩⟩

/- The same as an equation. -/
theorem run_append_eq
    (s : σ)
    (es fs : List ε) :
    run step s (es ++ fs) =
      (run step s es).bind (fun m => run step m fs) := by
  induction es generalizing s with
  | nil => rfl
  | cons e es ih =>
      simp only [List.cons_append, run]
      cases step s e with
      | none => rfl
      | some m => exact ih m

theorem run_singleton :
    run step s [e] = some s' ↔ step s e = some s' := by
  rw [run_cons]
  simp [run]

theorem along_cons
    (hStep : step s e = some s') :
    Along step C s (e :: es) ↔
      C s e ∧ Along step C s' es := by
  simp [Along, hStep]

/-
  Where the states that satisfy `J` have a next one exactly
  under a condition, a run does not stop exactly if its events
  all meet the condition.
-/
theorem isSome_run_iff_along
    (hKeep : ∀ s e s', J s → step s e = some s' → J s')
    (hExact : ∀ s e, J s → ((step s e).isSome ↔ C s e))
    (hInit : J s) :
    (run step s es).isSome ↔ Along step C s es := by
  induction es generalizing s with
  | nil => simp [run, Along]
  | cons e es ih =>
      have hCond := hExact s e hInit
      cases hStep : step s e with
      | none =>
          rw [hStep] at hCond
          simp only [run, Along, hStep]
          constructor
          · intro hSome
            cases hSome
          · rintro ⟨hC, _⟩
            exact absurd (hCond.mpr hC) (by simp)
      | some s' =>
          rw [hStep] at hCond
          have hC : C s e := hCond.mp rfl
          rw [along_cons hStep, ← ih (hKeep s e s' hInit hStep)]
          simp only [run, hStep, hC, true_and]

/- A condition that the events meet in every state. -/
theorem along_of_forall_mem
    (hCond : ∀ e ∈ es, ∀ s, C s e) :
    Along step C s es := by
  induction es generalizing s with
  | nil => trivial
  | cons e es ih =>
      refine ⟨hCond e List.mem_cons_self s, ?_⟩
      cases step s e with
      | none => trivial
      | some m =>
          exact ih (fun e he =>
            hCond e (List.mem_cons_of_mem _ he))

theorem along_of_forall
    (hCond : ∀ s e, C s e) :
    Along step C s es :=
  along_of_forall_mem (fun e _ s => hCond s e)

/- The condition holds of the first part and of the rest. -/
theorem along_append
    {m : σ}
    {fs : List ε}
    (hRun : run step s es = some m) :
    Along step C s (es ++ fs) ↔
      Along step C s es ∧ Along step C m fs := by
  induction es generalizing s with
  | nil =>
      have hSame : s = m := by simpa [run] using hRun
      subst hSame
      simp [Along]
  | cons e es ih =>
      rcases run_cons.mp hRun with ⟨n, hStep, hRest⟩
      rw [List.cons_append, along_cons hStep,
        along_cons hStep, ih hRest, and_assoc]

----------
-- Reasoning About Runs
----------

variable {step : σ → ε → Option σ}

/-
  What every step that meets the condition preserves holds
  at the end of every run that meets the condition.
-/
theorem invariant_of_run
    (hPreserve :
      ∀ s e s', I s → C s e → step s e = some s' → I s')
    {s s' : σ}
    {es : List ε}
    (hInit : I s)
    (hRun : run step s es = some s')
    (hAlong : Along step C s es) :
    I s' := by
  induction es generalizing s with
  | nil =>
      have hSame : s = s' := by simpa [run] using hRun
      exact hSame ▸ hInit
  | cons e es ih =>
      rcases run_cons.mp hRun with ⟨m, hStep, hRest⟩
      rcases (along_cons hStep).mp hAlong with ⟨hCond, hTail⟩
      exact ih (hPreserve s e m hInit hCond hStep) hRest hTail

/- The same rule for runs without a condition. -/
theorem invariant_of_any_run
    (hPreserve :
      ∀ s e s', I s → step s e = some s' → I s')
    {s s' : σ}
    {es : List ε}
    (hInit : I s)
    (hRun : run step s es = some s') :
    I s' := by
  apply invariant_of_run (C := fun _ _ => True)
  · intro s e s' hInv _ hStep
    exact hPreserve s e s' hInv hStep
  · exact hInit
  · exact hRun
  · exact along_of_forall (fun _ _ => trivial)

variable {D : σ → ε → Prop}

/- Two conditions hold along a run if each of them does. -/
theorem along_and
    {s : σ}
    {es : List ε} :
    Along step (fun s e => C s e ∧ D s e) s es ↔
      Along step C s es ∧ Along step D s es := by
  induction es generalizing s with
  | nil => exact ⟨fun _ => ⟨trivial, trivial⟩, fun _ => trivial⟩
  | cons e es ih =>
      simp only [Along]
      cases step s e with
      | none => simp
      | some m =>
          simp only [ih]
          exact and_and_and_comm

/-
  What an invariant and a condition together say about each
  step holds of every step of a run that meets the condition.
-/
theorem along_of_invariant
    (hPreserve :
      ∀ s e s', I s → C s e → step s e = some s' → I s')
    (hEach : ∀ s e, I s → C s e → D s e)
    {s : σ}
    {es : List ε}
    (hInit : I s)
    (hAlong : Along step C s es) :
    Along step D s es := by
  induction es generalizing s with
  | nil => trivial
  | cons e es ih =>
      refine ⟨hEach s e hInit hAlong.1, ?_⟩
      cases hStep : step s e with
      | none => trivial
      | some m =>
          rcases (along_cons hStep).mp hAlong with
            ⟨hCond, hTail⟩
          exact ih (hPreserve s e m hInit hCond hStep) hTail

/- The same for an invariant that every step keeps. -/
theorem along_of_any_invariant
    (hPreserve :
      ∀ {s s' : σ} {e : ε}, I s → step s e = some s' → I s')
    (hEach : ∀ {s : σ} {e : ε}, I s → C s e → D s e)
    {s : σ}
    {es : List ε}
    (hInit : I s)
    (hAlong : Along step C s es) :
    Along step D s es :=
  along_of_invariant
    (fun _ _ _ hInv _ hStep => hPreserve hInv hStep)
    (fun _ _ => hEach) hInit hAlong

/-
  Inside an invariant that the allowed steps keep, a step
  keeps a property exactly when it meets a condition. Then a
  run of allowed steps keeps the property in all its states
  exactly when all its steps meet the condition.
-/
theorem always_iff_along_within
    {W : σ → ε → Prop}
    (hKeep :
      ∀ s e s', J s → W s e → step s e = some s' → J s')
    (hExact :
      ∀ s e s', J s → I s → W s e → step s e = some s' →
        (I s' ↔ C s e))
    {s s' : σ}
    {es : List ε}
    (hInv : J s)
    (hInit : I s)
    (hRun : run step s es = some s')
    (hAllowed : Along step W s es) :
    Always step I s es ↔ Along step C s es := by
  induction es generalizing s with
  | nil => simp [Always, Along, hInit]
  | cons e es ih =>
      rcases run_cons.mp hRun with ⟨m, hStep, hRest⟩
      rcases (along_cons hStep).mp hAllowed with ⟨hW, hTail⟩
      have hNext := hKeep s e m hInv hW hStep
      have hKeeps := hExact s e m hInv hInit hW hStep
      simp only [Always, Along, hStep, hInit, true_and]
      constructor
      · intro hAlways
        have hFirst : I m := by
          cases es with
          | nil => exact hAlways
          | cons f es => exact hAlways.1
        exact ⟨hKeeps.mp hFirst,
          (ih hNext hFirst hRest hTail).mp hAlways⟩
      · rintro ⟨hCond, hAlong⟩
        exact (ih hNext (hKeeps.mpr hCond) hRest hTail).mpr
          hAlong

/- The same rule where every step is allowed. -/
theorem always_iff_along
    (hExact :
      ∀ s e s', I s → step s e = some s' → (I s' ↔ C s e))
    {s s' : σ}
    {es : List ε}
    (hInit : I s)
    (hRun : run step s es = some s') :
    Always step I s es ↔ Along step C s es := by
  apply always_iff_along_within
    (W := fun _ _ => True) (J := fun _ => True)
  · intro s e s' _ _ _
    trivial
  · intro s e s' _ hInv _ hStep
    exact hExact s e s' hInv hStep
  · trivial
  · exact hInit
  · exact hRun
  · exact along_of_forall (fun _ _ => trivial)

/- A quantity that no step lowers is not lowered by a run. -/
theorem mono_of_run
    {f : σ → Nat}
    (hPreserve :
      ∀ s e s', I s → step s e = some s' → I s')
    (hMono :
      ∀ s e s', I s → step s e = some s' → f s ≤ f s')
    {s s' : σ}
    {es : List ε}
    (hInit : I s)
    (hRun : run step s es = some s') :
    f s ≤ f s' := by
  have hBoth : I s' ∧ f s ≤ f s' := by
    refine invariant_of_any_run
      (I := fun t => I t ∧ f s ≤ f t) ?_
      ⟨hInit, Nat.le_refl _⟩ hRun
    intro t e t' hInv hStep
    exact ⟨hPreserve t e t' hInv.1 hStep,
      Nat.le_trans hInv.2 (hMono t e t' hInv.1 hStep)⟩
  exact hBoth.2

/-
  Every step may issue new numbers, and holds each number at
  most as often as before, new ones at most once. Then no
  number is held twice in a run.
-/
theorem le_one_of_run
    (issued : σ → Nat)
    (held : σ → Nat → Nat)
    (hIssued :
      ∀ s e s', step s e = some s' → issued s ≤ issued s')
    (hHeld :
      ∀ s e s', C s e → step s e = some s' →
        ∀ a, held s' a ≤ held s a +
          if issued s ≤ a ∧ a < issued s' then 1 else 0)
    {s s' : σ}
    {es : List ε}
    (hInit : ∀ a, held s a = 0)
    (hRun : run step s es = some s')
    (hAlong : Along step C s es)
    (a : Nat) :
    held s' a ≤ 1 := by
  -- numbers that have not been issued are not held at all
  have hBoth :
      held s' a ≤ 1 ∧ (issued s' ≤ a → held s' a = 0) := by
    refine invariant_of_run
      (I := fun t =>
        held t a ≤ 1 ∧ (issued t ≤ a → held t a = 0))
      ?_ ?_ hRun hAlong
    · intro t e t' hInv hCond hStep
      have hMore := hIssued t e t' hStep
      have hBound := hHeld t e t' hCond hStep a
      by_cases hNew : issued t ≤ a ∧ a < issued t'
      · rw [if_pos hNew] at hBound
        have hZero := hInv.2 hNew.1
        exact ⟨by omega, by omega⟩
      · rw [if_neg hNew] at hBound
        refine ⟨by omega, ?_⟩
        intro hLe
        have hZero := hInv.2 (by omega)
        omega
    · simp [hInit a]
  exact hBoth.1

/-
  Two machines that take the same events: what every event
  keeps between their states is kept by a run.
-/
theorem rel_run
    {τ : Type}
    {step' : τ → ε → Option τ}
    {R : σ → τ → Prop}
    {t : τ}
    (hStep :
      ∀ e ∈ es, ∀ s t, R s t →
        Option.Rel R (step s e) (step' t e))
    (hInit : R s t) :
    Option.Rel R (run step s es) (run step' t es) := by
  induction es generalizing s t with
  | nil => exact Option.Rel.some hInit
  | cons e es ih =>
      rw [List.forall_mem_cons] at hStep
      have hFirst := hStep.1 s t hInit
      simp only [run]
      cases hS : step s e with
      | none =>
          rw [hS] at hFirst
          cases hT : step' t e with
          | none => exact Option.Rel.none
          | some t₁ =>
              rw [hT] at hFirst
              cases hFirst
      | some s₁ =>
          rw [hS] at hFirst
          cases hT : step' t e with
          | none =>
              rw [hT] at hFirst
              cases hFirst
          | some t₁ =>
              rw [hT] at hFirst
              cases hFirst with
              | some h => exact ih hStep.2 h

/-
  A function that follows the events: what every step keeps
  between the state and the value is kept by a run.
-/
theorem rel_foldl
    {α : Type}
    {R : σ → α → Prop}
    {f : α → ε → α}
    (hKeep :
      ∀ s e s' a, R s a → C s e → step s e = some s' →
        R s' (f a e))
    {a : α}
    (hInit : R s a)
    (hRun : run step s es = some s')
    (hAlong : Along step C s es) :
    R s' (es.foldl f a) := by
  induction es generalizing s a with
  | nil =>
      have hSame : s = s' := by simpa [run] using hRun
      exact hSame ▸ hInit
  | cons e es ih =>
      rcases run_cons.mp hRun with ⟨m, hStep, hRest⟩
      rcases (along_cons hStep).mp hAlong with ⟨hCond, hTail⟩
      exact ih (hKeep s e m a hInit hCond hStep) hRest hTail

end Transition

end Slfs
