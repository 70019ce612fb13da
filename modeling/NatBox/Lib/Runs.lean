import Mathlib.Data.List.Basic

/-
Finite runs of a step function that returns a result, moves to a new state, or
faults.

`exec` is the executable form: it feeds a list of events and collects the
results.  `Run` is the relational form, with the trace growing at its end, and is
the one invariants about a history are proved over.  `Run.exec_eq` and
`run_of_exec` are the two directions in which they agree.

`allStates_iff_allSteps` is the rule for a property that holds of a run as long
as no step of it takes a bad branch: with an invariant that good steps keep and
that a bad step visibly breaks, every state of a run is good exactly when every
step of it is.
-/

namespace Runs

variable {σ ε ω φ : Type}

/-- Feed the events one after another and collect the results.  The first fault
ends the run. -/
def exec (step : σ → ε → Except φ (ω × σ)) : σ → List ε → Except φ (List ω × σ)
  | s, [] => .ok ([], s)
  | s, e :: es =>
    match step s e with
    | .error f => .error f
    | .ok (o, s') =>
      match exec step s' es with
      | .error f => .error f
      | .ok (os, t) => .ok (o :: os, t)

/-- The events of `tr`, each paired with its result, lead from `s₀` to the last
argument. -/
inductive Run (step : σ → ε → Except φ (ω × σ)) (s₀ : σ) : List (ε × ω) → σ → Prop
  | start : Run step s₀ [] s₀
  | next {tr : List (ε × ω)} {s : σ} {e : ε} {o : ω} {s' : σ} :
      Run step s₀ tr s → step s e = .ok (o, s') → Run step s₀ (tr ++ [(e, o)]) s'

variable {step : σ → ε → Except φ (ω × σ)}

theorem exec_cons_ok {s s' : σ} {e : ε} {o : ω} (h : step s e = .ok (o, s')) (es : List ε) :
    exec step s (e :: es) =
      match exec step s' es with
      | .error f => .error f
      | .ok (os, t) => .ok (o :: os, t) := by
  rw [exec, h]

theorem exec_append {s s' : σ} {es : List ε} {os : List ω}
    (h : exec step s es = .ok (os, s')) (es' : List ε) :
    exec step s (es ++ es') =
      match exec step s' es' with
      | .error f => .error f
      | .ok (os', t) => .ok (os ++ os', t) := by
  induction es generalizing s os with
  | nil =>
    simp only [exec, Except.ok.injEq, Prod.mk.injEq] at h
    obtain ⟨rfl, rfl⟩ := h
    rw [List.nil_append]
    rcases exec step s es' with f | ⟨os', t⟩ <;> rfl
  | cons e es ih =>
    rw [exec] at h
    rcases hs : step s e with f | ⟨o, u⟩
    · simp [hs] at h
    · rcases hu : exec step u es with f | ⟨os₁, v⟩
      · simp [hs, hu] at h
      · simp only [hs, hu, Except.ok.injEq, Prod.mk.injEq] at h
        obtain ⟨rfl, rfl⟩ := h
        rw [List.cons_append, exec_cons_ok hs, ih hu]
        rcases exec step v es' with f | ⟨os', t⟩ <;> rfl

theorem exec_concat {s s' t : σ} {es : List ε} {os : List ω} {e : ε} {o : ω}
    (h : exec step s es = .ok (os, s')) (hs : step s' e = .ok (o, t)) :
    exec step s (es ++ [e]) = .ok (os ++ [o], t) := by
  rw [exec_append h, exec, hs]
  rfl

theorem Run.cons {s₀ s₁ s : σ} {e : ε} {o : ω} {tr : List (ε × ω)}
    (h : step s₀ e = .ok (o, s₁)) (hr : Run step s₁ tr s) :
    Run step s₀ ((e, o) :: tr) s := by
  induction hr with
  | start => exact Run.next .start h
  | next _ hs ih => exact Run.next ih hs

theorem Run.exec_eq {s₀ s : σ} {tr : List (ε × ω)} (h : Run step s₀ tr s) :
    exec step s₀ (tr.map Prod.fst) = .ok (tr.map Prod.snd, s) := by
  induction h with
  | start => rfl
  | next _ hs ih =>
    rw [List.map_append, exec_append ih]
    simp [exec, hs]

theorem run_of_exec {s₀ s : σ} {es : List ε} {os : List ω}
    (h : exec step s₀ es = .ok (os, s)) :
    es.length = os.length ∧ Run step s₀ (es.zip os) s := by
  induction es generalizing s₀ os with
  | nil =>
    simp only [exec, Except.ok.injEq, Prod.mk.injEq] at h
    obtain ⟨rfl, rfl⟩ := h
    exact ⟨rfl, .start⟩
  | cons e es ih =>
    rw [exec] at h
    rcases hs : step s₀ e with f | ⟨o, u⟩
    · simp [hs] at h
    · rcases hu : exec step u es with f | ⟨os₁, v⟩
      · simp [hs, hu] at h
      · simp only [hs, hu, Except.ok.injEq, Prod.mk.injEq] at h
        obtain ⟨rfl, rfl⟩ := h
        obtain ⟨hlen, hr⟩ := ih hu
        exact ⟨by simp [hlen], Run.cons hs hr⟩

/-- The events lead to results and a state that pass the check. -/
def endsIn (step : σ → ε → Except φ (ω × σ)) (s₀ : σ) (es : List ε)
    (check : List ω → σ → Bool) : Bool :=
  match exec step s₀ es with
  | .error _ => false
  | .ok (os, s) => check os s

/-- The run behind a check. -/
theorem run_of_endsIn {s₀ : σ} {es : List ε} {check : List ω → σ → Bool}
    (h : endsIn step s₀ es check = true) :
    ∃ os s, Run step s₀ (es.zip os) s ∧ (es.zip os).map Prod.fst = es ∧ check os s = true := by
  unfold endsIn at h
  rcases hx : exec step s₀ es with f | ⟨os, s⟩
  · rw [hx] at h
    cases h
  · rw [hx] at h
    obtain ⟨hlen, hrun⟩ := run_of_exec hx
    exact ⟨os, s, hrun, List.map_fst_zip (Nat.le_of_eq hlen), h⟩

/-- A trace determines the state it leads to. -/
theorem Run.det {s₀ s s' : σ} {tr : List (ε × ω)}
    (h : Run step s₀ tr s) (h' : Run step s₀ tr s') : s = s' := by
  have e := h.exec_eq.symm.trans h'.exec_eq
  simpa using e

/-! ## Invariants -/

/-- A property of the history and the state that holds at the start and is kept
by every step holds after every run. -/
theorem Run.invariant {s₀ : σ} {I : List (ε × ω) → σ → Prop} (h₀ : I [] s₀)
    (hstep : ∀ tr s e o s', I tr s → step s e = .ok (o, s') → I (tr ++ [(e, o)]) s')
    {tr : List (ε × ω)} {s : σ} (h : Run step s₀ tr s) : I tr s := by
  induction h with
  | start => exact h₀
  | next _ hs ih => exact hstep _ _ _ _ _ ih hs

/-- `P` holds of every history and state a run passes through. -/
def AllStates (step : σ → ε → Except φ (ω × σ)) (s₀ : σ)
    (P : List (ε × ω) → σ → Prop) (tr : List (ε × ω)) : Prop :=
  ∀ pre s, pre <+: tr → Run step s₀ pre s → P pre s

/-- `C` holds of every step of a run: its state before, its event and its state
after. -/
def AllSteps (step : σ → ε → Except φ (ω × σ)) (s₀ : σ)
    (C : σ → ε → σ → Prop) (tr : List (ε × ω)) : Prop :=
  ∀ pre s e o s', pre ++ [(e, o)] <+: tr → Run step s₀ pre s →
    step s e = .ok (o, s') → C s e s'

theorem allSteps_nil {s₀ : σ} {C : σ → ε → σ → Prop} : AllSteps step s₀ C [] := by
  intro pre s e o s' hp
  simp at hp

/-- One more step. -/
theorem AllSteps.next {s₀ s s' : σ} {C : σ → ε → σ → Prop} {tr : List (ε × ω)} {e : ε} {o : ω}
    (h : AllSteps step s₀ C tr) (hr : Run step s₀ tr s) (hs : step s e = .ok (o, s'))
    (hC : C s e s') : AllSteps step s₀ C (tr ++ [(e, o)]) := by
  intro pre u e' o' u' hp hu hs'
  cases List.prefix_concat_iff.mp hp with
  | inl heq =>
    obtain ⟨rfl, heq⟩ := List.append_inj' heq rfl
    obtain ⟨rfl, rfl⟩ : e' = e ∧ o' = o := by simpa using heq
    rw [hu.det hr] at hs' ⊢
    rw [hs, Except.ok.injEq, Prod.mk.injEq] at hs'
    rw [← hs'.2]
    exact hC
  | inr hp' => exact h pre u e' o' u' hp' hu hs'

/-- The steps of a run and one more. -/
theorem allSteps_concat_iff {s₀ s s' : σ} {C : σ → ε → σ → Prop} {tr : List (ε × ω)} {e : ε}
    {o : ω} (hr : Run step s₀ tr s) (hs : step s e = .ok (o, s')) :
    AllSteps step s₀ C (tr ++ [(e, o)]) ↔ AllSteps step s₀ C tr ∧ C s e s' :=
  ⟨fun h => ⟨fun pre u e' o' u' hp => h pre u e' o' u' (hp.trans (List.prefix_append _ _)),
    h tr s e o s' (List.prefix_refl _) hr hs⟩, fun h => h.1.next hr hs h.2⟩

/-- Conditions that agree on the steps of a run. -/
theorem allSteps_congr {s₀ : σ} {C D : σ → ε → σ → Prop} {tr : List (ε × ω)}
    (h : ∀ s e o s', step s e = .ok (o, s') → (C s e s' ↔ D s e s')) :
    AllSteps step s₀ C tr ↔ AllSteps step s₀ D tr :=
  ⟨fun hC pre s e o s' hp hr hs => (h s e o s' hs).mp (hC pre s e o s' hp hr hs),
    fun hD pre s e o s' hp hr hs => (h s e o s' hs).mpr (hD pre s e o s' hp hr hs)⟩

/-- A condition on the events alone. -/
theorem Run.allSteps_event_iff {s₀ s : σ} {C : ε → Prop} {tr : List (ε × ω)}
    (h : Run step s₀ tr s) :
    AllSteps step s₀ (fun _ e _ => C e) tr ↔ ∀ c ∈ tr, C c.1 := by
  induction h with
  | start => exact iff_of_true allSteps_nil fun _ hc => absurd hc List.not_mem_nil
  | @next tr s e o s' hr hs ih =>
    constructor
    · intro hall c hc
      rcases List.mem_append.mp hc with hc | hc
      · exact ih.mp (fun pre u e' o' u' hp => hall pre u e' o' u'
          (hp.trans (List.prefix_append _ _))) c hc
      · obtain rfl := List.mem_singleton.mp hc
        exact hall tr s e o s' (List.prefix_refl _) hr hs
    · intro hall
      exact (ih.mpr fun c hc => hall c (List.mem_append_left _ hc)).next hr hs
        (hall (e, o) (List.mem_append_right _ List.mem_cons_self))

/-- A check of every step on the way. -/
def stepsPass (step : σ → ε → Except φ (ω × σ)) (check : σ → ε → Bool) : σ → List ε → Bool
  | _, [] => true
  | s, e :: es =>
    check s e && match step s e with
      | .error _ => true
      | .ok (_, s') => stepsPass step check s' es

theorem stepsPass_of_exec {check : σ → ε → Bool} {s s' : σ} {es es' : List ε} {os : List ω}
    (h : stepsPass step check s (es ++ es') = true) (hx : exec step s es = .ok (os, s')) :
    stepsPass step check s' es' = true := by
  induction es generalizing s os with
  | nil =>
    obtain ⟨-, rfl⟩ := Prod.mk.inj (Except.ok.inj hx)
    exact h
  | cons e es ih =>
    have hand := (Bool.and_eq_true _ _).mp h
    rw [exec] at hx
    rcases hs : step s e with f | ⟨o, u⟩
    · rw [hs] at hx
      cases hx
    · rw [hs] at hx hand
      rcases hu : exec step u es with f | ⟨os₁, v⟩
      · simp [hu] at hx
      · simp only [hu, Except.ok.injEq, Prod.mk.injEq] at hx
        obtain ⟨-, rfl⟩ := hx
        exact ih hand.2 hu

/-- The steps of a run meet what a check of them all implies. -/
theorem allSteps_of_stepsPass {check : σ → ε → Bool} {C : σ → ε → Prop} {s₀ : σ}
    {tr : List (ε × ω)} (h : stepsPass step check s₀ (tr.map Prod.fst) = true)
    (hC : ∀ s e, check s e = true → C s e) : AllSteps step s₀ (fun s e _ => C s e) tr := by
  intro pre s e o s' hp hr _
  obtain ⟨suf, rfl⟩ := hp
  rw [List.append_assoc, List.map_append] at h
  exact hC s e ((Bool.and_eq_true _ _).mp (stepsPass_of_exec h hr.exec_eq)).1

section Exact

variable {s₀ : σ} {I P : List (ε × ω) → σ → Prop} {C : σ → ε → σ → Prop}

/-- Good steps keep an invariant along a run. -/
theorem Run.invariant_of_allSteps (h₀ : I [] s₀)
    (hgood : ∀ tr s e o s', I tr s → step s e = .ok (o, s') → C s e s' → I (tr ++ [(e, o)]) s')
    {tr : List (ε × ω)} {s : σ} (h : Run step s₀ tr s) (hC : AllSteps step s₀ C tr) : I tr s := by
  induction h with
  | start => exact h₀
  | @next tr s e o s' hr hs ih =>
    have hC' : AllSteps step s₀ C tr := fun pre u e' o' u' hp =>
      hC pre u e' o' u' (hp.trans (List.prefix_append _ _))
    exact hgood tr s e o s' (ih hC') hs (hC tr s e o s' (List.prefix_refl _) hr hs)

/-- Every state of a run whose steps are good is good, provided good steps keep an
invariant that makes a state good. -/
theorem allStates_of_allSteps (h₀ : I [] s₀)
    (hgood : ∀ tr s e o s', I tr s → step s e = .ok (o, s') → C s e s' → I (tr ++ [(e, o)]) s')
    (hP : ∀ tr s, I tr s → P tr s) {tr : List (ε × ω)} (hC : AllSteps step s₀ C tr) :
    AllStates step s₀ P tr := by
  intro pre u hp hu
  refine hP pre u (hu.invariant_of_allSteps h₀ hgood ?_)
  exact fun pre' v e o v' hp' => hC pre' v e o v' (hp'.trans hp)

/-- Every state of a run is good exactly when every step of it is, provided good
steps keep an invariant that makes a state good and a bad step out of that
invariant leads to a state that is not good. -/
theorem allStates_iff_allSteps (h₀ : I [] s₀)
    (hgood : ∀ tr s e o s', I tr s → step s e = .ok (o, s') → C s e s' → I (tr ++ [(e, o)]) s')
    (hP : ∀ tr s, I tr s → P tr s)
    (hbad : ∀ tr s e o s', I tr s → step s e = .ok (o, s') → ¬ C s e s' →
      ¬ P (tr ++ [(e, o)]) s')
    {tr : List (ε × ω)} {s : σ} (h : Run step s₀ tr s) :
    AllStates step s₀ P tr ↔ AllSteps step s₀ C tr := by
  constructor
  · intro hall
    induction h with
    | start =>
      intro pre u e o u' hp
      simp at hp
    | @next tr s e o s' hr hs ih =>
      have hsteps : AllSteps step s₀ C tr := ih fun pre u hp =>
        hall pre u (hp.trans (List.prefix_append _ _))
      intro pre u e' o' u' hp hu hs'
      rcases List.prefix_concat_iff.mp hp with heq | hp'
      · obtain ⟨rfl, heq⟩ := List.append_inj' heq rfl
        obtain ⟨rfl, rfl⟩ : e' = e ∧ o' = o := by simpa using heq
        by_contra hC
        exact hbad pre u e' o' u' (hu.invariant_of_allSteps h₀ hgood hsteps) hs' hC
          (hall _ _ (List.prefix_refl _) (Run.next hu hs'))
      · exact hsteps pre u e' o' u' hp' hu hs'
  · exact allStates_of_allSteps h₀ hgood hP

end Exact

end Runs
