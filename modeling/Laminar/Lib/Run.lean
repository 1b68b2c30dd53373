/-!
# Guarded runs of a partial step function

A system is a state type, a type of calls and a partial function that performs
one call.  `Run step guard s₀ h s` says that performing the calls of `h`,
oldest first, leads from `s₀` to `s`, and that every call met `guard` in the
state it was performed in.  The unguarded runs are the ones whose guard is
`fun _ _ => True`.

Histories grow at the end, so that "an earlier call" is a prefix of the history
and an induction over a run is an induction over its last step.
-/

namespace Laminar.Lib

variable {σ κ : Type}

/-- `h`, performed from `s₀`, ends in `s`; every step satisfied `guard`. -/
inductive Run (step : σ → κ → Option σ) (guard : σ → κ → Prop) (s₀ : σ) :
    List κ → σ → Prop
  | nil : Run step guard s₀ [] s₀
  | snoc {h : List κ} {s s' : σ} {a : κ} :
      Run step guard s₀ h s → guard s a → step s a = some s' →
        Run step guard s₀ (h ++ [a]) s'

variable {step : σ → κ → Option σ} {guard : σ → κ → Prop} {s₀ : σ}

/-- A property of the start state that every guarded step preserves holds at
the end of every guarded run. -/
theorem Run.invariant {P : σ → Prop} (hinit : P s₀)
    (hstep : ∀ s a s', P s → guard s a → step s a = some s' → P s')
    {h : List κ} {s : σ} (hrun : Run step guard s₀ h s) : P s := by
  induction hrun with
  | nil => exact hinit
  | snoc _ hguard hs ih => exact hstep _ _ _ ih hguard hs

/-- Two step functions that agree on the states a guarded run can reach have the
same guarded runs. -/
theorem Run.congr {step' : σ → κ → Option σ} {P : σ → Prop} (hinit : P s₀)
    (hstep : ∀ s a s', P s → guard s a → step s a = some s' → P s')
    (heq : ∀ s a, P s → guard s a → step' s a = step s a) {h : List κ} {s : σ} :
    Run step' guard s₀ h s ↔ Run step guard s₀ h s := by
  constructor
  · intro hrun
    induction hrun with
    | nil => exact .nil
    | snoc _ hguard hs ih =>
        exact .snoc ih hguard (heq _ _ (ih.invariant hinit hstep) hguard ▸ hs)
  · intro hrun
    induction hrun with
    | nil => exact .nil
    | snoc hprev hguard hs ih =>
        exact .snoc ih hguard ((heq _ _ (hprev.invariant hinit hstep) hguard).trans hs)

/-- A property that holds at the start of a run and not at its end is lost in one of the
steps. -/
theorem Run.exists_breaking {P : σ → Prop} (hinit : P s₀) {h : List κ} {s : σ}
    (hrun : Run step guard s₀ h s) (hend : ¬ P s) :
    ∃ before a after s₁ s₂, h = before ++ a :: after ∧ Run step guard s₀ before s₁ ∧ P s₁ ∧
      guard s₁ a ∧ step s₁ a = some s₂ ∧ ¬ P s₂ := by
  induction hrun with
  | nil => exact absurd hinit hend
  | @snoc h s s' a hprev hguard hs ih =>
      by_cases hP : P s
      · exact ⟨h, a, [], s, s', rfl, hprev, hP, hguard, hs, hend⟩
      · obtain ⟨before, b, after, s₁, s₂, rfl, hrest⟩ := ih hP
        exact ⟨before, b, after ++ [a], s₁, s₂, by simp, hrest⟩

/-! ## Traces -/

section Traces

variable {σ' ρ ω : Type}

/-- What is seen of a machine that performs the calls: how each of them ends, and what
`view` shows of the state it leaves. -/
def trace (call : σ → κ → ρ × σ) (view : σ → ω) : List κ → σ → List (ρ × ω)
  | [], _ => []
  | c :: calls, s => ((call s c).1, view (call s c).2) :: trace call view calls (call s c).2

/-- Machines whose related states cannot be told apart by one call have the same traces. -/
theorem trace_eq {call : σ → κ → ρ × σ} {view : σ → ω} {call' : σ' → κ → ρ × σ'}
    {view' : σ' → ω} {R : σ → σ' → Prop}
    (hstep : ∀ s s' c, R s s' → (call s c).1 = (call' s' c).1 ∧
      view (call s c).2 = view' (call' s' c).2 ∧ R (call s c).2 (call' s' c).2)
    (calls : List κ) {s : σ} {s' : σ'} (h : R s s') :
    trace call view calls s = trace call' view' calls s' := by
  induction calls generalizing s s' with
  | nil => rfl
  | cons c calls ih =>
      obtain ⟨hout, hview, hnext⟩ := hstep s s' c h
      rw [trace, trace, hout, hview, ih hnext]

end Traces

end Laminar.Lib
