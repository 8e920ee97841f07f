import Mathlib.Data.List.Basic

/-! # Runs and invariants

    A run is a finite sequence of steps; what holds at the start and survives
    every step holds at the end.  A guarded run is one whose steps all meet a
    condition on the state before the step and on the event. -/

namespace LibfsRun

variable {σ ε : Type} {step step' : σ → ε → σ → Prop} {s₀ s t : σ} {es ds : List ε}

/-- `Run step s₀ es s`: the events `es` lead from `s₀` to `s`. -/
inductive Run (step : σ → ε → σ → Prop) (s₀ : σ) : List ε → σ → Prop where
  | start : Run step s₀ [] s₀
  | next {es : List ε} {s s' : σ} {e : ε} :
      Run step s₀ es s → step s e s' → Run step s₀ (es ++ [e]) s'

/-- The steps whose event meets the guard in the state before them. -/
def guarded (guard : σ → ε → Prop) (step : σ → ε → σ → Prop) : σ → ε → σ → Prop :=
  fun s e s' => guard s e ∧ step s e s'

/-- A run without events stays where it is. -/
theorem Run.of_nil (hr : Run step s₀ es s) (hes : es = []) : s = s₀ := by
  cases hr with
  | start => rfl
  | next => cases (List.append_eq_nil_iff.mp hes).2

/-- The induction every invariant proof goes through. -/
theorem Run.invariant (inv : σ → Prop) (h0 : inv s₀)
    (hstep : ∀ s e s', inv s → step s e s' → inv s') (hr : Run step s₀ es s) : inv s := by
  induction hr with
  | start => exact h0
  | next _ hs ih => exact hstep _ _ _ ih hs

/-- A run has no more of the steps that lower a measure than what it starts
    from, if no step raises it. -/
theorem Run.bounded (inv : σ → Prop) (μ : σ → Nat) (lowers : ε → Bool) (h0 : inv s₀)
    (hstep : ∀ s e s', inv s → step s e s' →
      inv s' ∧ μ s' + (if lowers e = true then 1 else 0) ≤ μ s) (hr : Run step s₀ es s) :
    inv s ∧ es.countP lowers + μ s ≤ μ s₀ := by
  induction hr with
  | start => exact ⟨h0, Nat.le_of_eq (Nat.zero_add _)⟩
  | next _ hs ih =>
      obtain ⟨hinv, hlow⟩ := hstep _ _ _ ih.1 hs
      refine ⟨hinv, ?_⟩
      rw [List.countP_append, List.countP_singleton]
      have hbound := ih.2
      omega

/-- More steps allowed, more runs. -/
theorem Run.mono (h : ∀ s e s', step s e s' → step' s e s') (hr : Run step s₀ es s) :
    Run step' s₀ es s := by
  induction hr with
  | start => exact .start
  | next _ hs ih => exact .next ih (h _ _ _ hs)

/-- A guarded run is a run. -/
theorem Run.unguard {guard : σ → ε → Prop} (hr : Run (guarded guard step) s₀ es s) :
    Run step s₀ es s :=
  hr.mono fun _ _ _ h => h.2

/-- One run after another. -/
theorem Run.trans (hr : Run step s₀ es s) (hd : Run step s ds t) :
    Run step s₀ (es ++ ds) t := by
  induction hd with
  | start =>
      rw [List.append_nil]
      exact hr
  | next _ hs ih =>
      rw [← List.append_assoc]
      exact .next ih hs

/-- A run that has taken a step took it at its end. -/
theorem Run.last (es : List ε) {e : ε} (hr : Run step s₀ (es ++ [e]) t) :
    ∃ s, Run step s₀ es s ∧ step s e t := by
  generalize hes : es ++ [e] = l at hr
  cases hr with
  | start => cases (List.append_eq_nil_iff.mp hes).2
  | next hr hs =>
      obtain ⟨rfl, he⟩ := List.append_inj' hes rfl
      obtain rfl := (List.cons.inj he).1
      exact ⟨_, hr, hs⟩

/-- Where every step has one outcome, so has every run. -/
theorem Run.deterministic (hone : ∀ s e t t', step s e t → step s e t' → t = t')
    (hr : Run step s₀ es s) (hr' : Run step s₀ es t) : s = t := by
  induction hr generalizing t with
  | start => exact (hr'.of_nil rfl).symm
  | next _ hs ih =>
      obtain ⟨u, hu, hs'⟩ := Run.last _ hr'
      obtain rfl := ih hu
      exact hone _ _ _ _ hs hs'

/-- Every event of a run is a step somewhere in it. -/
theorem Run.step_of_mem {e : ε} (hr : Run step s₀ es s) (he : e ∈ es) : ∃ t t', step t e t' := by
  induction hr with
  | start => cases he
  | next _ hs ih =>
      rcases List.mem_append.mp he with he | he
      · exact ih he
      · obtain rfl := List.mem_singleton.mp he
        exact ⟨_, _, hs⟩

/-- A run is guarded by its own events. -/
theorem Run.of_own (hr : Run step s₀ es s) : Run (guarded (fun _ e => e ∈ es) step) s₀ es s := by
  induction hr with
  | start => exact .start
  | @next es _ _ e _ hs ih =>
      refine .next (ih.mono ?_) ⟨List.mem_append_right _ (List.mem_singleton_self e), hs⟩
      exact fun _ _ _ hs => ⟨List.mem_append_left _ hs.1, hs.2⟩

/-- A step on its own. -/
theorem Run.single {e : ε} (h : step s e t) : Run step s [e] t := by
  have hr : Run step s ([] ++ [e]) t := .next .start h
  exact hr

/-! ## Runs that are computed -/

/-- Events one after the other, as far as the steps that are computed go. -/
def play (next : σ → ε → Option σ) (s : σ) : List ε → Option σ
  | [] => some s
  | e :: es => (next s e).bind fun t => play next t es

/-- The steps that are computed and pass a test on the state before them. -/
def checked (test : σ → ε → Bool) (next : σ → ε → Option σ) (s : σ) (e : ε) : Option σ :=
  if test s e = true then next s e else none

/-- A computation that goes on behind a guard has met it. -/
theorem of_guard {p : Prop} [Decidable p] {u : Unit} (h : (guard p : Option Unit) = some u) :
    p := by
  by_contra hp
  rw [guard, if_neg hp] at h
  cases h

variable {next : σ → ε → Option σ}

theorem checked_some {test : σ → ε → Bool} {e : ε} (h : checked test next s e = some t) :
    test s e = true ∧ next s e = some t := by
  unfold checked at h
  by_cases htest : test s e = true
  · rw [if_pos htest] at h
    exact ⟨htest, h⟩
  · rw [if_neg htest] at h
    cases h

theorem play_append (s : σ) (es ds : List ε) :
    play next s (es ++ ds) = (play next s es).bind fun t => play next t ds := by
  induction es generalizing s with
  | nil => rfl
  | cons e es ih =>
      show (next s e).bind _ = ((next s e).bind _).bind _
      rw [Option.bind_assoc]
      exact Option.bind_congr fun t _ => ih t

/-- A run goes on with what is computed, if every step that is computed where
    a run has led is a step. -/
theorem Run.play (hnext : ∀ ds s e t, Run step s₀ ds s → next s e = some t → step s e t)
    (hr : Run step s₀ ds s) (h : play next s es = some t) : Run step s es t := by
  induction es generalizing s ds with
  | nil =>
      cases h
      exact .start
  | cons e es ih =>
      obtain ⟨s', hs, h⟩ := Option.bind_eq_some_iff.mp h
      have hstep := hnext ds s e s' hr hs
      exact (Run.single hstep).trans (ih (.next hr hstep) h)

/-- What is computed is a run, if every step that is computed is a step. -/
theorem play_run (hnext : ∀ s e t, next s e = some t → step s e t)
    (h : play next s es = some t) : Run step s es t :=
  Run.start.play (fun _ s e t _ hs => hnext s e t hs) h

end LibfsRun
