import AdvancedOSLab.Framework.System

/-!
# Systems that take the same steps

Two systems over the same labels, one of which is an implementation of the other. The relation
between their states is kept label for label, and neither of the two gets stuck where the other
does not (`Option.Rel`), so that the two have the same runs.

`StepForStep.run` is the rule: from related initial states and related steps to related runs. The
step obligation may use what is known of the reachable states of either system.
`StepForStep.reachable` carries invariants of the specification over to the implementation.
-/

namespace OSLab

namespace System

variable {State State' Label : Type}

/-- Related computations that are continued in related ways. -/
theorem rel_bind {α α' β β' : Type} {R : α → α' → Prop} {S : β → β' → Prop} {x : Option α}
    {x' : Option α'} {f : α → Option β} {f' : α' → Option β'} (hx : Option.Rel R x x')
    (hf : ∀ a a', x = some a → x' = some a' → R a a' → Option.Rel S (f a) (f' a')) :
    Option.Rel S (x.bind f) (x'.bind f') := by
  cases hx with
  | none => exact .none
  | some h => exact hf _ _ rfl rfl h

/-- The two systems start in related states, and each step of one is a step of the other. -/
structure StepForStep (impl : System State Label) (spec : System State' Label)
    (R : State → State' → Prop) : Prop where
  init : R impl.init spec.init
  step : ∀ s t l, impl.Reachable anyStep s → spec.Reachable anyStep t → R s t →
    Option.Rel R (impl.step s l) (spec.step t l)

variable {impl : System State Label} {spec : System State' Label} {R : State → State' → Prop}

theorem StepForStep.run_of_rel (h : StepForStep impl spec R) {s : State} {t : State'}
    (hs : impl.Reachable anyStep s) (ht : spec.Reachable anyStep t) (hrel : R s t)
    (ls : List Label) :
    Option.Rel R (impl.guardedRun anyStep s ls) (spec.guardedRun anyStep t ls) := by
  induction ls generalizing s t with
  | nil => exact .some hrel
  | cons l ls ih =>
    have hany : ∀ {S : Type} (s : S), anyStep s l := fun _ => trivial
    rw [guardedRun, guardedRun, if_pos (hany s), if_pos (hany t)]
    -- the two systems agree on whether the step is possible
    have hstep := h.step s t l hs ht hrel
    cases hs' : impl.step s l with
    | none =>
      cases ht' : spec.step t l with
      | none => exact .none
      | some t' => rw [hs', ht'] at hstep; cases hstep
    | some s' =>
      cases ht' : spec.step t l with
      | none => rw [hs', ht'] at hstep; cases hstep
      | some t' =>
        rw [hs', ht', Option.rel_some_some] at hstep
        exact ih (.step hs trivial hs') (.step ht trivial ht') hstep

/-- The runs of the two systems are the same, through related states. -/
theorem StepForStep.run (h : StepForStep impl spec R) (ls : List Label) :
    Option.Rel R (impl.guardedRun anyStep impl.init ls)
      (spec.guardedRun anyStep spec.init ls) :=
  h.run_of_rel .init .init h.init ls

/-- Whatever the implementation reaches is related to a state that its specification reaches. -/
theorem StepForStep.reachable (h : StepForStep impl spec R) {s : State}
    (hs : impl.Reachable anyStep s) : ∃ t, spec.Reachable anyStep t ∧ R s t := by
  induction hs with
  | init => exact ⟨spec.init, .init, h.init⟩
  | @step s s' l hs _ hs' ih =>
    obtain ⟨t, ht, hrel⟩ := ih
    have hstep := h.step s t l hs ht hrel
    cases ht' : spec.step t l with
    | none => rw [hs', ht'] at hstep; cases hstep
    | some t' =>
      rw [hs', ht', Option.rel_some_some] at hstep
      exact ⟨t', .step ht trivial ht', hstep⟩

end System

end OSLab
