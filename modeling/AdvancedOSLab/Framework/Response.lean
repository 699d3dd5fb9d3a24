import AdvancedOSLab.Framework.System

/-!
# Bounded response

Progress of a system along a finite run, without a notion of fairness: how many steps of a certain
kind a run can have before something happens. Each label has a cost, for the steps that bring the
event closer, and a gain, for those that put it off. A state that waits for the event has a budget
that pays for the costs.

`exists_of_budget` is the rule: if every step from a state with a budget either reaches the goal, or
is paid for by the budget and leaves what remains of it, then in a run that costs more than the
budget and all gains together the goal was reached on the way.

`Leads` is the weaker notion of progress, that there is a run to a state. `Leads.drain` is its rule:
where something can always be made less, it can be made nothing.
-/

namespace OSLab

namespace System

variable {State Label : Type} {sys : System State Label} {G : State → Label → Prop}
  [∀ s l, Decidable (G s l)]

/-- What a run costs or gains. -/
def total (weight : Label → ℕ) : List Label → ℕ
  | [] => 0
  | l :: ls => weight l + total weight ls

theorem total_cons (weight : Label → ℕ) (l : Label) (ls : List Label) :
    total weight (l :: ls) = weight l + total weight ls := rfl

theorem total_two_mul (weight : Label → ℕ) (ls : List Label) :
    total (fun l => 2 * weight l) ls = 2 * total weight ls := by
  induction ls with
  | nil => rfl
  | cons l ls ih =>
    rw [total_cons, total_cons, ih]
    omega

/-- **The response rule.** -/
theorem exists_of_budget {Budget : ℕ → State → Prop} {Goal : State → Prop}
    {cost gain : Label → ℕ}
    (hstep : ∀ n s l s', Budget n s → G s l → sys.step s l = some s' →
      Goal s' ∨ ∃ m, Budget m s' ∧ m + cost l ≤ n + gain l)
    {n : ℕ} {s s' : State} {ls : List Label} (h : Budget n s)
    (hrun : sys.guardedRun G s ls = some s') (hcost : n + total gain ls < total cost ls) :
    ∃ ls₁ ls₂ s₁, ls = ls₁ ++ ls₂ ∧ sys.guardedRun G s ls₁ = some s₁ ∧ Goal s₁ := by
  induction ls generalizing n s with
  | nil => exact absurd hcost (Nat.not_lt_zero _)
  | cons l ls ih =>
    obtain ⟨hG, s₁, hs₁, hrest⟩ := guardedRun_cons_eq_some.mp hrun
    rw [total_cons, total_cons] at hcost
    rcases hstep n s l s₁ h hG hs₁ with hgoal | ⟨m, h₁, hpay⟩
    · refine ⟨[l], ls, s₁, rfl, ?_, hgoal⟩
      exact guardedRun_cons_eq_some.mpr ⟨hG, s₁, hs₁, rfl⟩
    · -- what is left of the budget does not pay for the rest of the run
      have hcost₁ : m + total gain ls < total cost ls := by omega
      obtain ⟨ls₁, ls₂, s₂, rfl, hrun₂, hgoal⟩ := ih h₁ hrest hcost₁
      refine ⟨l :: ls₁, ls₂, s₂, rfl, ?_, hgoal⟩
      exact guardedRun_cons_eq_some.mpr ⟨hG, s₁, hs₁, hrun₂⟩

/-! ### Runs that exist -/

variable {s s' s'' : State} {l : Label}

/-- There is a run from the one state to the other. -/
def Leads (sys : System State Label) (G : State → Label → Prop) [∀ s l, Decidable (G s l)]
    (s s' : State) : Prop :=
  ∃ ls, sys.guardedRun G s ls = some s'

theorem Leads.refl (sys : System State Label) (G : State → Label → Prop)
    [∀ s l, Decidable (G s l)] (s : State) : sys.Leads G s s := ⟨[], rfl⟩

theorem Leads.trans (h : sys.Leads G s s') (h' : sys.Leads G s' s'') : sys.Leads G s s'' := by
  obtain ⟨ls, hls⟩ := h
  obtain ⟨ls', hls'⟩ := h'
  exact ⟨ls ++ ls', by rw [guardedRun_append, hls, Option.bind_some, hls']⟩

theorem Leads.single (hG : G s l) (h : sys.step s l = some s') : sys.Leads G s s' :=
  ⟨[l], guardedRun_cons_eq_some.mpr ⟨hG, s', h, rfl⟩⟩

/-- The drain rule. -/
theorem Leads.drain {Inv : State → Prop} (size : State → ℕ)
    (hless : ∀ s, Inv s → size s ≠ 0 → ∃ s', sys.Leads G s s' ∧ Inv s' ∧ size s' < size s)
    (h : Inv s) : ∃ s', sys.Leads G s s' ∧ Inv s' ∧ size s' = 0 := by
  induction hn : size s using Nat.strongRecOn generalizing s with
  | ind n ih =>
    by_cases hzero : size s = 0
    · exact ⟨s, .refl sys G s, h, hzero⟩
    · obtain ⟨s₁, hleads₁, h₁, hlt⟩ := hless s h hzero
      obtain ⟨s', hleads, h', hempty⟩ := ih _ (hn ▸ hlt) h₁ rfl
      exact ⟨s', hleads₁.trans hleads, h', hempty⟩

end System

end OSLab
