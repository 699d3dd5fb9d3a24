import Mathlib.Data.List.Basic
import Mathlib.Order.Basic

/-!
# Labelled systems and their runs

The common shape of every machine of this development: a state type, an initial
state, and a partial step function `step s l`. The label `l` carries every choice
the environment makes (which party moves, which input arrives), so that a system
is deterministic once its labels are known and a run is just a list of labels.
`none` is a step that is not enabled, or one that the program leaves undefined.

* `System.Reachable G` is reachability along steps whose pre-state and label
  satisfy a guard `G`. The unguarded notion is `Reachable` at the trivial guard.
* `Reachable.invariant` is the one induction that every safety result of the
  development goes through: the initial state satisfies the invariant, and every
  guarded step preserves it.
* `System.guardedRun` executes a list of labels, and `Reachable.of_guardedRun` turns
  an executed run into a reachability proof.
-/

namespace OSLab

variable {State Label : Type}

/-- A labelled system with a partial, deterministic step function. -/
structure System (State Label : Type) where
  init : State
  step : State → Label → Option State

namespace System

variable (sys : System State Label)

/-- The system, started in another state. -/
def startingAt (s : State) : System State Label := { sys with init := s }

/-- The states reachable along steps that satisfy the guard `G` in their
pre-state. -/
inductive Reachable (G : State → Label → Prop) : State → Prop
  | init : Reachable G sys.init
  | step {s s' : State} {l : Label} (hr : Reachable G s) (hG : G s l)
      (hs : sys.step s l = some s') : Reachable G s'

/-- The guard that lets every step pass. -/
def anyStep : State → Label → Prop := fun _ _ => True

instance (s : State) (l : Label) : Decidable (anyStep s l) := instDecidableTrue

variable {sys} {G : State → Label → Prop}

/-- **The invariant rule.** A predicate that holds initially and is preserved by
every guarded step holds in every reachable state. The step obligation may use
that the pre-state is reachable, so that invariants can be proved one after the
other. -/
theorem Reachable.invariant {Inv : State → Prop} (h₀ : Inv sys.init)
    (hstep : ∀ s l s', sys.Reachable G s → Inv s → G s l → sys.step s l = some s' → Inv s')
    {s : State} (hr : sys.Reachable G s) : Inv s := by
  induction hr with
  | init => exact h₀
  | step hr hG hs ih => exact hstep _ _ _ hr ih hG hs

/-- A run whose steps satisfy a guard is one of every weaker guard. -/
theorem Reachable.mono {G' : State → Label → Prop} (h : ∀ s l, G s l → G' s l) {s : State}
    (hr : sys.Reachable G s) : sys.Reachable G' s := by
  induction hr with
  | init => exact .init
  | step _ hG hs ih => exact .step ih (h _ _ hG) hs

theorem Reachable.unguarded {s : State} (hr : sys.Reachable G s) : sys.Reachable anyStep s :=
  hr.mono fun _ _ _ => trivial

/-- Execute labels one after the other, and stop at a step that the guard refuses. -/
def guardedRun (sys : System State Label) (G : State → Label → Prop)
    [∀ s l, Decidable (G s l)] (s : State) : List Label → Option State
  | [] => some s
  | l :: ls => if G s l then (sys.step s l).bind fun s' => guardedRun sys G s' ls else none

theorem guardedRun_cons_eq_some [∀ s l, Decidable (G s l)] {s s' : State} {l : Label}
    {ls : List Label} :
    sys.guardedRun G s (l :: ls) = some s' ↔
      G s l ∧ ∃ s₁, sys.step s l = some s₁ ∧ sys.guardedRun G s₁ ls = some s' := by
  rw [guardedRun]
  split
  · next hG => rw [Option.bind_eq_some_iff, and_iff_right hG]
  · next hG => exact iff_of_false (by simp) fun h => hG h.1

/-- Labels that were executed one list after the other. -/
theorem guardedRun_append [∀ s l, Decidable (G s l)] {s : State} {ls ls' : List Label} :
    sys.guardedRun G s (ls ++ ls') =
      (sys.guardedRun G s ls).bind fun s' => sys.guardedRun G s' ls' := by
  induction ls generalizing s with
  | nil => rfl
  | cons l ls ih =>
    rw [List.cons_append, guardedRun, guardedRun]
    split
    · rw [Option.bind_assoc]
      exact congrArg _ (funext fun _ => ih)
    · rfl

/-- An executed run whose steps all pass the guard reaches its final state. -/
theorem Reachable.of_guardedRun [∀ s l, Decidable (G s l)] {s₀ s : State} {ls : List Label}
    (h₀ : sys.Reachable G s₀) (hrun : sys.guardedRun G s₀ ls = some s) : sys.Reachable G s := by
  induction ls generalizing s₀ with
  | nil =>
    obtain rfl := Option.some.inj hrun
    exact h₀
  | cons l ls ih =>
    obtain ⟨hG, s₁, hs₁, hrest⟩ := guardedRun_cons_eq_some.mp hrun
    exact ih (.step h₀ hG hs₁) hrest

/-- A run in which every step uses up some of a budget is no longer than the budget. What is left
at the end is a budget of the final state. -/
theorem length_add_le_of_budget [∀ s l, Decidable (G s l)] {Budget : ℕ → State → Prop}
    (hstep : ∀ n s l s', Budget n s → G s l → sys.step s l = some s' → ∃ m < n, Budget m s')
    {n : ℕ} {s s' : State} {ls : List Label} (h : Budget n s)
    (hrun : sys.guardedRun G s ls = some s') : ∃ m, Budget m s' ∧ ls.length + m ≤ n := by
  induction ls generalizing n s with
  | nil =>
    obtain rfl := Option.some.inj hrun
    exact ⟨n, h, Nat.le_of_eq (Nat.zero_add n)⟩
  | cons l ls ih =>
    obtain ⟨hG, s₁, hs₁, hrest⟩ := guardedRun_cons_eq_some.mp hrun
    obtain ⟨m, hm, h₁⟩ := hstep n s l s₁ h hG hs₁
    obtain ⟨r, hr, hle⟩ := ih h₁ hrest
    refine ⟨r, hr, ?_⟩
    calc (l :: ls).length + r = ls.length + r + 1 := by rw [List.length_cons]; omega
      _ ≤ m + 1 := Nat.succ_le_succ hle
      _ ≤ n := hm

/-- What an executed run ends in is reached. -/
theorem Reachable.of_any [∀ s l, Decidable (G s l)] {ls : List Label} {P : State → Bool}
    (hrun : (sys.guardedRun G sys.init ls).any P = true) :
    ∃ s, sys.Reachable G s ∧ P s = true := by
  obtain ⟨s, hs, hP⟩ := (Option.any_eq_true P _).mp hrun
  exact ⟨s, .of_guardedRun .init hs, hP⟩

end System

end OSLab
