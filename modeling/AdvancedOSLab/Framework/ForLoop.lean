import Mathlib.Order.Lattice
import Mathlib.Data.Int.Order.Basic

/-!
# Counting loops

`forLoop stop body c s` is the loop `for (; c < stop; c++) body` of a language in which the counter
is a variable like any other: besides the state it returns the value that the counter has
afterwards, which later statements may read.

* `forLoop_counter`: the counter ends at `stop`, or where it started if that is not below `stop`.
* `forLoop_invariant`: what the body preserves from turn to turn holds at the end.
* `forLoop_of_settled`: a loop whose first turn reaches a state that the further turns keep.
-/

namespace OSLab

variable {σ : Type}

/-- `for (; c < stop; c++) body`: the counter and the state afterwards. -/
def forLoop (stop : ℤ) (body : ℤ → σ → σ) (c : ℤ) (s : σ) : ℤ × σ :=
  if c < stop then forLoop stop body (c + 1) (body c s) else (c, s)
termination_by (stop - c).toNat

variable {stop c : ℤ} {body : ℤ → σ → σ} {s : σ}

/-- A loop that has nothing to do. -/
theorem forLoop_of_le (h : stop ≤ c) : forLoop stop body c s = (c, s) := by
  rw [forLoop, if_neg (not_lt.mpr h)]

/-- **The invariant rule.** What holds before the loop and is preserved by every turn of it holds
after the loop, at the final value of the counter. -/
theorem forLoop_invariant {P : ℤ → σ → Prop} (hle : c ≤ stop) (h₀ : P c s)
    (hstep : ∀ c s, c < stop → P c s → P (c + 1) (body c s)) :
    P stop (forLoop stop body c s).2 := by
  fun_induction forLoop stop body c s with
  | case1 c s hlt ih => exact ih hlt (hstep c s hlt h₀)
  | case2 c s hge =>
    obtain rfl : c = stop := le_antisymm hle (not_lt.mp hge)
    exact h₀

theorem forLoop_counter (hle : c ≤ stop) : (forLoop stop body c s).1 = stop := by
  fun_induction forLoop stop body c s with
  | case1 c s hlt ih => exact ih hlt
  | case2 c s hge => exact le_antisymm hle (not_lt.mp hge)

/-- The first turn leads to `t`, and from there on nothing changes. -/
theorem forLoop_of_settled {t : σ} (hlt : c < stop) (hfirst : body c s = t)
    (hkeep : ∀ c, body c t = t) : forLoop stop body c s = (stop, t) := by
  have hstate : (forLoop stop body c s).2 = t := by
    rw [forLoop, if_pos hlt, hfirst]
    exact forLoop_invariant (P := fun _ s => s = t) hlt rfl fun c s _ hs => by rw [hs, hkeep]
  exact Prod.ext (forLoop_counter hlt.le) hstate

end OSLab
