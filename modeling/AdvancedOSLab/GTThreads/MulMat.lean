import Mathlib.Algebra.BigOperators.Group.Finset.Basic
import Mathlib.Data.BitVec
import Mathlib.Data.Fintype.Basic
import AdvancedOSLab.Framework.ForLoop

/-!
# The matrix multiplication of the test program

The uthreads of `gt_matrix.c` run `uthread_mulmat`, which is meant to add the product of two
matrices to a third one. The loops of the function are not followed by a block:

    for(i ...) for(j ...) for(k ...) if(...) { gt_yield(); num_yield++; }
    C[i][j] += A[i][k] * B[k][j];

In credit mode the first threads yield a few times in the innermost loop, and the conditional with
its yields is the whole body. The assignment is executed once, after the loops, with the values that
their counters have then.

The matrices are global arrays of `SIZE * SIZE` 32-bit integers. An access outside of them has no
result (`none`). Nothing else writes them: the yields only count.

`mulmat_adds_product_iff` says when the function does what it is for: for no positive matrix size,
and for the others, where nothing is to be added, if the product of the first two elements is zero.
-/

namespace OSLab

namespace GTThreads

namespace MulMat

/-- `SIZE`. -/
abbrev size : ℕ := 256

/-- The elements of a `matrix_t`. -/
abbrev Mat : Type := Fin size → Fin size → BitVec 32

/-- The fields of `uthread_arg_t` that are read, besides the matrices. -/
structure UthreadArg where
  matrixSize : ℤ
  tid : ℕ
deriving DecidableEq, Repr

/-- The variables of the function. -/
structure Vars where
  i : ℤ
  j : ℤ
  k : ℤ
  numYield : ℕ
deriving DecidableEq, Repr

/-- The condition for a yield, apart from the number of yields so far. -/
def mayYield (isCreditScheduler : Bool) (arg : UthreadArg) : Bool :=
  isCreditScheduler && arg.tid ≤ 32

/-- The body of the innermost loop. -/
def yieldSome (yields : Bool) (v : Vars) : Vars :=
  if yields ∧ v.numYield < 10 then { v with numYield := v.numYield + 1 } else v

/-- `for(k = 0; k < SIZE; k++)`. -/
def loopK (yields : Bool) (v : Vars) : Vars :=
  let (k, v) := forLoop size (fun _ v => yieldSome yields v) 0 v
  { v with k := k }

/-- `for(j = start_col; j < end_col; j++)`. -/
def loopJ (yields : Bool) (endCol : ℤ) (v : Vars) : Vars :=
  let (j, v) := forLoop endCol (fun _ v => loopK yields v) 0 v
  { v with j := j }

/-- `for(i = start_row; i < end_row; i++)`. -/
def loopI (yields : Bool) (endRow endCol : ℤ) (v : Vars) : Vars :=
  let (i, v) := forLoop endRow (fun _ v => loopJ yields endCol v) 0 v
  { v with i := i }

/-- The variables after the loops. -/
def afterLoops (isCreditScheduler : Bool) (arg : UthreadArg) : Vars :=
  loopI (mayYield isCreditScheduler arg) arg.matrixSize arg.matrixSize
    { i := 0, j := 0, k := 0, numYield := 0 }

/-- An index into a matrix. -/
def index (i : ℤ) : Option (Fin size) :=
  if 0 ≤ i ∧ i < size then some (Fin.ofNat size i.toNat) else none

/-- `uthread_mulmat`: the matrix `C` afterwards. -/
def uthreadMulmat (isCreditScheduler : Bool) (arg : UthreadArg) (A B C : Mat) : Option Mat := do
  let v := afterLoops isCreditScheduler arg
  let i ← index v.i
  let j ← index v.j
  let k ← index v.k
  return Function.update C i (Function.update (C i) j (C i j + A i k * B k j))

/-- The product of `A` and `B` is added to the first `n` rows and columns of `C`, the other elements
stay, and no element outside of the matrices is accessed. -/
def AddsProduct (n : ℤ) (A B C : Mat) (result : Option Mat) : Prop :=
  ∃ C', result = some C' ∧ ∀ i j : Fin size,
    C' i j = if (i : ℤ) < n ∧ (j : ℤ) < n then C i j + ∑ k, A i k * B k j else C i j

/-! ### The counters after the loops -/

variable {yields : Bool} {v : Vars} {n : ℤ}

/-- The innermost loop has enough turns for all ten yields. -/
theorem loopK_eq (hv : v.numYield ≤ 10) : loopK yields v =
    { v with k := size, numYield := if yields then 10 else v.numYield } := by
  -- the number of yields after `k` turns
  have hinv : (forLoop size (fun _ v => yieldSome yields v) 0 v).2 = { v with
      numYield := if yields then min 10 (v.numYield + (size : ℤ).toNat) else v.numYield } := by
    refine (forLoop_invariant (P := fun k w => 0 ≤ k ∧ w = { v with
      numYield := if yields then min 10 (v.numYield + k.toNat) else v.numYield })
      (Int.natCast_nonneg size)
      ⟨le_rfl, ?_⟩ ?_).2
    · cases yields <;> simp [hv]
    · rintro k w - ⟨hk, rfl⟩
      refine ⟨by omega, ?_⟩
      cases yields with
      | false => simp [yieldSome]
      | true =>
        simp only [yieldSome, if_true, true_and]
        split
        · next hlt =>
          congr 1
          omega
        · next hge =>
          congr 1
          omega
  have hcounter : (forLoop size (fun _ v => yieldSome yields v) 0 v).1 = size :=
    forLoop_counter (by simp)
  simp only [loopK, hcounter, hinv]
  cases yields with
  | false => rfl
  | true =>
    have hmin : min 10 (v.numYield + (size : ℤ).toNat) = 10 :=
      Nat.min_eq_left (Nat.le_add_left_of_le (by decide))
    rw [if_pos rfl, if_pos rfl, hmin]

/-- After the loops over the columns. -/
theorem loopJ_eq (hn : 0 < n) (hv : v.numYield ≤ 10) : loopJ yields n v =
    { v with j := n, k := size, numYield := if yields then 10 else v.numYield } := by
  have hloop : forLoop n (fun _ v => loopK yields v) 0 v =
      (n, { v with k := size, numYield := if yields then 10 else v.numYield }) := by
    refine forLoop_of_settled hn (loopK_eq hv) fun _ => ?_
    rw [loopK_eq (by dsimp only; split <;> omega)]
    cases yields <;> rfl
  simp only [loopJ, hloop]

/-- For a positive matrix size the counters end at the size, and `k` at `SIZE`. -/
theorem afterLoops_eq {isCreditScheduler : Bool} {arg : UthreadArg} (hn : 0 < arg.matrixSize) :
    afterLoops isCreditScheduler arg =
      { i := arg.matrixSize, j := arg.matrixSize, k := size,
        numYield := if mayYield isCreditScheduler arg then 10 else 0 } := by
  rw [afterLoops]
  generalize mayYield isCreditScheduler arg = yields
  have hloop : forLoop arg.matrixSize (fun _ v => loopJ yields arg.matrixSize v) 0
      { i := 0, j := 0, k := 0, numYield := 0 } = (arg.matrixSize,
        { i := 0, j := arg.matrixSize, k := size, numYield := if yields then 10 else 0 }) := by
    refine forLoop_of_settled hn (loopJ_eq hn (Nat.zero_le 10)) fun _ => ?_
    rw [loopJ_eq hn (by dsimp only; split <;> omega)]
    cases yields <;> rfl
  simp only [loopI, hloop]

/-- For the other sizes the loops are not entered. -/
theorem afterLoops_of_le {isCreditScheduler : Bool} {arg : UthreadArg}
    (hn : arg.matrixSize ≤ 0) :
    afterLoops isCreditScheduler arg = { i := 0, j := 0, k := 0, numYield := 0 } := by
  simp only [afterLoops, loopI, forLoop_of_le hn]

/-! ### The assignment -/

/-- The assignment reads behind the end of a row of `A` and behind the last row of `B`. -/
theorem uthreadMulmat_of_pos {isCreditScheduler : Bool} {arg : UthreadArg} {A B C : Mat}
    (hn : 0 < arg.matrixSize) : uthreadMulmat isCreditScheduler arg A B C = none := by
  have hk : index (size : ℤ) = none := if_neg fun h => lt_irrefl _ h.2
  rw [uthreadMulmat, afterLoops_eq hn]
  simp only [hk, Option.bind_eq_bind, Option.bind_none, Option.bind_fun_none]

theorem uthreadMulmat_of_le {isCreditScheduler : Bool} {arg : UthreadArg} {A B C : Mat}
    (hn : arg.matrixSize ≤ 0) : uthreadMulmat isCreditScheduler arg A B C =
      some (Function.update C 0 (Function.update (C 0) 0 (C 0 0 + A 0 0 * B 0 0))) := by
  have hzero : index 0 = some 0 := if_pos ⟨le_rfl, by simp⟩
  rw [uthreadMulmat, afterLoops_of_le hn]
  simp only [hzero, Option.bind_eq_bind, Option.bind_some, Option.pure_def]

/-- `uthread_mulmat` adds the product for no positive matrix size, in either mode and for any
matrices. For the other sizes it adds `A[0][0] * B[0][0]` to `C[0][0]`. -/
theorem mulmat_adds_product_iff (isCreditScheduler : Bool) (arg : UthreadArg) (A B C : Mat) :
    AddsProduct arg.matrixSize A B C (uthreadMulmat isCreditScheduler arg A B C) ↔
      arg.matrixSize ≤ 0 ∧ A 0 0 * B 0 0 = 0 := by
  by_cases hn : 0 < arg.matrixSize
  -- after the loops the counters are outside of the matrices
  · rw [uthreadMulmat_of_pos hn]
    refine iff_of_false ?_ fun h => absurd h.1 (not_le.mpr hn)
    rintro ⟨C', hC', -⟩
    exact absurd hC' (by simp)
  have hle := not_lt.mp hn
  rw [uthreadMulmat_of_le hle]
  -- for a size that is not positive the product is asked for nowhere
  have hout : ∀ i j : Fin size, ¬ ((i : ℤ) < arg.matrixSize ∧ (j : ℤ) < arg.matrixSize) :=
    fun i j h => absurd (Int.natCast_nonneg (i : ℕ)) (not_le.mpr (h.1.trans_le hle))
  constructor
  · rintro ⟨C', hC', helems⟩
    obtain rfl := Option.some.inj hC'
    have hfirst := helems 0 0
    rw [if_neg (hout 0 0), Function.update_self, Function.update_self] at hfirst
    exact ⟨hle, add_eq_left.mp hfirst⟩
  · rintro ⟨-, hzero⟩
    refine ⟨_, rfl, fun i j => ?_⟩
    rw [if_neg (hout i j), hzero, add_zero, Function.update_eq_self, Function.update_eq_self]

/-- Matrices of one element: nothing is added to `C`, and `A[1][SIZE]` is read. -/
theorem mulmat_of_one :
    afterLoops false ⟨1, 0⟩ = { i := 1, j := 1, k := size, numYield := 0 } ∧
      uthreadMulmat false ⟨1, 0⟩ (fun _ _ => 1) (fun _ _ => 1) (fun _ _ => 0) = none ∧
      ¬ AddsProduct 1 (fun _ _ => 1) (fun _ _ => 1) (fun _ _ => 0)
        (uthreadMulmat false ⟨1, 0⟩ (fun _ _ => 1) (fun _ _ => 1) (fun _ _ => 0)) := by
  have hpos : 0 < (⟨1, 0⟩ : UthreadArg).matrixSize := Int.one_pos
  refine ⟨afterLoops_eq hpos, uthreadMulmat_of_pos hpos, ?_⟩
  rw [uthreadMulmat_of_pos hpos]
  rintro ⟨C', hC', -⟩
  exact absurd hC' (by simp)

end MulMat

end GTThreads

end OSLab
