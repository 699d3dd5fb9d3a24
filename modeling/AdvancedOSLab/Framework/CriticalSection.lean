import Mathlib.Data.List.Flatten
import Mathlib.Data.Option.Basic

/-!
# Bodies of critical sections

A critical section is a list of statements on a shared memory. A statement is a partial function:
it has no result where the program is undefined, or where an assertion fails.

`runBody` executes a section without interruption. An execution of several sections one after the
other is the execution of their concatenation (`runBody_append`), so `runBody bodies.flatten` is
what a serial execution in a given order does. A section that is written for a part of the memory is
one of the whole memory by `onPart`.
-/

namespace OSLab

variable {σ : Type}

/-- The statements of a critical section. -/
abbrev Body (σ : Type) : Type := List (σ → Option σ)

/-- Execute the statements one after the other. -/
def runBody : Body σ → σ → Option σ
  | [], memory => some memory
  | stmt :: rest, memory => (stmt memory).bind (runBody rest)

@[simp] theorem runBody_nil (memory : σ) : runBody [] memory = some memory := rfl

@[simp] theorem runBody_cons (stmt : σ → Option σ) (rest : Body σ) (memory : σ) :
    runBody (stmt :: rest) memory = (stmt memory).bind (runBody rest) := rfl

theorem runBody_append (body body' : Body σ) (memory : σ) :
    runBody (body ++ body') memory = (runBody body memory).bind (runBody body') := by
  induction body generalizing memory with
  | nil => rfl
  | cons stmt rest ih =>
    rw [List.cons_append, runBody_cons, runBody_cons, Option.bind_assoc]
    exact congrArg _ (funext ih)

/-- A section on a part of the memory. -/
def onPart {τ : Type} (get : σ → τ) (set : σ → τ → σ) (body : Body τ) : Body σ :=
  body.map fun stmt memory => (stmt (get memory)).map (set memory)

/-- A section on a part of the memory does to the part what it does alone. -/
theorem runBody_onPart {τ : Type} (get : σ → τ) (set : σ → τ → σ)
    (hget : ∀ m x, get (set m x) = x) (hset : ∀ m x y, set (set m x) y = set m y)
    (hself : ∀ m, set m (get m) = m) (body : Body τ) (memory : σ) :
    runBody (onPart get set body) memory = (runBody body (get memory)).map (set memory) := by
  induction body generalizing memory with
  | nil => rw [onPart, List.map_nil, runBody_nil, runBody_nil, Option.map_some, hself]
  | cons stmt rest ih =>
    rw [onPart, List.map_cons, runBody_cons, runBody_cons]
    cases hstmt : stmt (get memory) with
    | none => rfl
    | some x =>
      rw [Option.map_some, Option.bind_some, Option.bind_some]
      change runBody (onPart get set rest) (set memory x) = _
      rw [ih, hget]
      exact congrArg (fun f => (runBody rest x).map f) (funext (hset memory x))

end OSLab
