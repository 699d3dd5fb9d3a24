import Mathlib.Data.BitVec
import Mathlib.Data.Fin.Basic

/-!
# Machine words used as sets

A word of `w` bits is often kept as a set of small numbers: bit `i` is set when `i` is in the
set. Such a word is only worth something together with what it is supposed to record, so the
module is about the relation

* `BitMask.Marks mask P`: bit `i` of `mask` is set exactly when `P i` holds,

and about what the usual instructions do to it: setting a bit adds one number to what is recorded
(`Marks.setBit`), clearing a bit takes one away (`Marks.resetBit`), the word is zero when nothing
is recorded (`Marks.eq_zero_iff`), and a scan for the lowest set bit finds the least number
recorded (`Marks.lowestBitSet`).
-/

namespace OSLab

namespace BitMask

variable {w : ℕ}

/-- The test `mask & (1 << off)`. -/
def isBitSet (mask : BitVec w) (off : Fin w) : Bool :=
  mask &&& BitVec.twoPow w off != 0#w

/-- Set bit `off` (`bts`). -/
def setBit (mask : BitVec w) (off : Fin w) : BitVec w :=
  mask ||| BitVec.twoPow w off

/-- Clear bit `off` (`btr`). -/
def resetBit (mask : BitVec w) (off : Fin w) : BitVec w :=
  mask &&& ~~~BitVec.twoPow w off

/-- The lowest set bit (`bsf`). The instruction has no defined result on a zero word. -/
def lowestBitSet (mask : BitVec w) : Option (Fin w) :=
  Fin.find? fun i => isBitSet mask i

/-! ### Bits of a word -/

theorem isBitSet_eq_getLsbD (mask : BitVec w) (i : Fin w) :
    isBitSet mask i = mask.getLsbD i := by
  -- `mask &&& twoPow i` is `twoPow i` or zero, according to bit `i`
  rw [isBitSet, BitVec.and_twoPow]
  cases mask.getLsbD i with
  | false => simp
  | true =>
    have hne : BitVec.twoPow w i ≠ 0#w := by
      intro h
      have hbit : (BitVec.twoPow w i).getLsbD i = (0#w).getLsbD i := by rw [h]
      simp at hbit
    simp [hne]

@[simp] theorem isBitSet_zero (i : Fin w) : isBitSet 0#w i = false := by
  simp [isBitSet_eq_getLsbD]

theorem isBitSet_setBit (mask : BitVec w) (off i : Fin w) :
    isBitSet (setBit mask off) i = (isBitSet mask i || decide (i = off)) := by
  simp [isBitSet_eq_getLsbD, setBit, Fin.ext_iff, eq_comm]

theorem isBitSet_resetBit (mask : BitVec w) (off i : Fin w) :
    isBitSet (resetBit mask off) i = (isBitSet mask i && decide (i ≠ off)) := by
  simp [isBitSet_eq_getLsbD, resetBit, Fin.ext_iff, eq_comm]

/-! ### What a word records -/

/-- The word records the predicate: bit `i` is set exactly when `P i` holds. -/
def Marks (mask : BitVec w) (P : Fin w → Prop) : Prop :=
  ∀ i, isBitSet mask i = true ↔ P i

namespace Marks

variable {mask : BitVec w} {P Q : Fin w → Prop}

theorem zero (h : ∀ i, ¬ P i) : Marks 0#w P := fun i => by simp [h i]

theorem congr (h : Marks mask P) (hPQ : ∀ i, P i ↔ Q i) : Marks mask Q :=
  fun i => (h i).trans (hPQ i)

/-- Setting a bit, unless it is set already, records one more number. -/
theorem setBit (h : Marks mask P) (off : Fin w) :
    Marks (if isBitSet mask off then mask else BitMask.setBit mask off)
      (fun i => P i ∨ i = off) := by
  intro i
  split
  · next hset =>
    -- nothing is written, and `off` is recorded already
    rw [h i]
    exact ⟨Or.inl, fun hi => hi.elim id fun hi => hi ▸ (h off).mp hset⟩
  · rw [isBitSet_setBit, Bool.or_eq_true, decide_eq_true_eq, h i]

/-- Clearing a bit when the number is no longer to be recorded, and only then. -/
theorem resetBit (h : Marks mask P) {off : Fin w} {c : Prop} [Decidable c] (hc : c ↔ ¬ Q off)
    (hoff : Q off → P off) (hother : ∀ i, i ≠ off → (Q i ↔ P i)) :
    Marks (if c then BitMask.resetBit mask off else mask) Q := by
  intro i
  by_cases hi : i = off
  · subst hi
    split
    · next hclear => simpa [isBitSet_resetBit] using hc.mp hclear
    · next hkeep =>
      -- the bit stays, and so does the number
      have hQ : Q i := not_not.mp fun hQ => hkeep (hc.mpr hQ)
      exact iff_of_true ((h i).mpr (hoff hQ)) hQ
  · rw [hother i hi, ← h i]
    split <;> simp [isBitSet_resetBit, hi]

theorem eq_zero_iff (h : Marks mask P) : mask = 0#w ↔ ∀ i, ¬ P i := by
  constructor
  · rintro rfl i hi
    simpa using (h i).mpr hi
  · intro hnone
    refine BitVec.eq_of_getLsbD_eq fun i hi => ?_
    have hclear : isBitSet mask ⟨i, hi⟩ = false :=
      Bool.eq_false_iff.mpr fun hset => hnone _ ((h _).mp hset)
    rw [isBitSet_eq_getLsbD] at hclear
    simpa using hclear

/-- The scan finds the least number recorded. -/
theorem lowestBitSet_eq_some (h : Marks mask P) {i : Fin w} :
    lowestBitSet mask = some i ↔ P i ∧ ∀ j < i, ¬ P j := by
  rw [lowestBitSet, Fin.find?_eq_some_iff, h i]
  simp only [← h _, Bool.not_eq_true]

/-- The scan succeeds on a word that records something. -/
theorem exists_lowestBitSet (h : Marks mask P) {i : Fin w} (hi : P i) :
    ∃ j, lowestBitSet mask = some j ∧ P j ∧ j ≤ i := by
  cases hlow : lowestBitSet mask with
  | none =>
    have hclear := Fin.find?_eq_none_iff.mp hlow i
    rw [(h i).mpr hi] at hclear
    exact absurd hclear (by decide)
  | some j =>
    obtain ⟨hj, hleast⟩ := h.lowestBitSet_eq_some.mp hlow
    exact ⟨j, rfl, hj, not_lt.mp fun hlt => hleast i hlt hi⟩

end Marks

end BitMask

end OSLab
