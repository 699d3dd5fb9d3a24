import Mathlib.Data.List.GetD
import Mathlib.Data.List.Induction

/-!
# Overlays of byte files

A file is a list, a *patch* writes a list of entries at an offset. Writing behind
the end fills the gap with a fixed entry `z` (for bytes: zero), and an empty patch
does not change the file, not even its length. This is what `lseek` and `write` do.

A file is determined by its length and its entries, where an entry behind the end
is read as `z` (`ext_getD`). Both have a simple description after a list of patches:

* `length_applyAll`: the length is the maximum of the old one and of the ends of
  the non-empty patches.
* `getD_applyAll`: an entry is that of the last patch that covers it, if any, and
  the old one otherwise.

Redo recovery rests on `applyAll_absorb`: in front of a list of patches, any
patches that are prefixes of some of them have no effect, in any order and any
number.
-/

namespace OSLab

variable {α : Type}

/-- Write `bytes` at `offset`. -/
structure Patch (α : Type) where
  offset : ℕ
  bytes : List α
deriving DecidableEq

namespace Patch

variable (z : α)

/-- The file after a patch, with `z` in the gap. -/
def apply (p : Patch α) (c : List α) : List α :=
  match p.bytes with
  | [] => c
  | b :: bs =>
    c.take p.offset ++ List.replicate (p.offset - c.length) z ++ (b :: bs)
      ++ c.drop (p.offset + (b :: bs).length)

/-- The patches of a list, one after the other. -/
def applyAll (ps : List (Patch α)) (c : List α) : List α :=
  ps.foldl (fun c p => p.apply z c) c

/-- The position behind the last entry a patch writes; `0` if it writes none. -/
def extent (p : Patch α) : ℕ :=
  match p.bytes with
  | [] => 0
  | b :: bs => p.offset + (b :: bs).length

/-- The patch writes position `i`. -/
def Covers (p : Patch α) (i : ℕ) : Prop := p.offset ≤ i ∧ i < p.offset + p.bytes.length

instance (p : Patch α) (i : ℕ) : Decidable (p.Covers i) := by
  unfold Covers
  infer_instance

/-- What the patch writes at position `i`. -/
def entry (p : Patch α) (i : ℕ) : α := p.bytes.getD (i - p.offset) z

/-- The last patch of a list that writes position `i`. -/
def lastCover (ps : List (Patch α)) (i : ℕ) : Option (Patch α) :=
  ps.reverse.find? fun p => p.Covers i

/-- The patch `p` is the beginning of `w`: the same write, stopped early. -/
def PrefixOf (p w : Patch α) : Prop := p.offset = w.offset ∧ p.bytes <+: w.bytes

/-- Where both patches write, they write the same. -/
def AgreesWith (p q : Patch α) : Prop :=
  ∀ k < p.bytes.length, q.Covers (p.offset + k) →
    p.entry z (p.offset + k) = q.entry z (p.offset + k)

instance [DecidableEq α] (p q : Patch α) : Decidable (p.AgreesWith z q) :=
  inferInstanceAs (Decidable (∀ k < p.bytes.length, _))

/-! ### One patch -/

theorem length_apply (p : Patch α) (c : List α) :
    (p.apply z c).length = max c.length p.extent := by
  obtain ⟨offset, bytes⟩ := p
  cases bytes with
  | nil => simp [apply, extent]
  | cons b bs =>
    simp only [apply, extent, List.length_append, List.length_take, List.length_replicate,
      List.length_drop]
    omega

/-- A patch that starts inside the file leaves no gap. -/
theorem apply_of_le {p : Patch α} {c : List α} (h : p.offset ≤ c.length) :
    p.apply z c = c.take p.offset ++ p.bytes ++ c.drop (p.offset + p.bytes.length) := by
  obtain ⟨offset, bytes⟩ := p
  cases bytes with
  | nil => simp [apply]
  | cons b bs => simp [apply, Nat.sub_eq_zero_of_le h]

/-- Entries after a patch, with `z` behind the end on both sides. -/
theorem getD_apply (p : Patch α) (c : List α) (i : ℕ) :
    (p.apply z c).getD i z = if p.Covers i then p.entry z i else c.getD i z := by
  obtain ⟨offset, bytes⟩ := p
  cases bytes with
  | nil =>
    have hnot : ¬ Covers (⟨offset, []⟩ : Patch α) i := by
      rintro ⟨h₁, h₂⟩
      exact absurd (Nat.lt_of_le_of_lt h₁ h₂) (by simp)
    rw [if_neg hnot]
    rfl
  | cons b bs =>
    -- the four pieces of the new file, from left to right
    have hhead : (c.take offset ++ List.replicate (offset - c.length) z).length = offset := by
      simp only [List.length_append, List.length_take, List.length_replicate]
      omega
    simp only [apply, Covers, entry, List.getD_eq_getElem?_getD]
    rw [List.append_assoc, List.getElem?_append, hhead]
    split
    · next hlt =>
      rw [if_neg fun hcov => absurd hcov.1 (by omega), List.getElem?_append]
      split
      · next htake => rw [List.getElem?_take, if_pos hlt]
      · next htake =>
        -- in the gap
        rw [List.length_take] at htake
        rw [List.getElem?_replicate, List.getElem?_eq_none (by omega : c.length ≤ i)]
        split <;> rfl
    · next hge =>
      rw [List.getElem?_append]
      split
      · next hin => rw [if_pos ⟨by omega, by omega⟩]
      · next hout =>
        rw [if_neg fun hcov => hout (by omega), List.getElem?_drop]
        congr 2
        omega

/-- A file is determined by its length and its entries. -/
theorem ext_getD {c c' : List α} (hlen : c.length = c'.length)
    (hget : ∀ i, c.getD i z = c'.getD i z) : c = c' := by
  refine List.ext_getElem hlen fun i h h' => ?_
  have hi := hget i
  rwa [List.getD_eq_getElem _ z h, List.getD_eq_getElem _ z h'] at hi

/-! ### Lists of patches -/

theorem applyAll_cons (p : Patch α) (ps : List (Patch α)) (c : List α) :
    applyAll z (p :: ps) c = applyAll z ps (p.apply z c) := rfl

theorem applyAll_append (ps qs : List (Patch α)) (c : List α) :
    applyAll z (ps ++ qs) c = applyAll z qs (applyAll z ps c) :=
  List.foldl_append

theorem applyAll_snoc (ps : List (Patch α)) (p : Patch α) (c : List α) :
    applyAll z (ps ++ [p]) c = p.apply z (applyAll z ps c) :=
  applyAll_append z ps [p] c

theorem length_applyAll (ps : List (Patch α)) (c : List α) :
    (applyAll z ps c).length = (ps.map extent).foldl max c.length := by
  induction ps generalizing c with
  | nil => rfl
  | cons p ps ih =>
    rw [applyAll_cons, ih, length_apply]
    rfl

/-- Patches that end within `n` do not make a list longer than that. -/
theorem length_applyAll_le {ps : List (Patch α)} {c : List α} {n : ℕ} (hc : c.length ≤ n)
    (hps : ∀ p ∈ ps, p.extent ≤ n) : (applyAll z ps c).length ≤ n := by
  induction ps generalizing c with
  | nil => exact hc
  | cons p ps ih =>
    obtain ⟨hp, hps⟩ := List.forall_mem_cons.mp hps
    refine ih ?_ hps
    rw [length_apply]
    exact Nat.max_le.mpr ⟨hc, hp⟩

theorem lastCover_snoc (ps : List (Patch α)) (p : Patch α) (i : ℕ) :
    lastCover (ps ++ [p]) i = if p.Covers i then some p else lastCover ps i := by
  unfold lastCover
  rw [List.reverse_append, List.reverse_singleton, List.singleton_append, List.find?_cons]
  by_cases h : p.Covers i <;> simp [h]

/-- **Entries of an overlay.** The last patch that covers a position decides. -/
theorem getD_applyAll (ps : List (Patch α)) (c : List α) (i : ℕ) :
    (applyAll z ps c).getD i z = ((lastCover ps i).map fun p => p.entry z i).getD (c.getD i z) := by
  -- from the right: the last patch decides, or leaves the position to those before it
  induction ps using List.reverseRecOn with
  | nil => rfl
  | append_singleton ps p ih =>
    rw [applyAll_snoc, getD_apply, lastCover_snoc]
    by_cases h : p.Covers i
    · rw [if_pos h, if_pos h]
      rfl
    · rw [if_neg h, if_neg h]
      exact ih

theorem lastCover_eq_none_iff {ps : List (Patch α)} {i : ℕ} :
    lastCover ps i = none ↔ ∀ p ∈ ps, ¬ p.Covers i := by
  unfold lastCover
  rw [List.find?_eq_none]
  simp only [List.mem_reverse, decide_eq_true_eq]

/-! ### Redo -/

theorem PrefixOf.refl (w : Patch α) : PrefixOf w w := ⟨rfl, List.prefix_refl _⟩

theorem PrefixOf.covers {p w : Patch α} (h : PrefixOf p w) {i : ℕ} (hp : p.Covers i) :
    w.Covers i := by
  obtain ⟨hoff, hpre⟩ := h
  obtain ⟨h₁, h₂⟩ := hp
  have hlen := hpre.length_le
  exact ⟨by omega, by omega⟩

theorem PrefixOf.extent_le {p w : Patch α} (h : PrefixOf p w) : p.extent ≤ w.extent := by
  obtain ⟨poff, pbytes⟩ := p
  obtain ⟨woff, wbytes⟩ := w
  obtain ⟨rfl, hpre⟩ : poff = woff ∧ pbytes <+: wbytes := h
  have hlen := hpre.length_le
  cases pbytes with
  | nil => exact Nat.zero_le _
  | cons b bs =>
    cases wbytes with
    | nil => exact absurd hlen (by simp)
    | cons b' bs' =>
      change poff + (b :: bs).length ≤ poff + (b' :: bs').length
      omega

/-- A maximum that has an upper bound of `m` among its terms may start at `m`. -/
private theorem foldl_max_absorb {ns : List ℕ} {m n : ℕ} (hn : n ∈ ns) (hmn : m ≤ n) (k : ℕ) :
    ns.foldl max (max k m) = ns.foldl max k := by
  induction ns generalizing k with
  | nil => exact absurd hn List.not_mem_nil
  | cons a ns ih =>
    rcases List.mem_cons.mp hn with rfl | hn
    · have hmax : max (max k m) n = max k n := by omega
      rw [List.foldl_cons, List.foldl_cons, hmax]
    · have hmax : max (max k m) a = max (max k a) m := by omega
      rw [List.foldl_cons, List.foldl_cons, hmax]
      exact ih hn _

/-- **Redo.** In front of patches, the beginning of one of them has no effect. -/
theorem applyAll_apply_prefix {ps : List (Patch α)} {p w : Patch α} (hw : w ∈ ps)
    (hp : PrefixOf p w) (c : List α) :
    applyAll z ps (p.apply z c) = applyAll z ps c := by
  refine ext_getD z ?_ fun i => ?_
  · rw [length_applyAll, length_applyAll, length_apply]
    exact foldl_max_absorb (List.mem_map_of_mem hw) hp.extent_le _
  · rw [getD_applyAll, getD_applyAll]
    cases hcov : lastCover ps i with
    | some q => rfl
    | none =>
      -- a position that no later patch covers is not covered by the beginning of one
      have hnot : ¬ p.Covers i := fun hpi => lastCover_eq_none_iff.mp hcov w hw (hp.covers hpi)
      change (p.apply z c).getD i z = c.getD i z
      rw [getD_apply, if_neg hnot]

/-- **Absorption.** In front of patches, beginnings of them have no effect, however
many and in whatever order. -/
theorem applyAll_absorb {ps qs : List (Patch α)} (h : ∀ q ∈ qs, ∃ w ∈ ps, PrefixOf q w)
    (c : List α) : applyAll z ps (applyAll z qs c) = applyAll z ps c := by
  induction qs generalizing c with
  | nil => rfl
  | cons q qs ih =>
    obtain ⟨w, hw, hq⟩ := h q List.mem_cons_self
    rw [applyAll_cons, ih fun q' hq' => h q' (List.mem_cons_of_mem q hq')]
    exact applyAll_apply_prefix z hw hq c

/-! ### Exchanging patches -/

theorem AgreesWith.entry_eq {p q : Patch α} (h : p.AgreesWith z q) {i : ℕ} (hp : p.Covers i)
    (hq : q.Covers i) : p.entry z i = q.entry z i := by
  obtain ⟨h₁, h₂⟩ := hp
  obtain ⟨k, rfl⟩ := Nat.exists_eq_add_of_le h₁
  exact h k (by omega) hq

/-- **Exchange.** Patches that agree may be applied in either order. -/
theorem apply_comm {p q : Patch α} (h : p.AgreesWith z q) (c : List α) :
    p.apply z (q.apply z c) = q.apply z (p.apply z c) := by
  refine ext_getD z ?_ fun i => ?_
  · simp only [length_apply]
    omega
  · rw [getD_apply, getD_apply, getD_apply, getD_apply]
    by_cases hp : p.Covers i
    · by_cases hq : q.Covers i
      · rw [if_pos hp, if_pos hq, h.entry_eq z hp hq]
      · rw [if_pos hp, if_neg hq, if_pos hp]
    · rw [if_neg hp, if_neg hp]

/-- A patch moves past patches it agrees with. -/
theorem apply_applyAll {p : Patch α} {qs : List (Patch α)} (h : ∀ q ∈ qs, p.AgreesWith z q)
    (c : List α) : p.apply z (applyAll z qs c) = applyAll z qs (p.apply z c) := by
  induction qs generalizing c with
  | nil => rfl
  | cons q qs ih =>
    rw [applyAll_cons, applyAll_cons, ih fun q' hq' => h q' (List.mem_cons_of_mem q hq'),
      apply_comm z (h q List.mem_cons_self)]

end Patch

end OSLab
