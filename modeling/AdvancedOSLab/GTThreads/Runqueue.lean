import Mathlib.Data.List.Nodup
import Mathlib.Logic.Function.Basic
import AdvancedOSLab.Framework.BitMask

/-!
# The runqueue of gtthreads

A runqueue (`runqueue_t`) keeps runnable user-level threads in one FIFO queue per priority and
group. Next to the queues it keeps five redundant records of what is in them: a mask of the
non-empty priorities, for each priority a mask of its non-empty groups, for each group a mask of
its priorities, and three kinds of counters. `__add_to_runqueue` and `__rem_from_runqueue`
(`gt_pq.c`) update all of them, each under its own condition.

## The model

A pointer to a `uthread_struct_t` is the number of its allocation; what the pointer points to is
given by a table `uthreads : ℕ → Uthread`, which the two functions only read. A `TAILQ` is a list
of pointers, the masks are 32-bit words, and the counters are natural numbers: each is at most the
number of members (`Represents.counters_le`), so that the source's `unsigned int` does not wrap
around as long as there are fewer than `2 ^ 32` of them.

## What a runqueue is for

`Represents uthreads runq members` says that `runq` is a correct representation of `members`, the
list of the uthreads in it in the order in which they were inserted. The masks `uthreadGroupMask`
are written by the code but are not part of the relation: they may keep bits of queues that have
become empty, and the scheduler below does not read them.

* `Represents.add`, `Represents.rem`: insertion appends to `members`; removal of a member deletes
  it, and the assertion in `__rem_from_runqueue` holds.
* `Represents.bestUthread`: the scan over the two masks finds the member that was inserted first
  among those of the least group in the least priority (`BestOf`).
-/

namespace OSLab

namespace GTThreads

open BitMask

/-- `MAX_UTHREAD_PRIORITY`. -/
abbrev maxUthreadPriority : ℕ := 32

/-- `MAX_UTHREAD_GROUPS`. -/
abbrev maxUthreadGroups : ℕ := 32

instance : NeZero maxUthreadGroups := ⟨by decide⟩

/-- `DEFAULT_UTHREAD_PRIORITY`. -/
def defaultUthreadPriority : Fin maxUthreadPriority := 16

/-- The values of `uthread_state`. -/
inductive UthreadState where
  | init
  | runnable
  | running
  | cancelled
  | done
deriving DecidableEq, Repr

/-- The fields of `uthread_struct_t` that creation and scheduling read or write. A `timeval` is a
number of microseconds. -/
structure Uthread where
  uthreadState : UthreadState
  uthreadPriority : Fin maxUthreadPriority
  cpuId : ℕ
  lastCpuId : ℕ
  uthreadTid : ℕ
  uthreadGid : Fin maxUthreadGroups
  initialCredits : ℤ
  credits : ℤ
  runTimeTotal : ℤ
  runTimeStep : ℤ
  startRunningTimeStep : ℤ
  endRunningTimeStep : ℤ
  totalRunningTimeStart : ℤ
  totalRunningTimeEnd : ℤ
  isYieldValid : Bool
deriving DecidableEq, Repr

/-- `prio_struct_t`: the queues of one priority. -/
structure PrioStruct where
  /-- Bit `g`: group `g` has at least one uthread. -/
  groupMask : BitVec maxUthreadGroups
  group : Fin maxUthreadGroups → List ℕ

/-- `runqueue_t`. -/
structure Runqueue where
  /-- Bit `p`: priority `p` has at least one uthread. -/
  uthreadMask : BitVec maxUthreadPriority
  uthreadTot : ℕ
  uthreadPrioTot : Fin maxUthreadPriority → ℕ
  uthreadGroupMask : Fin maxUthreadGroups → BitVec maxUthreadPriority
  uthreadGroupTot : Fin maxUthreadGroups → ℕ
  prioArray : Fin maxUthreadPriority → PrioStruct

namespace Runqueue

/-- A runqueue after `init_runqueue`: its memory is zero and every queue is empty. -/
def initRunqueue : Runqueue where
  uthreadMask := 0
  uthreadTot := 0
  uthreadPrioTot _ := 0
  uthreadGroupMask _ := 0
  uthreadGroupTot _ := 0
  prioArray _ := { groupMask := 0, group := fun _ => [] }

/-- The queue of priority `p` and group `g`. -/
def queue (runq : Runqueue) (p : Fin maxUthreadPriority) (g : Fin maxUthreadGroups) : List ℕ :=
  (runq.prioArray p).group g

/-- `__add_to_runqueue`. -/
def addToRunqueue (uthreads : ℕ → Uthread) (runq : Runqueue) (uElem : ℕ) : Runqueue :=
  let uprio := (uthreads uElem).uthreadPriority
  let ugroup := (uthreads uElem).uthreadGid
  let prioq := runq.prioArray uprio
  { prioArray := Function.update runq.prioArray uprio
      { group := Function.update prioq.group ugroup (prioq.group ugroup ++ [uElem])
        groupMask :=
          if isBitSet prioq.groupMask ugroup then prioq.groupMask
          else setBit prioq.groupMask ugroup }
    uthreadTot := runq.uthreadTot + 1
    uthreadPrioTot :=
      Function.update runq.uthreadPrioTot uprio (runq.uthreadPrioTot uprio + 1)
    uthreadMask :=
      if isBitSet runq.uthreadMask uprio then runq.uthreadMask
      else setBit runq.uthreadMask uprio
    uthreadGroupTot :=
      Function.update runq.uthreadGroupTot ugroup (runq.uthreadGroupTot ugroup + 1)
    uthreadGroupMask := Function.update runq.uthreadGroupMask ugroup
      (if isBitSet (runq.uthreadGroupMask ugroup) uprio then runq.uthreadGroupMask ugroup
        else setBit (runq.uthreadGroupMask ugroup) uprio) }

/-- `__rem_from_runqueue`, or `none` if its assertion fails. `TAILQ_REMOVE` unlinks an element of
the queue; nothing is known of it for an element that is not linked there. -/
def remFromRunqueue (uthreads : ℕ → Uthread) (runq : Runqueue) (uElem : ℕ) : Option Runqueue :=
  let uprio := (uthreads uElem).uthreadPriority
  let ugroup := (uthreads uElem).uthreadGid
  let prioq := runq.prioArray uprio
  let uhead := (prioq.group ugroup).erase uElem
  let prioTot := runq.uthreadPrioTot uprio - 1
  let groupTot := runq.uthreadGroupTot ugroup - 1
  -- `assert(TAILQ_EMPTY(uhead))` when the group has no uthread left
  if groupTot = 0 ∧ uhead ≠ [] then none
  else some
    { prioArray := Function.update runq.prioArray uprio
        { group := Function.update prioq.group ugroup uhead
          groupMask :=
            if uhead = [] then resetBit prioq.groupMask ugroup else prioq.groupMask }
      uthreadTot := runq.uthreadTot - 1
      uthreadPrioTot := Function.update runq.uthreadPrioTot uprio prioTot
      uthreadMask :=
        if prioTot = 0 then resetBit runq.uthreadMask uprio else runq.uthreadMask
      uthreadGroupTot := Function.update runq.uthreadGroupTot ugroup groupTot
      uthreadGroupMask := Function.update runq.uthreadGroupMask ugroup
        (if groupTot = 0 then resetBit (runq.uthreadGroupMask ugroup) uprio
          else runq.uthreadGroupMask ugroup) }

/-- The scan of `sched_find_best_uthread` over a runqueue: the head of the lowest group of the
lowest priority. It is `none` where the source scans a zero mask, fails its assertion on the group
mask, or finds no uthread at the head. -/
def bestUthread (runq : Runqueue) : Option ℕ := do
  let uprio ← lowestBitSet runq.uthreadMask
  let prioq := runq.prioArray uprio
  if prioq.groupMask = 0 then none
  else
    let ugroup ← lowestBitSet prioq.groupMask
    (prioq.group ugroup).head?

/-! ### The members of a runqueue -/

section Members

variable (uthreads : ℕ → Uthread)

/-- `u` belongs into the queue of priority `p` and group `g`. -/
def BelongsTo (p : Fin maxUthreadPriority) (g : Fin maxUthreadGroups) (u : ℕ) : Prop :=
  (uthreads u).uthreadPriority = p ∧ (uthreads u).uthreadGid = g

instance (p : Fin maxUthreadPriority) (g : Fin maxUthreadGroups) :
    DecidablePred (BelongsTo uthreads p g) :=
  fun _ => inferInstanceAs (Decidable (_ ∧ _))

/-- `runq` represents the uthreads `members`, listed in the order of their insertion. -/
structure Represents (runq : Runqueue) (members : List ℕ) : Prop where
  nodup : members.Nodup
  queue_eq : ∀ p g, runq.queue p g = members.filter (BelongsTo uthreads p g)
  uthreadTot_eq : runq.uthreadTot = members.length
  uthreadPrioTot_eq : ∀ p, runq.uthreadPrioTot p =
    members.countP fun u => (uthreads u).uthreadPriority = p
  uthreadGroupTot_eq : ∀ g, runq.uthreadGroupTot g =
    members.countP fun u => (uthreads u).uthreadGid = g
  marks_uthreadMask : Marks runq.uthreadMask fun p =>
    ∃ u ∈ members, (uthreads u).uthreadPriority = p
  marks_groupMask : ∀ p, Marks (runq.prioArray p).groupMask fun g =>
    ∃ u ∈ members, BelongsTo uthreads p g u

/-- `u` is the member to run next: its priority is the least of all members, its group the least
within its priority, and it was inserted first among those of its priority and group. -/
structure BestOf (members : List ℕ) (u : ℕ) : Prop where
  first : members.find?
    (BelongsTo uthreads (uthreads u).uthreadPriority (uthreads u).uthreadGid) = some u
  priority_le : ∀ v ∈ members, (uthreads u).uthreadPriority ≤ (uthreads v).uthreadPriority
  group_le : ∀ v ∈ members, (uthreads v).uthreadPriority = (uthreads u).uthreadPriority →
    (uthreads u).uthreadGid ≤ (uthreads v).uthreadGid

end Members

variable {uthreads uthreads' : ℕ → Uthread} {runq runq' : Runqueue} {members : List ℕ} {u : ℕ}

namespace Represents

theorem initRunqueue : Represents uthreads initRunqueue [] where
  nodup := List.nodup_nil
  queue_eq _ _ := rfl
  uthreadTot_eq := rfl
  uthreadPrioTot_eq _ := rfl
  uthreadGroupTot_eq _ := rfl
  marks_uthreadMask := Marks.zero (by simp)
  marks_groupMask _ := Marks.zero (by simp)

/-- No counter exceeds the number of members. -/
theorem counters_le (h : Represents uthreads runq members) :
    runq.uthreadTot ≤ members.length ∧ (∀ p, runq.uthreadPrioTot p ≤ members.length) ∧
      ∀ g, runq.uthreadGroupTot g ≤ members.length :=
  ⟨h.uthreadTot_eq.le, fun p => h.uthreadPrioTot_eq p ▸ List.countP_le_length,
    fun g => h.uthreadGroupTot_eq g ▸ List.countP_le_length⟩

theorem mem_queue (h : Represents uthreads runq members) (p : Fin maxUthreadPriority)
    (g : Fin maxUthreadGroups) : u ∈ runq.queue p g ↔ u ∈ members ∧ BelongsTo uthreads p g u := by
  rw [h.queue_eq, List.mem_filter, decide_eq_true_eq]

theorem queue_ne_nil_iff (h : Represents uthreads runq members) {p : Fin maxUthreadPriority}
    {g : Fin maxUthreadGroups} :
    runq.queue p g ≠ [] ↔ ∃ v ∈ members, BelongsTo uthreads p g v := by
  rw [h.queue_eq, Ne, List.filter_eq_nil_iff]
  simp

/-- The members are the uthreads of the queues. -/
theorem mem_iff (h : Represents uthreads runq members) :
    (∃ p g, u ∈ runq.queue p g) ↔ u ∈ members := by
  constructor
  · rintro ⟨p, g, hu⟩
    exact ((h.mem_queue p g).mp hu).1
  · intro hu
    exact ⟨_, _, (h.mem_queue _ _).mpr ⟨hu, rfl, rfl⟩⟩

theorem uthreadMask_eq_zero_iff (h : Represents uthreads runq members) :
    runq.uthreadMask = BitVec.ofNat maxUthreadPriority 0 ↔ members = [] := by
  refine h.marks_uthreadMask.eq_zero_iff.trans ⟨fun hnone => ?_, ?_⟩
  · exact List.eq_nil_iff_forall_not_mem.mpr fun u hu => hnone _ ⟨u, hu, rfl⟩
  · rintro rfl p ⟨u, hu, -⟩
    exact absurd hu (by simp)

/-- Only the priorities and groups of the members matter: the scheduler writes the other fields of
a uthread while it is queued. -/
theorem congr (h : Represents uthreads runq members)
    (hprio : ∀ u ∈ members, (uthreads' u).uthreadPriority = (uthreads u).uthreadPriority)
    (hgid : ∀ u ∈ members, (uthreads' u).uthreadGid = (uthreads u).uthreadGid) :
    Represents uthreads' runq members := by
  have hbelongs : ∀ p g, ∀ u ∈ members, BelongsTo uthreads' p g u ↔ BelongsTo uthreads p g u :=
    fun p g u hu => by rw [BelongsTo, BelongsTo, hprio u hu, hgid u hu]
  refine ⟨h.nodup, fun p g => ?_, h.uthreadTot_eq, fun p => ?_, fun g => ?_, ?_, fun p => ?_⟩
  · -- the queues are filters by priority and group
    rw [h.queue_eq]
    exact List.filter_congr fun u hu => by rw [decide_eq_decide, hbelongs p g u hu]
  · rw [h.uthreadPrioTot_eq]
    exact List.countP_congr fun u hu => by rw [decide_eq_true_eq, decide_eq_true_eq, hprio u hu]
  · rw [h.uthreadGroupTot_eq]
    exact List.countP_congr fun u hu => by rw [decide_eq_true_eq, decide_eq_true_eq, hgid u hu]
  · exact h.marks_uthreadMask.congr fun p =>
      exists_congr fun u => and_congr_right fun hu => by rw [hprio u hu]
  · exact (h.marks_groupMask p).congr fun g =>
      exists_congr fun u => and_congr_right fun hu => (hbelongs p g u hu).symm

/-! ### Insertion -/

/-- Inserting a uthread that is not queued appends it to the members. -/
theorem add (h : Represents uthreads runq members) (hu : u ∉ members) :
    Represents uthreads (addToRunqueue uthreads runq u) (members ++ [u]) where
  nodup := List.nodup_append.mpr
    ⟨h.nodup, List.nodup_singleton u, fun a ha b hb hab => hu (by simp_all)⟩
  queue_eq p g := by
    have hqueue := h.queue_eq p g
    simp only [queue] at hqueue
    rw [List.filter_append, ← hqueue]
    simp only [queue, addToRunqueue, Function.update_apply]
    -- only the queue of `u` changes, and `u` is in no other filter
    by_cases hp : p = (uthreads u).uthreadPriority
    · subst hp
      by_cases hg : g = (uthreads u).uthreadGid
      · subst hg
        simp [BelongsTo]
      · simp [BelongsTo, hg, Ne.symm hg]
    · simp [BelongsTo, hp, Ne.symm hp]
  uthreadTot_eq := by simp [addToRunqueue, h.uthreadTot_eq]
  uthreadPrioTot_eq p := by
    -- both counts grow by one at the priority of `u`
    simp only [addToRunqueue, Function.update_apply, List.countP_append, ← h.uthreadPrioTot_eq,
      List.countP_singleton, decide_eq_true_eq]
    grind
  uthreadGroupTot_eq g := by
    simp only [addToRunqueue, Function.update_apply, List.countP_append, ← h.uthreadGroupTot_eq,
      List.countP_singleton, decide_eq_true_eq]
    grind
  -- the source sets the bit only when it is not set, which makes no difference
  marks_uthreadMask := (h.marks_uthreadMask.setBit _).congr fun p => by
    simp only [List.mem_append, List.mem_singleton, or_and_right, exists_or, exists_eq_left]
    rw [eq_comm]
  marks_groupMask p := by
    have hmarks := h.marks_groupMask p
    simp only [addToRunqueue, Function.update_apply]
    split
    · next hp =>
      subst hp
      refine (hmarks.setBit _).congr fun g => ?_
      simp only [List.mem_append, List.mem_singleton, or_and_right, exists_or, exists_eq_left,
        BelongsTo, true_and]
      rw [eq_comm]
    · next hp =>
      refine hmarks.congr fun g => ?_
      simp only [List.mem_append, List.mem_singleton, or_and_right, exists_or, exists_eq_left]
      exact (or_iff_left fun hbelongs : BelongsTo uthreads p g u => hp hbelongs.1.symm).symm

/-! ### Removal -/

/-- What is left in a queue when `u` is unlinked from it. -/
theorem erase_queue (h : Represents uthreads runq members) (p : Fin maxUthreadPriority)
    (g : Fin maxUthreadGroups) :
    (runq.queue p g).erase u = (members.erase u).filter (BelongsTo uthreads p g) := by
  rw [h.queue_eq, List.erase_filter]

/-- A queue into which `u` does not belong keeps its uthreads when `u` is removed. -/
theorem queue_eq_of_not_belongsTo (h : Represents uthreads runq members)
    {p : Fin maxUthreadPriority} {g : Fin maxUthreadGroups} (hu : ¬ BelongsTo uthreads p g u) :
    runq.queue p g = (members.erase u).filter (BelongsTo uthreads p g) := by
  rw [← h.erase_queue, List.erase_of_not_mem fun hmem => hu ((h.mem_queue p g).mp hmem).2]

/-- The member counts after a removal, for any condition the counter is about. -/
theorem countP_erase_of_mem (hu : u ∈ members) (P : ℕ → Prop) [DecidablePred P] :
    members.countP P = (members.erase u).countP P + if P u then 1 else 0 := by
  have hperm := (List.perm_cons_erase hu).countP_eq fun v => decide (P v)
  rw [hperm, List.countP_cons]
  simp only [decide_eq_true_eq]

theorem uthreadPrioTot_sub_one (h : Represents uthreads runq members) (hu : u ∈ members) :
    runq.uthreadPrioTot (uthreads u).uthreadPriority - 1 = (members.erase u).countP
      fun v => (uthreads v).uthreadPriority = (uthreads u).uthreadPriority := by
  rw [h.uthreadPrioTot_eq, countP_erase_of_mem hu, if_pos rfl, Nat.add_sub_cancel]

theorem uthreadGroupTot_sub_one (h : Represents uthreads runq members) (hu : u ∈ members) :
    runq.uthreadGroupTot (uthreads u).uthreadGid - 1 =
      (members.erase u).countP fun v => (uthreads v).uthreadGid = (uthreads u).uthreadGid := by
  rw [h.uthreadGroupTot_eq, countP_erase_of_mem hu, if_pos rfl, Nat.add_sub_cancel]

/-- The assertion of `__rem_from_runqueue`: a group without members has nothing left in the queue
of the priority of the uthread that was removed. -/
theorem erase_eq_nil_of_uthreadGroupTot (h : Represents uthreads runq members) (hu : u ∈ members)
    (hzero : runq.uthreadGroupTot (uthreads u).uthreadGid - 1 = 0) (p : Fin maxUthreadPriority) :
    (runq.queue p (uthreads u).uthreadGid).erase u = [] := by
  rw [h.uthreadGroupTot_sub_one hu, List.countP_eq_zero] at hzero
  rw [h.erase_queue, List.filter_eq_nil_iff]
  exact fun v hv hbelongs => hzero v hv (decide_eq_true (of_decide_eq_true hbelongs).2)

/-- The mask of the priorities after a removal. -/
theorem marks_uthreadMask_erase (h : Represents uthreads runq members) (hu : u ∈ members) :
    Marks
      (if runq.uthreadPrioTot (uthreads u).uthreadPriority - 1 = 0
        then resetBit runq.uthreadMask (uthreads u).uthreadPriority else runq.uthreadMask)
      fun p => ∃ v ∈ members.erase u, (uthreads v).uthreadPriority = p := by
  refine h.marks_uthreadMask.resetBit ?_ ?_ fun p hp => ?_
  · rw [h.uthreadPrioTot_sub_one hu, List.countP_eq_zero]
    simp
  · rintro ⟨v, hv, hprio⟩
    exact ⟨v, List.mem_of_mem_erase hv, hprio⟩
  · -- the other priorities have the members they had
    refine exists_congr fun v => and_congr_left fun hprio => ?_
    exact List.mem_erase_of_ne fun hvu => hp (hvu ▸ hprio.symm)

/-- The mask of the groups of the priority of `u` after its removal. -/
theorem marks_groupMask_erase (h : Represents uthreads runq members) :
    Marks
      (if (runq.queue (uthreads u).uthreadPriority (uthreads u).uthreadGid).erase u = []
        then resetBit (runq.prioArray (uthreads u).uthreadPriority).groupMask
          (uthreads u).uthreadGid
        else (runq.prioArray (uthreads u).uthreadPriority).groupMask)
      fun g => ∃ v ∈ members.erase u, BelongsTo uthreads (uthreads u).uthreadPriority g v := by
  refine (h.marks_groupMask _).resetBit ?_ ?_ fun g hg => ?_
  · rw [h.erase_queue, List.filter_eq_nil_iff]
    simp
  · rintro ⟨v, hv, hbelongs⟩
    exact ⟨v, List.mem_of_mem_erase hv, hbelongs⟩
  · refine exists_congr fun v => and_congr_left fun hbelongs => ?_
    exact List.mem_erase_of_ne fun hvu => hg (hvu ▸ hbelongs.2.symm)

/-- Removing a member: the assertion holds, and the members lose exactly that uthread. -/
theorem rem (h : Represents uthreads runq members) (hu : u ∈ members) :
    ∃ runq', remFromRunqueue uthreads runq u = some runq' ∧
      Represents uthreads runq' (members.erase u) := by
  -- the assertion is about an empty group, and an empty group has empty queues
  refine ⟨_, if_neg fun hfails => hfails.2 (h.erase_eq_nil_of_uthreadGroupTot hu hfails.1 _), ?_⟩
  refine ⟨h.nodup.erase u, fun p g => ?_, ?_, fun p => ?_, fun g => ?_,
    h.marks_uthreadMask_erase hu, fun p => ?_⟩
  · -- only the queue of `u` is written
    have hself := h.erase_queue (u := u) p g
    have hother : ¬ BelongsTo uthreads p g u → _ := h.queue_eq_of_not_belongsTo
    simp only [queue, Function.update_apply] at hself hother ⊢
    by_cases hp : p = (uthreads u).uthreadPriority
    · subst hp
      by_cases hg : g = (uthreads u).uthreadGid
      · subst hg
        simpa using hself
      · simpa [hg] using hother fun hbelongs => hg hbelongs.2.symm
    · simpa [hp] using hother fun hbelongs => hp hbelongs.1.symm
  · simp only [h.uthreadTot_eq, List.length_erase_of_mem hu]
  · simp only [Function.update_apply, h.uthreadPrioTot_sub_one hu]
    split
    · next hp => rw [hp]
    · next hp => rw [h.uthreadPrioTot_eq, countP_erase_of_mem hu, if_neg (Ne.symm hp), add_zero]
  · simp only [Function.update_apply, h.uthreadGroupTot_sub_one hu]
    split
    · next hg => rw [hg]
    · next hg => rw [h.uthreadGroupTot_eq, countP_erase_of_mem hu, if_neg (Ne.symm hg), add_zero]
  · -- only the group mask of the priority of `u` is written
    simp only [Function.update_apply]
    split
    · next hp =>
      subst hp
      exact h.marks_groupMask_erase
    · next hp =>
      refine (h.marks_groupMask p).congr fun g => ?_
      refine exists_congr fun v => and_congr_left fun hbelongs => ?_
      exact (List.mem_erase_of_ne fun hvu : v = u => hp (hvu ▸ hbelongs.1.symm)).symm

/-- The queue of the uthread removed loses it; the other queues keep their uthreads in order. -/
theorem queue_of_erase (h : Represents uthreads runq members)
    (h' : Represents uthreads runq' (members.erase u)) (p : Fin maxUthreadPriority)
    (g : Fin maxUthreadGroups) :
    runq'.queue p g =
      if BelongsTo uthreads p g u then (runq.queue p g).erase u else runq.queue p g := by
  rw [h'.queue_eq]
  split
  · exact (h.erase_queue p g).symm
  · next hnot => exact (h.queue_eq_of_not_belongsTo hnot).symm

/-! ### The next uthread to run -/

/-- The scan of a runqueue that is not empty finds the member to run next. -/
theorem bestUthread (h : Represents uthreads runq members) (hne : members ≠ []) :
    ∃ u ∈ members, runq.bestUthread = some u ∧ BestOf uthreads members u := by
  obtain ⟨v, hv⟩ := List.exists_mem_of_ne_nil members hne
  -- the least priority that has a member
  obtain ⟨p, hp, ⟨w, hw, hwp⟩, -⟩ := h.marks_uthreadMask.exists_lowestBitSet ⟨v, hv, rfl⟩
  have hpleast := (h.marks_uthreadMask.lowestBitSet_eq_some.mp hp).2
  -- the least group that has a member of this priority
  have hmarks := h.marks_groupMask p
  obtain ⟨g, hg, ⟨x, hx, hxg⟩, -⟩ := hmarks.exists_lowestBitSet ⟨w, hw, hwp, rfl⟩
  have hgleast := (hmarks.lowestBitSet_eq_some.mp hg).2
  have hmask : (runq.prioArray p).groupMask ≠ 0 := fun hzero =>
    hmarks.eq_zero_iff.mp hzero g ⟨x, hx, hxg⟩
  -- the head of its queue
  obtain ⟨u, hu⟩ : ∃ u, members.find? (BelongsTo uthreads p g) = some u :=
    Option.isSome_iff_exists.mp (List.find?_isSome.mpr ⟨x, hx, decide_eq_true hxg⟩)
  have hmem : u ∈ members := List.mem_of_find?_eq_some hu
  obtain ⟨hup, hug⟩ : BelongsTo uthreads p g u := by simpa using List.find?_some hu
  have hhead : ((runq.prioArray p).group g).head? = some u := by
    rw [← hu, ← List.head?_filter]
    exact congrArg List.head? (h.queue_eq p g)
  refine ⟨u, hmem, ?_, ?_, fun y hy => ?_, fun y hy hyp => ?_⟩
  · simp only [Runqueue.bestUthread, hp, hg, Option.bind_eq_bind, Option.bind_some, if_neg hmask,
      hhead]
  · rw [hup, hug]
    exact hu
  · -- a member of a lower priority would have its bit set in the mask
    exact not_lt.mp fun hlt => hpleast _ (hup ▸ hlt) ⟨y, hy, rfl⟩
  · exact not_lt.mp fun hlt => hgleast _ (hug ▸ hlt) ⟨y, hy, hyp.trans hup, rfl⟩

end Represents

end Runqueue

end GTThreads

end OSLab
