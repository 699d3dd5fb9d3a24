import AdvancedOSLab.Framework.TailQueue
import AdvancedOSLab.GTThreads.Schedule

/-!
# The scheduler on linked queues

`Schedule.lean` keeps the uthreads of a queue in a list. In memory there are no lists: there are
the heads of the queues, and in every `uthread_struct_t` one pair of links, `uthread_runq`, which
the active, the expired and the zombie queues of all kthreads share. A comment in `gt_pq.h` says
that this "is perfectly fine since active/expires/zombie are mutually exclusive". This module is
the scheduler on that representation; `Linked.lean` shows that the comment is right.

* `Queues` is the memory of the queues: the masks and counters of each `runqueue_t`, and the links
  (`TailQueue.Links`) of all heads and all uthreads.
* `active_runq` and `expires_runq` are pointers into the array `runqueues[2]` of a kthread, and an
  exchange of the runqueues is an exchange of these pointers.
* The functions are those of `Schedule.lean`, statement by statement, with the `TAILQ` macros in
  place of the list operations. What does not touch a queue is shared with it: the charge of a
  slice, the choice between the two runqueues, the record of a new uthread. The labels of a step
  are the same.
-/

namespace OSLab

namespace GTThreads

namespace Linked

open BitMask TailQueue

/-! ### The memory of the queues -/

/-- The address of a runqueue: `krunqueue.runqueues[index]` of the kthread at a slot. -/
structure RunqPtr where
  kthread : Fin gtMaxCores
  index : Bool
deriving DecidableEq, Repr

/-- The heads of the queues: `prio_array[p].group[g]` of a runqueue, and `zombie_uthreads` of a
kthread. -/
inductive Head where
  | group (runq : RunqPtr) (p : Fin maxUthreadPriority) (g : Fin maxUthreadGroups)
  | zombies (k : Fin gtMaxCores)
deriving DecidableEq, Repr

/-- `runqueue_t` without the heads of its queues. -/
structure Runq where
  uthreadMask : BitVec maxUthreadPriority
  uthreadTot : ℕ
  uthreadPrioTot : Fin maxUthreadPriority → ℕ
  uthreadGroupMask : Fin maxUthreadGroups → BitVec maxUthreadPriority
  uthreadGroupTot : Fin maxUthreadGroups → ℕ
  /-- `prio_array[p].group_mask`. -/
  groupMask : Fin maxUthreadPriority → BitVec maxUthreadGroups

/-- The runqueues and the links. -/
structure Queues where
  runqs : RunqPtr → Runq
  links : Links Head ℕ

namespace Queues

/-- `__add_to_runqueue`. -/
def addToRunqueue (uthreads : ℕ → Uthread) (q : Queues) (runq : RunqPtr) (uElem : ℕ) : Queues :=
  let uprio := (uthreads uElem).uthreadPriority
  let ugroup := (uthreads uElem).uthreadGid
  let r := q.runqs runq
  { links := q.links.insertTail (.group runq uprio ugroup) uElem
    runqs := Function.update q.runqs runq
      { groupMask := Function.update r.groupMask uprio
          (if isBitSet (r.groupMask uprio) ugroup then r.groupMask uprio
            else setBit (r.groupMask uprio) ugroup)
        uthreadTot := r.uthreadTot + 1
        uthreadPrioTot := Function.update r.uthreadPrioTot uprio (r.uthreadPrioTot uprio + 1)
        uthreadMask :=
          if isBitSet r.uthreadMask uprio then r.uthreadMask else setBit r.uthreadMask uprio
        uthreadGroupTot := Function.update r.uthreadGroupTot ugroup (r.uthreadGroupTot ugroup + 1)
        uthreadGroupMask := Function.update r.uthreadGroupMask ugroup
          (if isBitSet (r.uthreadGroupMask ugroup) uprio then r.uthreadGroupMask ugroup
            else setBit (r.uthreadGroupMask ugroup) uprio) } }

/-- `__rem_from_runqueue`, or `none` if its assertion fails. -/
def remFromRunqueue (uthreads : ℕ → Uthread) (q : Queues) (runq : RunqPtr) (uElem : ℕ) :
    Option Queues :=
  let uprio := (uthreads uElem).uthreadPriority
  let ugroup := (uthreads uElem).uthreadGid
  let uhead := Head.group runq uprio ugroup
  let links := q.links.remove uhead uElem
  let r := q.runqs runq
  let prioTot := r.uthreadPrioTot uprio - 1
  let groupTot := r.uthreadGroupTot ugroup - 1
  if groupTot = 0 ∧ ¬ links.isEmpty uhead then none
  else some
    { links := links
      runqs := Function.update q.runqs runq
        { groupMask := Function.update r.groupMask uprio
            (if links.isEmpty uhead then resetBit (r.groupMask uprio) ugroup
              else r.groupMask uprio)
          uthreadTot := r.uthreadTot - 1
          uthreadPrioTot := Function.update r.uthreadPrioTot uprio prioTot
          uthreadMask := if prioTot = 0 then resetBit r.uthreadMask uprio else r.uthreadMask
          uthreadGroupTot := Function.update r.uthreadGroupTot ugroup groupTot
          uthreadGroupMask := Function.update r.uthreadGroupMask ugroup
            (if groupTot = 0 then resetBit (r.uthreadGroupMask ugroup) uprio
              else r.uthreadGroupMask ugroup) } }

/-- The scan of `sched_find_best_uthread` over a runqueue. -/
def bestUthread (q : Queues) (runq : RunqPtr) : Option ℕ := do
  let uprio ← lowestBitSet (q.runqs runq).uthreadMask
  let groupMask := (q.runqs runq).groupMask uprio
  if groupMask = 0 then none
  else
    let ugroup ← lowestBitSet groupMask
    q.links.first (.group runq uprio ugroup)

/-- The best uthread of a runqueue, together with the queues after its removal. -/
def takeBest (uthreads : ℕ → Uthread) (q : Queues) (runq : RunqPtr) : Option (ℕ × Queues) := do
  let uObj ← q.bestUthread runq
  let q ← q.remFromRunqueue uthreads runq uObj
  return (uObj, q)

end Queues

/-! ### The scheduler -/

/-- The part of `kthread_context_t` that scheduling uses, with the pointers to its runqueues. -/
structure Kthread where
  cpuid : ℕ
  kthreadDone : Bool
  activeRunq : RunqPtr
  expiresRunq : RunqPtr
  curUthread : Option ℕ

/-- The type of `kthread_cpu_map`. -/
abbrev CpuMap : Type := Fin gtMaxCores → Option Kthread

/-- The kthreads, the uthreads, their queues and the shared information of the scheduler. -/
structure State where
  kthreadCpuMap : CpuMap
  queues : Queues
  uthreads : ℕ → Uthread
  uthreadTime : ℕ → UthreadTimer
  kthreadTotUthreads : ℕ
  kthreadCurUthreads : ℕ
  lastUgroupKthread : Fin maxUthreadGroups → ℕ

/-- The steal loop. -/
def stealVictim (kthreadCpuMap : CpuMap) (q : Queues) :
    List (Fin gtMaxCores) → Option (Option (Fin gtMaxCores × Kthread))
  | [] => some none
  | i :: slots => do
    let other ← kthreadCpuMap i
    if other.kthreadDone then stealVictim kthreadCpuMap q slots
    else if (q.runqs other.activeRunq).uthreadMask ≠ 0 then some (some (i, other))
    else stealVictim kthreadCpuMap q slots

/-- The kthread that an idle kthread with this number steals from, if any. -/
def findVictim (flags : Flags) (kthreadCpuMap : CpuMap) (q : Queues) (cpuid : ℕ) :
    Option (Option (Fin gtMaxCores × Kthread)) :=
  if flags.steals then stealVictim kthreadCpuMap q (stealSlots cpuid) else some none

/-- The kthread with its two pointers exchanged. -/
def Kthread.exchanged (kt : Kthread) : Kthread :=
  { kt with activeRunq := kt.expiresRunq, expiresRunq := kt.activeRunq }

/-- `sched_find_best_uthread`, called by the kthread at slot `k`. -/
def schedFindBestUthread (flags : Flags) (uthreads : ℕ → Uthread) (kthreadCpuMap : CpuMap)
    (q : Queues) (k : Fin gtMaxCores) : Option (Option ℕ × CpuMap × Queues) := do
  let kt ← kthreadCpuMap k
  let runq := kt.activeRunq
  if (q.runqs runq).uthreadMask ≠ 0 then
    let (uObj, q) ← q.takeBest uthreads runq
    return (some uObj, kthreadCpuMap, q)
  else if (q.runqs runq).uthreadTot ≠ 0 then none
  else
    let victim ← findVictim flags kthreadCpuMap q kt.cpuid
    match victim with
    | some (_, other) =>
      let (uObj, q) ← q.takeBest uthreads other.activeRunq
      let q ← (q.addToRunqueue uthreads runq uObj).remFromRunqueue uthreads runq uObj
      return (some uObj, kthreadCpuMap, q)
    | none =>
      let kt := kt.exchanged
      let kthreadCpuMap := Function.update kthreadCpuMap k (some kt)
      let runq := kt.expiresRunq
      if (q.runqs runq).uthreadMask = 0 then
        if (q.runqs runq).uthreadTot ≠ 0 then none
        else return (none, kthreadCpuMap, q)
      else
        let (uObj, q) ← q.takeBest uthreads runq
        return (some uObj, kthreadCpuMap, q)

/-- The search loop of `ksched_find_target`, for at most `fuel` turns. -/
def searchTarget (kthreadCpuMap : CpuMap) : ℕ → ℕ → Option (Fin gtMaxCores)
  | 0, _ => none
  | fuel + 1, targetCpu =>
    let targetCpu := Fin.ofNat gtMaxCores (targetCpu + 1)
    if (kthreadCpuMap targetCpu).isSome then some targetCpu
    else searchTarget kthreadCpuMap fuel targetCpu

/-- `uthread_create`. -/
def uthreadCreate (uGid : Fin maxUthreadGroups) (credits now : ℤ) (s : State) : Option State := do
  let tid := s.kthreadTotUthreads
  let target ← searchTarget s.kthreadCpuMap gtMaxCores (s.lastUgroupKthread uGid)
  let kt ← s.kthreadCpuMap target
  let uthreads := Function.update s.uthreads tid (newUthread tid uGid credits now kt.cpuid)
  some
    { kthreadCpuMap := s.kthreadCpuMap
      queues := s.queues.addToRunqueue uthreads kt.activeRunq tid
      uthreads := uthreads
      uthreadTime := Function.update s.uthreadTime tid { runningTime := 0, cpuTime := 0 }
      kthreadTotUthreads := s.kthreadTotUthreads + 1
      kthreadCurUthreads := s.kthreadCurUthreads + 1
      lastUgroupKthread := Function.update s.lastUgroupKthread uGid target }

/-- The pointer to one of the runqueues of a kthread. -/
def Kthread.runq (kt : Kthread) : Side → RunqPtr
  | .active => kt.activeRunq
  | .expires => kt.expiresRunq

/-- The first half of `uthread_schedule`: the current uthread `u` is charged and put away. -/
def retireCurrent (flags : Flags) (k : Fin gtMaxCores) (kt : Kthread) (u : ℕ) (stop : ℤ)
    (s : State) : State :=
  let uObj := chargeCredits flags stop (s.uthreads u)
  let kthreadCpuMap := Function.update s.kthreadCpuMap k (some { kt with curUthread := none })
  if uObj.ended then
    let total := uObj.totalRunningTimeEnd - uObj.totalRunningTimeStart
    { s with
      kthreadCpuMap := kthreadCpuMap
      uthreads := Function.update s.uthreads u
        (if flags.isCreditScheduler then { uObj with runTimeTotal := total } else uObj)
      uthreadTime :=
        if flags.isCreditScheduler then
          Function.update s.uthreadTime uObj.uthreadTid
            { runningTime := total, cpuTime := uObj.runTimeTotal }
        else s.uthreadTime
      -- the zombie queue uses the same links as the runqueues
      queues := { s.queues with links := s.queues.links.insertTail (.zombies k) u }
      kthreadCurUthreads := s.kthreadCurUthreads - 1 }
  else
    let uthreads := Function.update s.uthreads u (requeue flags uObj).2
    { s with
      kthreadCpuMap := kthreadCpuMap
      uthreads := uthreads
      queues := s.queues.addToRunqueue uthreads (kt.runq (requeue flags uObj).1) u }

/-- The current uthread of the kthread, if there is one, is put away. -/
def putAway (flags : Flags) (k : Fin gtMaxCores) (kt : Kthread) (stop : ℤ) (s : State) : State :=
  match kt.curUthread with
  | some u => retireCurrent flags k kt u stop s
  | none => s

/-- The end of `uthread_schedule` when there is a uthread to run. -/
def dispatch (k : Fin gtMaxCores) (u : ℕ) (start : ℤ) (s : State) : State :=
  { s with
    kthreadCpuMap := Function.update s.kthreadCpuMap k ((s.kthreadCpuMap k).map fun kt =>
      { kt with curUthread := some u })
    uthreads := Function.update s.uthreads u
      { s.uthreads u with uthreadState := .running, startRunningTimeStep := start } }

/-- The end of `uthread_schedule` when there is none. -/
def quitTest (k : Fin gtMaxCores) (s : State) : State :=
  if s.kthreadTotUthreads ≠ 0 ∧ s.kthreadCurUthreads = 0 then
    { s with
      kthreadCpuMap := Function.update s.kthreadCpuMap k
        ((s.kthreadCpuMap k).map fun kt => { kt with kthreadDone := true }) }
  else s

/-- The second half of `uthread_schedule`. -/
def resume (k : Fin gtMaxCores) (uObj : Option ℕ) (start : ℤ) (s : State) : State :=
  match uObj with
  | some u => dispatch k u start s
  | none => quitTest k s

/-- `uthread_schedule(&sched_find_best_uthread)` on the kthread at slot `k`. -/
def uthreadSchedule (flags : Flags) (k : Fin gtMaxCores) (clock : Clock) (s : State) :
    Option State := do
  let kt ← s.kthreadCpuMap k
  let s := putAway flags k kt clock.stop s
  let (uObj, kthreadCpuMap, queues) ←
    schedFindBestUthread flags s.uthreads s.kthreadCpuMap s.queues k
  return resume k uObj clock.start { s with kthreadCpuMap := kthreadCpuMap, queues := queues }

/-- What the current uthread does before it enters the scheduler. -/
def beforeSchedule (k : Fin gtMaxCores) (ending : Ending) (finish : ℤ) (s : State) :
    Option State :=
  match ending with
  | .preempted => some s
  | .finished => do
    let u ← (s.kthreadCpuMap k).bind fun kt => kt.curUthread
    some { s with
      uthreads := Function.update s.uthreads u
        { s.uthreads u with uthreadState := .done, totalRunningTimeEnd := finish } }
  | .yielded => do
    let u ← (s.kthreadCpuMap k).bind fun kt => kt.curUthread
    some { s with
      uthreads := Function.update s.uthreads u { s.uthreads u with isYieldValid := true } }

/-- The state after `gtthread_app_init`: the memory is zero, and `kthread_init_runqueue` has run
for every kthread. -/
def initial (cpuids : Fin gtMaxCores → Option ℕ) : State where
  kthreadCpuMap k := (cpuids k).map fun cpuid =>
    { cpuid := cpuid
      kthreadDone := false
      activeRunq := ⟨k, false⟩
      expiresRunq := ⟨k, true⟩
      curUthread := none }
  queues :=
    { runqs _ :=
        { uthreadMask := 0
          uthreadTot := 0
          uthreadPrioTot _ := 0
          uthreadGroupMask _ := 0
          uthreadGroupTot _ := 0
          groupMask _ := 0 }
      links := Links.initial .next }
  uthreads tid := newUthread tid 0 0 0 0
  uthreadTime _ := { runningTime := 0, cpuTime := 0 }
  kthreadTotUthreads := 0
  kthreadCurUthreads := 0
  lastUgroupKthread _ := 0

/-- The library on linked queues as a labelled system. -/
def linkedGtthreads (flags : Flags) (cpuids : Fin gtMaxCores → Option ℕ) : System State Label where
  init := initial cpuids
  step s
    | .create uGid credits now => uthreadCreate uGid credits now s
    | .schedule k ending clock =>
      (beforeSchedule k ending clock.finish s).bind (uthreadSchedule flags k clock)

end Linked

end GTThreads

end OSLab
