import AdvancedOSLab.Framework.System
import AdvancedOSLab.Framework.RoundRobin
import AdvancedOSLab.GTThreads.Runqueue

/-!
# The scheduler of gtthreads

Each kernel thread (kthread) has two runqueues, `active` and `expires`, the uthread it currently
runs, and a list of the uthreads that ended on it. `uthread_create` puts a new uthread into the
active runqueue of a kthread chosen round robin; `uthread_schedule` puts the current uthread of a
kthread away (into `expires`, back into `active`, or among the zombies) and dispatches the one that
`sched_find_best_uthread` picks. When the active runqueue is empty, an idle kthread may take a
uthread out of the active runqueue of another one; otherwise its two runqueues are exchanged.

## The model

* `kthread_cpu_map` is a map from the sixteen slots to the kthreads registered there. The `cpuid`
  of a kthread and the slot (its apic id) it is registered at need not be the same.
* A step is a whole call of `uthread_create` or `uthread_schedule`, which no signal interrupts.
* A call that dereferences a null pointer or fails an assertion has no result (`none`). So does
  the search for a target kthread when none is registered, where the source loops forever.
* `gettimeofday` is read up to three times in a scheduling step; the readings are the `Clock` of
  the step. The charge of a slice is computed in the source in `float`; here it is exact.
* The table `uthread_time` has 128 entries in the source, and nothing keeps `uthread_create` from
  writing behind it. Here it has one for every thread id, so that what is proved about runs is about
  those in which at most 128 uthreads are created.
* The label of a step (`Label`) says why the scheduler is entered: the current uthread returned
  from its function (`uthread_context_func`), called `gt_yield`, or was interrupted. A kthread
  without a current uthread enters it from the loop of `gtthread_app_start` or from a signal,
  which is the third case.

## The main lemma

`schedFindBestUthread_spec` says once what `sched_find_best_uthread` can do to well-formed
runqueues (`Found`): pick from its own active runqueue, steal, or exchange the runqueues and return
nothing. The only way to fail is the steal loop running over an empty slot.
-/

namespace OSLab

namespace GTThreads

open Runqueue RoundRobin

/-! ### Kthreads -/

/-- `GT_MAX_CORES`. -/
abbrev gtMaxCores : ℕ := 16

instance : NeZero gtMaxCores := ⟨by decide⟩

/-- `kthread_runqueue_t`. -/
structure KthreadRunqueue where
  activeRunq : Runqueue
  expiresRunq : Runqueue
  curUthread : Option ℕ
  zombieUthreads : List ℕ

/-- The kthread runqueue after `kthread_init_runqueue`. -/
def kthreadInitRunqueue : KthreadRunqueue where
  activeRunq := initRunqueue
  expiresRunq := initRunqueue
  curUthread := none
  zombieUthreads := []

/-- The part of `kthread_context_t` that scheduling uses; `kthreadDone` is the only flag of
`kthread_flags`. -/
structure KthreadContext where
  cpuid : ℕ
  kthreadDone : Bool
  krunqueue : KthreadRunqueue

/-- The type of `kthread_cpu_map`. -/
abbrev KthreadCpuMap : Type := Fin gtMaxCores → Option KthreadContext

/-- The global switches that the scheduler reads. -/
structure Flags where
  isKernelThreadReady : Bool
  isCreditScheduler : Bool
  isLoadBalancing : Bool
deriving DecidableEq, Repr

/-- The condition of the steal loop. -/
def Flags.steals (flags : Flags) : Bool :=
  flags.isKernelThreadReady && flags.isCreditScheduler && flags.isLoadBalancing

/-! ### Choosing the next uthread -/

/-- The best uthread of a runqueue, together with the runqueue it is removed from. -/
def takeBest (uthreads : ℕ → Uthread) (runq : Runqueue) : Option (ℕ × Runqueue) := do
  let uObj ← runq.bestUthread
  let runq ← remFromRunqueue uthreads runq uObj
  return (uObj, runq)

/-- The slots that the steal loop of a kthread visits, in order: `i < 16 && i != cpuid` ends the
loop at the kthread's own number. -/
def stealSlots (cpuid : ℕ) : List (Fin gtMaxCores) :=
  (List.finRange gtMaxCores).takeWhile fun i => i ≠ cpuid

/-- The steal loop: the first kthread among the given slots that is not done and has a uthread in
its active runqueue. The outer `none` is an empty slot, which the source dereferences. -/
def stealVictim (kthreadCpuMap : KthreadCpuMap) :
    List (Fin gtMaxCores) → Option (Option (Fin gtMaxCores × KthreadContext))
  | [] => some none
  | i :: slots => do
    let other ← kthreadCpuMap i
    if other.kthreadDone then stealVictim kthreadCpuMap slots
    else if other.krunqueue.activeRunq.uthreadMask ≠ 0 then some (some (i, other))
    else stealVictim kthreadCpuMap slots

/-- The kthread that an idle kthread with this number steals from, if any. -/
def findVictim (flags : Flags) (kthreadCpuMap : KthreadCpuMap) (cpuid : ℕ) :
    Option (Option (Fin gtMaxCores × KthreadContext)) :=
  if flags.steals then stealVictim kthreadCpuMap (stealSlots cpuid) else some none

/-- The kthread with another active runqueue. -/
def KthreadContext.setActive (ctx : KthreadContext) (runq : Runqueue) : KthreadContext :=
  { ctx with krunqueue := { ctx.krunqueue with activeRunq := runq } }

/-- The kthread with its two runqueues exchanged. -/
def KthreadContext.exchanged (ctx : KthreadContext) : KthreadContext :=
  { ctx with krunqueue :=
    { ctx.krunqueue with
      activeRunq := ctx.krunqueue.expiresRunq
      expiresRunq := ctx.krunqueue.activeRunq } }

/-- `sched_find_best_uthread`, called by the kthread at slot `k`: the uthread to run (`none` for
`NULL`) and the kthreads afterwards. -/
def schedFindBestUthread (flags : Flags) (uthreads : ℕ → Uthread) (kthreadCpuMap : KthreadCpuMap)
    (k : Fin gtMaxCores) : Option (Option ℕ × KthreadCpuMap) := do
  let ctx ← kthreadCpuMap k
  let runq := ctx.krunqueue.activeRunq
  if runq.uthreadMask ≠ 0 then
    let (uObj, runq) ← takeBest uthreads runq
    return (some uObj, Function.update kthreadCpuMap k (some (ctx.setActive runq)))
  -- `assert(!runq->uthread_tot)`
  else if runq.uthreadTot ≠ 0 then none
  else
    let victim ← findVictim flags kthreadCpuMap ctx.cpuid
    match victim with
    | some (i, other) =>
      let (uObj, otherRunq) ← takeBest uthreads other.krunqueue.activeRunq
      -- the stolen uthread is inserted into the own active runqueue and removed again
      let runq ← remFromRunqueue uthreads (addToRunqueue uthreads runq uObj) uObj
      return (some uObj,
        Function.update (Function.update kthreadCpuMap i (some (other.setActive otherRunq)))
          k (some (ctx.setActive runq)))
    | none =>
      let ctx := ctx.exchanged
      -- the runqueue looked at from here on is the one that is now `expires_runq`
      let runq := ctx.krunqueue.expiresRunq
      if runq.uthreadMask = 0 then
        if runq.uthreadTot ≠ 0 then none
        else return (none, Function.update kthreadCpuMap k (some ctx))
      else
        let (uObj, runq) ← takeBest uthreads runq
        return (some uObj, Function.update kthreadCpuMap k
          (some { ctx with krunqueue := { ctx.krunqueue with expiresRunq := runq } }))

/-! ### The state of the library -/

/-- `uthread_timer_t`. -/
structure UthreadTimer where
  runningTime : ℤ
  cpuTime : ℤ
deriving DecidableEq, Repr

/-- The kthreads, the uthreads and the shared information of the scheduler. -/
structure State where
  kthreadCpuMap : KthreadCpuMap
  uthreads : ℕ → Uthread
  uthreadTime : ℕ → UthreadTimer
  kthreadTotUthreads : ℕ
  kthreadCurUthreads : ℕ
  lastUgroupKthread : Fin maxUthreadGroups → ℕ

/-- The readings of `gettimeofday` in one step: when the current uthread returned, when its slice
ended, and when the slice of the next one starts. -/
structure Clock where
  finish : ℤ
  stop : ℤ
  start : ℤ

/-- Why the scheduler is entered. -/
inductive Ending where
  | finished
  | yielded
  | preempted
deriving DecidableEq, Repr

/-! ### Creating a uthread -/

/-- The search loop of `ksched_find_target`, for at most `fuel` turns. -/
def searchTarget (kthreadCpuMap : KthreadCpuMap) : ℕ → ℕ → Option (Fin gtMaxCores)
  | 0, _ => none
  | fuel + 1, targetCpu =>
    let targetCpu := Fin.ofNat gtMaxCores (targetCpu + 1)
    if (kthreadCpuMap targetCpu).isSome then some targetCpu
    else searchTarget kthreadCpuMap fuel targetCpu

/-- `ksched_find_target`: the next registered slot after the last one used for the group. Sixteen
turns of the loop visit every slot, so without a result the source's loop does not end. -/
def kschedFindTarget (kthreadCpuMap : KthreadCpuMap) (last : ℕ) : Option (Fin gtMaxCores) :=
  searchTarget kthreadCpuMap gtMaxCores last

/-- The record that `uthread_create` fills in for a new uthread; the rest is zero. -/
def newUthread (tid : ℕ) (uGid : Fin maxUthreadGroups) (credits now : ℤ) (cpuid : ℕ) : Uthread where
  uthreadState := .init
  uthreadPriority := defaultUthreadPriority
  cpuId := cpuid
  lastCpuId := cpuid
  uthreadTid := tid
  uthreadGid := uGid
  initialCredits := credits
  credits := credits
  runTimeTotal := 0
  runTimeStep := 0
  startRunningTimeStep := 0
  endRunningTimeStep := 0
  totalRunningTimeStart := now
  totalRunningTimeEnd := 0
  isYieldValid := false

/-- Uthreads of the default priority, in one group. -/
def plainUthreads (u : ℕ) : Uthread := newUthread u 0 0 0 0

/-- `uthread_create`. The new uthread is the allocation numbered by its thread id. -/
def uthreadCreate (uGid : Fin maxUthreadGroups) (credits now : ℤ) (s : State) : Option State := do
  let tid := s.kthreadTotUthreads
  let target ← kschedFindTarget s.kthreadCpuMap (s.lastUgroupKthread uGid)
  let ctx ← s.kthreadCpuMap target
  let uthreads := Function.update s.uthreads tid (newUthread tid uGid credits now ctx.cpuid)
  some
    { kthreadCpuMap := Function.update s.kthreadCpuMap target
        (some (ctx.setActive (addToRunqueue uthreads ctx.krunqueue.activeRunq tid)))
      uthreads := uthreads
      uthreadTime := Function.update s.uthreadTime tid { runningTime := 0, cpuTime := 0 }
      kthreadTotUthreads := s.kthreadTotUthreads + 1
      kthreadCurUthreads := s.kthreadCurUthreads + 1
      lastUgroupKthread := Function.update s.lastUgroupKthread uGid target }

/-! ### Putting the current uthread away -/

/-- The credit deduction for the slice that ends at `stop`. -/
def chargeCredits (flags : Flags) (stop : ℤ) (uObj : Uthread) : Uthread :=
  if flags.isCreditScheduler ∧ 0 < uObj.credits then
    let step := stop - uObj.startRunningTimeStep
    -- milliseconds used, at most one more than there are credits
    let used := if 1000 * uObj.credits < step then uObj.credits + 1 else step.tdiv 1000
    { uObj with
      endRunningTimeStep := stop
      runTimeStep := step
      runTimeTotal := uObj.runTimeTotal + step
      credits := uObj.credits - used }
  else uObj

/-- `uthread_state & (UTHREAD_DONE | UTHREAD_CANCELLED)`. -/
def Uthread.ended (uObj : Uthread) : Bool :=
  uObj.uthreadState = .done || uObj.uthreadState = .cancelled

/-- Which of its two runqueues the kthread puts a runnable uthread into. -/
inductive Side where
  | active
  | expires
deriving DecidableEq, Repr

/-- A uthread that has not ended becomes runnable: where it goes, and its fields afterwards. -/
def requeue (flags : Flags) (uObj : Uthread) : Side × Uthread :=
  let uObj := { uObj with uthreadState := .runnable }
  if !flags.isCreditScheduler then (.expires, uObj)
  else if 0 < uObj.credits then
    -- a uthread that was preempted goes back to the active runqueue, for 25 credits
    if uObj.isYieldValid then (.expires, { uObj with isYieldValid := false })
    else (.active, { uObj with credits := uObj.credits - 25 })
  else (.expires, { uObj with credits := uObj.initialCredits, isYieldValid := false })

/-- The kthread runqueue with the uthread inserted on one side. -/
def KthreadRunqueue.insert (uthreads : ℕ → Uthread) (krunq : KthreadRunqueue) (side : Side)
    (u : ℕ) : KthreadRunqueue :=
  match side with
  | .active => { krunq with activeRunq := addToRunqueue uthreads krunq.activeRunq u }
  | .expires => { krunq with expiresRunq := addToRunqueue uthreads krunq.expiresRunq u }

/-- The first half of `uthread_schedule`: the current uthread `u` of the kthread `ctx` at slot `k`
is charged and put away. -/
def retireCurrent (flags : Flags) (k : Fin gtMaxCores) (ctx : KthreadContext) (u : ℕ) (stop : ℤ)
    (s : State) : State :=
  let uObj := chargeCredits flags stop (s.uthreads u)
  let krunq := { ctx.krunqueue with curUthread := none }
  if uObj.ended then
    let total := uObj.totalRunningTimeEnd - uObj.totalRunningTimeStart
    { s with
      -- the statistics are kept in credit mode only
      uthreads := Function.update s.uthreads u
        (if flags.isCreditScheduler then { uObj with runTimeTotal := total } else uObj)
      uthreadTime :=
        if flags.isCreditScheduler then
          Function.update s.uthreadTime uObj.uthreadTid
            { runningTime := total, cpuTime := uObj.runTimeTotal }
        else s.uthreadTime
      kthreadCpuMap := Function.update s.kthreadCpuMap k
        (some { ctx with
          krunqueue := { krunq with zombieUthreads := krunq.zombieUthreads ++ [u] } })
      kthreadCurUthreads := s.kthreadCurUthreads - 1 }
  else
    let uthreads := Function.update s.uthreads u (requeue flags uObj).2
    { s with
      uthreads := uthreads
      kthreadCpuMap := Function.update s.kthreadCpuMap k
        (some { ctx with krunqueue := krunq.insert uthreads (requeue flags uObj).1 u }) }

/-- The current uthread of the kthread, if there is one, is put away. -/
def putAway (flags : Flags) (k : Fin gtMaxCores) (ctx : KthreadContext) (stop : ℤ) (s : State) :
    State :=
  match ctx.krunqueue.curUthread with
  | some u => retireCurrent flags k ctx u stop s
  | none => s

/-! ### A scheduling step -/

/-- The end of `uthread_schedule` when there is a uthread to run. A uthread in its initial state
is first made runnable by `uthread_init`. -/
def dispatch (k : Fin gtMaxCores) (u : ℕ) (start : ℤ) (s : State) : State :=
  { s with
    kthreadCpuMap := Function.update s.kthreadCpuMap k ((s.kthreadCpuMap k).map fun ctx =>
      { ctx with krunqueue := { ctx.krunqueue with curUthread := some u } })
    uthreads := Function.update s.uthreads u
      { s.uthreads u with uthreadState := .running, startRunningTimeStep := start } }

/-- The end of `uthread_schedule` when there is none: the kthread quits if every uthread that was
created has ended. -/
def quitTest (k : Fin gtMaxCores) (s : State) : State :=
  if s.kthreadTotUthreads ≠ 0 ∧ s.kthreadCurUthreads = 0 then
    { s with
      kthreadCpuMap := Function.update s.kthreadCpuMap k
        ((s.kthreadCpuMap k).map fun ctx => { ctx with kthreadDone := true }) }
  else s

/-- The second half of `uthread_schedule`: run the uthread that was found, or go back to the loop
of the kthread. -/
def resume (k : Fin gtMaxCores) (uObj : Option ℕ) (start : ℤ) (s : State) : State :=
  match uObj with
  | some u => dispatch k u start s
  | none => quitTest k s

/-- `uthread_schedule(&sched_find_best_uthread)` on the kthread at slot `k`. -/
def uthreadSchedule (flags : Flags) (k : Fin gtMaxCores) (clock : Clock) (s : State) :
    Option State := do
  let ctx ← s.kthreadCpuMap k
  let s := putAway flags k ctx clock.stop s
  let (uObj, kthreadCpuMap) ← schedFindBestUthread flags s.uthreads s.kthreadCpuMap k
  return resume k uObj clock.start { s with kthreadCpuMap := kthreadCpuMap }

/-- What the current uthread does before it enters the scheduler: it is marked done by
`uthread_context_func`, or marks itself as yielding in `gt_yield`. -/
def beforeSchedule (k : Fin gtMaxCores) (ending : Ending) (finish : ℤ) (s : State) :
    Option State :=
  match ending with
  | .preempted => some s
  | .finished => do
    -- only a uthread that runs can return from its function
    let u ← (s.kthreadCpuMap k).bind fun ctx => ctx.krunqueue.curUthread
    some { s with
      uthreads := Function.update s.uthreads u
        { s.uthreads u with uthreadState := .done, totalRunningTimeEnd := finish } }
  | .yielded => do
    let u ← (s.kthreadCpuMap k).bind fun ctx => ctx.krunqueue.curUthread
    some { s with
      uthreads := Function.update s.uthreads u { s.uthreads u with isYieldValid := true } }

/-- The steps of the library: a uthread is created, or the scheduler runs on a kthread. -/
inductive Label where
  | create (uGid : Fin maxUthreadGroups) (credits now : ℤ)
  | schedule (k : Fin gtMaxCores) (ending : Ending) (clock : Clock)

/-- The state after `gtthread_app_init`: the kthreads at the slots where `cpuids` gives one, with
empty runqueues. -/
def initial (cpuids : Fin gtMaxCores → Option ℕ) : State where
  kthreadCpuMap k := (cpuids k).map fun cpuid =>
    { cpuid := cpuid, kthreadDone := false, krunqueue := kthreadInitRunqueue }
  uthreads tid := newUthread tid 0 0 0 0
  uthreadTime _ := { runningTime := 0, cpuTime := 0 }
  kthreadTotUthreads := 0
  kthreadCurUthreads := 0
  lastUgroupKthread _ := 0

/-- The library as a labelled system. -/
def gtthreads (flags : Flags) (cpuids : Fin gtMaxCores → Option ℕ) : System State Label where
  init := initial cpuids
  step s
    | .create uGid credits now => uthreadCreate uGid credits now s
    | .schedule k ending clock =>
      (beforeSchedule k ending clock.finish s).bind (uthreadSchedule flags k clock)

/-! ### What the search for a target finds -/

section Target

variable {kthreadCpuMap : KthreadCpuMap} {k target : Fin gtMaxCores} {last : ℕ}

/-- A kthread is registered at the slot. -/
def registered (kthreadCpuMap : KthreadCpuMap) (k : Fin gtMaxCores) : Bool :=
  (kthreadCpuMap k).isSome

/-- The turns of the search look at the slots behind the one that it starts from. -/
theorem searchTarget_eq_find {fuel : ℕ} (hfuel : fuel ≤ gtMaxCores) (t : ℕ) :
    searchTarget kthreadCpuMap fuel t =
      ((behind gtMaxCores t).take fuel).find? (registered kthreadCpuMap) := by
  induction fuel generalizing t with
  | zero => rfl
  | succ fuel ih =>
    have hslot : (Fin.ofNat gtMaxCores (t + 1) : ℕ) = (t + 1) % gtMaxCores := Fin.val_ofNat ..
    obtain ⟨rest, hcons, hnext⟩ := behind_eq_cons hslot
    have hrest : fuel ≤ rest.length := by
      have hlength := length_behind gtMaxCores t
      rw [hcons, List.length_cons] at hlength
      omega
    rw [searchTarget, hcons, List.take_succ_cons]
    split
    · next hsome => rw [List.find?_cons_of_pos (p := registered kthreadCpuMap) hsome]
    · next hnone =>
      -- the rest of the search starts one slot further
      rw [List.find?_cons_of_neg (p := registered kthreadCpuMap) hnone,
        ih (Nat.le_of_succ_le hfuel), hnext, List.take_append_of_le_length hrest]

/-- `ksched_find_target` finds the first registered slot behind the last one. -/
theorem kschedFindTarget_eq_find (kthreadCpuMap : KthreadCpuMap) (last : ℕ) :
    kschedFindTarget kthreadCpuMap last =
      (behind gtMaxCores last).find? (registered kthreadCpuMap) := by
  rw [kschedFindTarget, searchTarget_eq_find le_rfl,
    List.take_of_length_le (length_behind gtMaxCores last).le]

/-- The search ends when some kthread is registered. -/
theorem kschedFindTarget_isSome (h : (kthreadCpuMap k).isSome) (last : ℕ) :
    (kschedFindTarget kthreadCpuMap last).isSome := by
  rw [kschedFindTarget_eq_find, List.find?_isSome]
  exact ⟨k, mem_behind last k, h⟩

/-- Whatever slot the search ends at, a kthread is registered there. -/
theorem isSome_of_kschedFindTarget (h : kschedFindTarget kthreadCpuMap last = some target) :
    (kthreadCpuMap target).isSome := by
  rw [kschedFindTarget_eq_find] at h
  exact (List.find?_eq_some_iff_append.mp h).1

/-- The slots that the search passes over are not registered. -/
theorem eq_of_kschedFindTarget (h : kschedFindTarget kthreadCpuMap last = some target) :
    ∃ d < gtMaxCores, target = Fin.ofNat gtMaxCores (last + 1 + d) ∧
      ∀ e < d, kthreadCpuMap (Fin.ofNat gtMaxCores (last + 1 + e)) = none := by
  rw [kschedFindTarget_eq_find] at h
  have hslot : ∀ {e} (he : e < (behind gtMaxCores last).length),
      (behind gtMaxCores last)[e] = Fin.ofNat gtMaxCores (last + 1 + e) := fun he =>
    Fin.ext ((val_getElem_behind he).trans (Fin.val_ofNat ..).symm)
  obtain ⟨-, d, hd, htarget, hbefore⟩ := List.find?_eq_some_iff_getElem.mp h
  refine ⟨d, by rwa [length_behind] at hd, ?_, fun e he => ?_⟩
  · exact htarget.symm.trans (hslot hd)
  · have hnone := hbefore e he
    rw [hslot (he.trans hd)] at hnone
    simpa [registered] using hnone

end Target

/-! ### What the choice of the next uthread can do -/

section Choice

variable {uthreads : ℕ → Uthread} {runq : Runqueue} {members : List ℕ}
  {kthreadCpuMap : KthreadCpuMap} {slots : List (Fin gtMaxCores)}

/-- Taking the best uthread of a runqueue that is not empty succeeds. -/
theorem takeBest_spec (h : Represents uthreads runq members) (hne : members ≠ []) :
    ∃ u runq', takeBest uthreads runq = some (u, runq') ∧ u ∈ members ∧
      BestOf uthreads members u ∧ Represents uthreads runq' (members.erase u) := by
  obtain ⟨u, hu, hbest, hbestOf⟩ := h.bestUthread hne
  obtain ⟨runq', hrem, h'⟩ := h.rem hu
  exact ⟨u, runq', by simp [takeBest, hbest, hrem], hu, hbestOf, h'⟩

theorem stealVictim_cons (i : Fin gtMaxCores) :
    stealVictim kthreadCpuMap (i :: slots) = (kthreadCpuMap i).bind fun other =>
      if other.kthreadDone then stealVictim kthreadCpuMap slots
      else if other.krunqueue.activeRunq.uthreadMask ≠ 0 then some (some (i, other))
      else stealVictim kthreadCpuMap slots := rfl

/-- A victim is a registered kthread with a uthread in its active runqueue. -/
theorem stealVictim_eq_some {i : Fin gtMaxCores} {other : KthreadContext}
    (h : stealVictim kthreadCpuMap slots = some (some (i, other))) :
    kthreadCpuMap i = some other ∧ other.krunqueue.activeRunq.uthreadMask ≠ 0 := by
  -- on the slots: a slot is passed over, or it is the victim
  induction slots with
  | nil => exact absurd h (by simp [stealVictim])
  | cons j slots ih =>
    rw [stealVictim_cons] at h
    obtain ⟨ctx, hctx, h⟩ := Option.bind_eq_some_iff.mp h
    split at h
    · exact ih h
    · split at h
      · next hmask =>
        obtain ⟨rfl, rfl⟩ := Prod.mk.inj (Option.some.inj (Option.some.inj h))
        exact ⟨hctx, hmask⟩
      · exact ih h

theorem findVictim_eq_some {flags : Flags} {cpuid : ℕ} {i : Fin gtMaxCores}
    {other : KthreadContext} (h : findVictim flags kthreadCpuMap cpuid = some (some (i, other))) :
    kthreadCpuMap i = some other ∧ other.krunqueue.activeRunq.uthreadMask ≠ 0 := by
  rw [findVictim] at h
  split at h
  · exact stealVictim_eq_some h
  · exact absurd h (by simp)

/-- The steal loop does not fail when every slot it visits is registered. -/
theorem stealVictim_isSome (h : ∀ i ∈ slots, (kthreadCpuMap i).isSome) :
    (stealVictim kthreadCpuMap slots).isSome := by
  induction slots with
  | nil => rfl
  | cons j slots ih =>
    have htail := ih fun i hi => h i (List.mem_cons_of_mem j hi)
    obtain ⟨ctx, hctx⟩ := Option.isSome_iff_exists.mp (h j List.mem_cons_self)
    rw [stealVictim_cons, hctx, Option.bind_some]
    split
    · exact htail
    · split
      · rfl
      · exact htail

/-- The loop visits only slots below the kthread's own number. -/
theorem lt_of_mem_stealSlots {cpuid : ℕ} {i : Fin gtMaxCores} (h : i ∈ stealSlots cpuid) :
    (i : ℕ) < cpuid := by
  by_cases hcpuid : cpuid < gtMaxCores
  · -- sixteen loops, checked one by one
    have hbelow : ∀ c : Fin gtMaxCores, ∀ j ∈ stealSlots c, j < c := by decide
    exact hbelow ⟨cpuid, hcpuid⟩ i h
  · exact i.isLt.trans_le (not_lt.mp hcpuid)

/-- The two runqueues of a kthread represent some uthreads, and no uthread is linked twice into
its list of zombies. -/
structure KthreadRunqueue.WellFormed (uthreads : ℕ → Uthread) (krunq : KthreadRunqueue) : Prop where
  active : ∃ members, Represents uthreads krunq.activeRunq members
  expires : ∃ members, Represents uthreads krunq.expiresRunq members
  zombies : krunq.zombieUthreads.Nodup

/-- Every kthread has well-formed runqueues. -/
def WellFormed (uthreads : ℕ → Uthread) (kthreadCpuMap : KthreadCpuMap) : Prop :=
  ∀ k ctx, kthreadCpuMap k = some ctx → ctx.krunqueue.WellFormed uthreads

/-- What `sched_find_best_uthread` on slot `k` returns, and the kthreads it leaves behind. -/
inductive Found (uthreads : ℕ → Uthread) (kthreadCpuMap : KthreadCpuMap) (k : Fin gtMaxCores) :
    Option ℕ → KthreadCpuMap → Prop
  | own {ctx : KthreadContext} {members : List ℕ} {u : ℕ} {runq : Runqueue}
      (hctx : kthreadCpuMap k = some ctx)
      (hmembers : Represents uthreads ctx.krunqueue.activeRunq members)
      (hu : u ∈ members) (hbest : BestOf uthreads members u)
      (hleft : Represents uthreads runq (members.erase u)) :
      Found uthreads kthreadCpuMap k (some u)
        (Function.update kthreadCpuMap k (some (ctx.setActive runq)))
  | stolen {ctx : KthreadContext} {i : Fin gtMaxCores} {other : KthreadContext}
      {members : List ℕ} {u : ℕ} {otherRunq runq : Runqueue}
      (hctx : kthreadCpuMap k = some ctx)
      (hempty : Represents uthreads ctx.krunqueue.activeRunq [])
      (hi : i ≠ k) (hother : kthreadCpuMap i = some other)
      (hmembers : Represents uthreads other.krunqueue.activeRunq members)
      (hu : u ∈ members) (hleft : Represents uthreads otherRunq (members.erase u))
      (hrunq : Represents uthreads runq []) :
      Found uthreads kthreadCpuMap k (some u)
        (Function.update (Function.update kthreadCpuMap i (some (other.setActive otherRunq)))
          k (some (ctx.setActive runq)))
  | nothing {ctx : KthreadContext}
      (hctx : kthreadCpuMap k = some ctx)
      (hempty : Represents uthreads ctx.krunqueue.activeRunq []) :
      Found uthreads kthreadCpuMap k none
        (Function.update kthreadCpuMap k (some ctx.exchanged))

variable {flags : Flags} {k : Fin gtMaxCores} {ctx : KthreadContext}

/-- With uthreads in the active runqueue, the best of them is returned and nothing else changes. -/
theorem schedFindBestUthread_own (flags : Flags) (hctx : kthreadCpuMap k = some ctx)
    (h : Represents uthreads ctx.krunqueue.activeRunq members) (hne : members ≠ []) :
    ∃ u runq, schedFindBestUthread flags uthreads kthreadCpuMap k =
        some (some u, Function.update kthreadCpuMap k (some (ctx.setActive runq))) ∧
      u ∈ members ∧ BestOf uthreads members u ∧
      Represents uthreads runq (members.erase u) := by
  obtain ⟨u, runq, htake, hu, hbest, hleft⟩ := takeBest_spec h hne
  refine ⟨u, runq, ?_, hu, hbest, hleft⟩
  have hmask := mt h.uthreadMask_eq_zero_iff.mp hne
  simp [schedFindBestUthread, hctx, hmask, htake]

/-- A stolen uthread only passes through the thief's active runqueue, which stays empty. -/
theorem rem_add_of_empty (h : Represents uthreads runq []) (u : ℕ) :
    ∃ runq', remFromRunqueue uthreads (addToRunqueue uthreads runq u) u = some runq' ∧
      Represents uthreads runq' [] := by
  obtain ⟨runq', hrem, h'⟩ := (h.add (u := u) (by simp)).rem (u := u) (by simp)
  exact ⟨runq', hrem, by simpa using h'⟩

/-- With an empty active runqueue and nobody to steal from, the runqueues are exchanged and nothing
is returned: the mask tested after the exchange is again that of the empty runqueue. -/
theorem schedFindBestUthread_exchange (hctx : kthreadCpuMap k = some ctx)
    (h : Represents uthreads ctx.krunqueue.activeRunq [])
    (hvictim : findVictim flags kthreadCpuMap ctx.cpuid = some none) :
    schedFindBestUthread flags uthreads kthreadCpuMap k =
      some (none, Function.update kthreadCpuMap k (some ctx.exchanged)) := by
  have hmask := h.uthreadMask_eq_zero_iff.mpr rfl
  have htot : ctx.krunqueue.activeRunq.uthreadTot = 0 := h.uthreadTot_eq
  have hexpires : ctx.exchanged.krunqueue.expiresRunq = ctx.krunqueue.activeRunq := rfl
  simp [schedFindBestUthread, hctx, hmask, htot, hvictim, hexpires]

/-- With an empty active runqueue and a victim, a uthread of the victim is returned. -/
theorem schedFindBestUthread_stolen {i : Fin gtMaxCores} {other : KthreadContext}
    (hwf : WellFormed uthreads kthreadCpuMap) (hctx : kthreadCpuMap k = some ctx)
    (h : Represents uthreads ctx.krunqueue.activeRunq [])
    (hvictim : findVictim flags kthreadCpuMap ctx.cpuid = some (some (i, other))) :
    ∃ u otherRunq runq others, schedFindBestUthread flags uthreads kthreadCpuMap k =
        some (some u, Function.update
          (Function.update kthreadCpuMap i (some (other.setActive otherRunq)))
          k (some (ctx.setActive runq))) ∧
      i ≠ k ∧ kthreadCpuMap i = some other ∧
      Represents uthreads other.krunqueue.activeRunq others ∧ u ∈ others ∧
      Represents uthreads otherRunq (others.erase u) ∧ Represents uthreads runq [] := by
  have hmask := h.uthreadMask_eq_zero_iff.mpr rfl
  have htot : ctx.krunqueue.activeRunq.uthreadTot = 0 := h.uthreadTot_eq
  obtain ⟨hother, hothermask⟩ := findVictim_eq_some hvictim
  obtain ⟨others, h'⟩ := (hwf i other hother).active
  have hothers : others ≠ [] := mt h'.uthreadMask_eq_zero_iff.mpr hothermask
  -- the thief is not its own victim: its active runqueue is empty
  have hi : i ≠ k := by
    rintro rfl
    obtain rfl := Option.some.inj (hctx.symm.trans hother)
    exact hothermask hmask
  obtain ⟨u, otherRunq, htake, hu, -, hleft⟩ := takeBest_spec h' hothers
  obtain ⟨runq, hrem, hrunq⟩ := rem_add_of_empty h u
  refine ⟨u, otherRunq, runq, others, ?_, hi, hother, h', hu, hleft, hrunq⟩
  simp [schedFindBestUthread, hctx, hmask, htot, hvictim, htake, hrem]

/-- The scheduler either does one of the three things of `Found`, or its steal loop reaches an
empty slot. -/
theorem schedFindBestUthread_spec (flags : Flags) (hwf : WellFormed uthreads kthreadCpuMap)
    (hctx : kthreadCpuMap k = some ctx) :
    (∃ uObj kthreadCpuMap', schedFindBestUthread flags uthreads kthreadCpuMap k =
        some (uObj, kthreadCpuMap') ∧ Found uthreads kthreadCpuMap k uObj kthreadCpuMap') ∨
      (findVictim flags kthreadCpuMap ctx.cpuid = none ∧
        schedFindBestUthread flags uthreads kthreadCpuMap k = none) := by
  obtain ⟨members, h⟩ := (hwf k ctx hctx).active
  by_cases hne : members = []
  swap
  · obtain ⟨u, runq, hsched, hu, hbest, hleft⟩ := schedFindBestUthread_own flags hctx h hne
    exact .inl ⟨_, _, hsched, .own hctx h hu hbest hleft⟩
  subst hne
  have hmask := h.uthreadMask_eq_zero_iff.mpr rfl
  cases hvictim : findVictim flags kthreadCpuMap ctx.cpuid with
  -- an empty slot in the way of the steal loop
  | none => exact .inr ⟨rfl, by simp [schedFindBestUthread, hctx, hmask, hvictim]⟩
  | some victim =>
    left
    cases victim with
    | none => exact ⟨_, _, schedFindBestUthread_exchange hctx h hvictim, .nothing hctx h⟩
    | some victim =>
      obtain ⟨i, other⟩ := victim
      obtain ⟨u, otherRunq, runq, others, hsched, hi, hother, h', hu, hleft, hrunq⟩ :=
        schedFindBestUthread_stolen hwf hctx h hvictim
      exact ⟨_, _, hsched, .stolen hctx h hi hother h' hu hleft hrunq⟩

/-- The search for a victim succeeds when the slots below the kthread's number are registered. -/
theorem findVictim_isSome {cpuid : ℕ}
    (h : flags.steals → ∀ i : Fin gtMaxCores, i < cpuid → (kthreadCpuMap i).isSome) :
    (findVictim flags kthreadCpuMap cpuid).isSome := by
  rw [findVictim]
  split
  · next hsteals => exact stealVictim_isSome fun i hi => h hsteals i (lt_of_mem_stealSlots hi)
  · rfl

end Choice

end GTThreads

end OSLab
