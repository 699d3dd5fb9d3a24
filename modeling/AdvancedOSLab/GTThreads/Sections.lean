import AdvancedOSLab.GTThreads.Schedule

/-!
# The sections of a scheduling step

`uthread_schedule` is not one step. It takes the locks of runqueues several times, and saves and
resumes contexts in between. This module has the scheduler at the granularity of the sections that
a runqueue lock protects and of the points where a context is saved or jumped to.

## The model

Between two sections a kthread is in a `Phase`, which also says on whose stack it executes. The
library itself is the `State` of the scheduler; `saved u` says that the context of `u` was saved
after its most recent execution stopped.

* `enter` charges the current uthread and puts it away, `save` is the `sigsetjmp` after it.
* `pick` is the first locked section of `sched_find_best_uthread`. If the own active runqueue is
  empty, `steal` looks at one kthread after the other, and `pass` leads a stolen uthread through the
  own runqueue. `exchange` is not protected by a lock, and taken as one section here. When a uthread
  was created in the meantime, it finds this one in the runqueue that was empty.
* `jump` and `leave` are the two uses of `siglongjmp`: to the next uthread, or back to the loop of
  the kthread.
* A kthread that is in `uthread_schedule` does not enter it again. In the source a timer signal can
  interrupt it there, since the calls that would block the signals are commented out; what is proved
  about sections is about runs in which this does not happen.

## The two levels

`reachable_sections`: what the library reaches with whole scheduling steps, it reaches with
sections, executed one after the other without another kthread in between.
-/

namespace OSLab

namespace GTThreads

open Runqueue

/-! ### The sections of `uthread_schedule` -/

/-- Where a kthread is between two sections. All but `running` are inside `uthread_schedule`;
`stack` is the uthread on whose stack the kthread executes, if it is not on its own. -/
inductive Phase where
  /-- the current uthread runs, or the loop of the kthread -/
  | running
  /-- `u` is in a runqueue, and its context is not saved yet -/
  | saving (u : ℕ)
  | choosing (stack : Option ℕ)
  /-- in front of slot `i` of the steal loop -/
  | stealing (stack : Option ℕ) (i : ℕ)
  /-- with `u`, which is in no runqueue -/
  | carrying (stack : Option ℕ) (u : ℕ)
  | exchanging (stack : Option ℕ)
  /-- in front of `siglongjmp(u_obj->uthread_env, 1)` -/
  | jumping (stack : Option ℕ) (u : ℕ)
  /-- in front of `siglongjmp(k_ctx->kthread_env, 1)` -/
  | leaving (stack : Option ℕ)
deriving DecidableEq, Repr

/-- The uthread on whose stack a kthread inside `uthread_schedule` executes. -/
def Phase.stack : Phase → Option ℕ
  | .running => none
  | .saving u => some u
  | .choosing stack | .stealing stack _ | .carrying stack _ | .exchanging stack
  | .jumping stack _ | .leaving stack => stack

/-- The library, where its kthreads are, and the contexts. -/
structure Machine where
  sched : State
  phase : Fin gtMaxCores → Phase
  saved : ℕ → Bool

namespace Machine

/-- The kthread moves on. -/
def setPhase (m : Machine) (k : Fin gtMaxCores) (phase : Phase) : Machine :=
  { m with phase := Function.update m.phase k phase }

/-- The uthread on behalf of which the kthread executes. -/
def executing (m : Machine) (k : Fin gtMaxCores) : Option ℕ :=
  match m.phase k with
  | .running => (m.sched.kthreadCpuMap k).bind fun ctx => ctx.krunqueue.curUthread
  | phase => phase.stack

/-- The beginning of `uthread_schedule`, up to the section that puts the current uthread away. -/
def enter (flags : Flags) (k : Fin gtMaxCores) (ending : Ending) (clock : Clock) (m : Machine) :
    Option Machine :=
  match m.phase k with
  | .running => do
    let s ← beforeSchedule k ending clock.finish m.sched
    let ctx ← s.kthreadCpuMap k
    match ctx.krunqueue.curUthread with
    | none => some (setPhase { m with sched := s } k (.choosing none))
    | some u =>
      let ended := (chargeCredits flags clock.stop (s.uthreads u)).ended
      some (setPhase { m with sched := retireCurrent flags k ctx u clock.stop s } k
        -- the context of a uthread that has ended is not saved
        (if ended then .choosing (some u) else .saving u))
  | _ => none

/-- `sigsetjmp(u_obj->uthread_env, 0)`. -/
def save (k : Fin gtMaxCores) (m : Machine) : Option Machine :=
  match m.phase k with
  | .saving u => some (setPhase { m with saved := Function.update m.saved u true } k
      (.choosing (some u)))
  | _ => none

/-- The end of `uthread_schedule` up to `siglongjmp`, with the uthread that was found: a uthread in
its initial state gets its first context in `uthread_init`. -/
def prepare (k : Fin gtMaxCores) (stack : Option ℕ) (u : ℕ) (start : ℤ)
    (kthreadCpuMap : KthreadCpuMap) (m : Machine) : Machine :=
  let init := (m.sched.uthreads u).uthreadState = .init
  { sched := dispatch k u start { m.sched with kthreadCpuMap := kthreadCpuMap }
    phase := Function.update m.phase k (.jumping stack u)
    saved := if init then Function.update m.saved u true else m.saved }

/-- The first section of `sched_find_best_uthread`. -/
def pick (flags : Flags) (k : Fin gtMaxCores) (start : ℤ) (m : Machine) : Option Machine :=
  match m.phase k with
  | .choosing stack => do
    let ctx ← m.sched.kthreadCpuMap k
    let runq := ctx.krunqueue.activeRunq
    if runq.uthreadMask ≠ 0 then
      let (u, runq) ← takeBest m.sched.uthreads runq
      some (prepare k stack u start
        (Function.update m.sched.kthreadCpuMap k (some (ctx.setActive runq))) m)
    -- `assert(!runq->uthread_tot)`
    else if runq.uthreadTot ≠ 0 then none
    else some (m.setPhase k (if flags.steals then .stealing stack 0 else .exchanging stack))
  | _ => none

/-- One turn of the steal loop: the kthread at slot `i` is passed over, or the best uthread of its
active runqueue is taken out. -/
def steal (k : Fin gtMaxCores) (m : Machine) : Option Machine :=
  match m.phase k with
  | .stealing stack i => do
    let ctx ← m.sched.kthreadCpuMap k
    if i < gtMaxCores ∧ i ≠ ctx.cpuid then
      let other ← m.sched.kthreadCpuMap (Fin.ofNat gtMaxCores i)
      if other.kthreadDone ∨ other.krunqueue.activeRunq.uthreadMask = 0 then
        some (m.setPhase k (.stealing stack (i + 1)))
      else
        let (u, otherRunq) ← takeBest m.sched.uthreads other.krunqueue.activeRunq
        let kthreadCpuMap := Function.update m.sched.kthreadCpuMap (Fin.ofNat gtMaxCores i)
          (some (other.setActive otherRunq))
        some (setPhase { m with sched := { m.sched with kthreadCpuMap := kthreadCpuMap } } k
          (.carrying stack u))
    else some (m.setPhase k (.exchanging stack))
  | _ => none

/-- The section in which a stolen uthread is inserted into the own active runqueue and removed
again. -/
def pass (k : Fin gtMaxCores) (start : ℤ) (m : Machine) : Option Machine :=
  match m.phase k with
  | .carrying stack u => do
    let ctx ← m.sched.kthreadCpuMap k
    let runq ← remFromRunqueue m.sched.uthreads
      (addToRunqueue m.sched.uthreads ctx.krunqueue.activeRunq u) u
    some (prepare k stack u start
      (Function.update m.sched.kthreadCpuMap k (some (ctx.setActive runq))) m)
  | _ => none

/-- The exchange of the runqueues, and the test whether to quit when nothing is found. -/
def exchange (k : Fin gtMaxCores) (start : ℤ) (m : Machine) : Option Machine :=
  match m.phase k with
  | .exchanging stack => do
    let ctx ← m.sched.kthreadCpuMap k
    let ctx := ctx.exchanged
    let runq := ctx.krunqueue.expiresRunq
    if runq.uthreadMask = 0 then
      if runq.uthreadTot ≠ 0 then none
      else
        let s := { m.sched with
          kthreadCpuMap := Function.update m.sched.kthreadCpuMap k (some ctx) }
        some (setPhase { m with sched := quitTest k s } k (.leaving stack))
    else
      let (u, runq) ← takeBest m.sched.uthreads runq
      some (prepare k stack u start (Function.update m.sched.kthreadCpuMap k
        (some { ctx with krunqueue := { ctx.krunqueue with expiresRunq := runq } })) m)
  | _ => none

/-- `siglongjmp(u_obj->uthread_env, 1)`: the uthread runs, ahead of its saved context. -/
def jump (k : Fin gtMaxCores) (m : Machine) : Option Machine :=
  match m.phase k with
  | .jumping _ u => some (setPhase { m with saved := Function.update m.saved u false } k .running)
  | _ => none

/-- `siglongjmp(k_ctx->kthread_env, 1)`. -/
def leave (k : Fin gtMaxCores) (m : Machine) : Option Machine :=
  match m.phase k with
  | .leaving _ => some (m.setPhase k .running)
  | _ => none

/-- The steps of the machine: a uthread is created, or a kthread executes its next section. -/
inductive Section where
  | create (uGid : Fin maxUthreadGroups) (credits now : ℤ)
  | enter (k : Fin gtMaxCores) (ending : Ending) (clock : Clock)
  | save (k : Fin gtMaxCores)
  | pick (k : Fin gtMaxCores) (start : ℤ)
  | steal (k : Fin gtMaxCores)
  | pass (k : Fin gtMaxCores) (start : ℤ)
  | exchange (k : Fin gtMaxCores) (start : ℤ)
  | jump (k : Fin gtMaxCores)
  | leave (k : Fin gtMaxCores)

/-- The machine as a labelled system. All kthreads start in their loops. -/
def system (flags : Flags) (cpuids : Fin gtMaxCores → Option ℕ) : System Machine Section where
  init := { sched := initial cpuids, phase := fun _ => .running, saved := fun _ => false }
  step m
    | .create uGid credits now =>
      (uthreadCreate uGid credits now m.sched).map fun s => { m with sched := s }
    | .enter k ending clock => enter flags k ending clock m
    | .save k => save k m
    | .pick k start => pick flags k start m
    | .steal k => steal k m
    | .pass k start => pass k start m
    | .exchange k start => exchange k start m
    | .jump k => jump k m
    | .leave k => leave k m

/-! ### Whole steps are runs of sections -/

section TwoLevels

variable {flags : Flags} {cpuids : Fin gtMaxCores → Option ℕ} {m : Machine} {k : Fin gtMaxCores}
  {stack : Option ℕ} {s : State} {ctx : KthreadContext} {kthreadCpuMap : KthreadCpuMap}

/-- The machine can reach the given state of the library with the kthread in the given phase and
all others where they are in `m`. -/
def Attains (flags : Flags) (cpuids : Fin gtMaxCores → Option ℕ) (m : Machine)
    (k : Fin gtMaxCores) (s : State) (phase : Phase) : Prop :=
  ∃ m', (system flags cpuids).Reachable System.anyStep m' ∧ m'.sched = s ∧
    m'.phase = Function.update m.phase k phase

theorem Attains.of_step {m' : Machine} {l : Section} {phase : Phase}
    (hr : (system flags cpuids).Reachable System.anyStep m)
    (hstep : (system flags cpuids).step m l = some m') (hsched : m'.sched = s)
    (hphase : m'.phase = Function.update m.phase k phase) : Attains flags cpuids m k s phase :=
  ⟨m', .step hr trivial hstep, hsched, hphase⟩

theorem Attains.refl {phase : Phase} (hr : (system flags cpuids).Reachable System.anyStep m)
    (hphase : m.phase k = phase) : Attains flags cpuids m k m.sched phase :=
  ⟨m, hr, rfl, by rw [← hphase, Function.update_eq_self]⟩

/-- Sections of one kthread follow each other. -/
theorem Attains.trans {s' : State} {phase phase' : Phase}
    (h : Attains flags cpuids m k s phase)
    (hnext : ∀ m', (system flags cpuids).Reachable System.anyStep m' → m'.sched = s →
      m'.phase k = phase → Attains flags cpuids m' k s' phase') :
    Attains flags cpuids m k s' phase' := by
  obtain ⟨m₁, hr₁, hsched₁, hphase₁⟩ := h
  obtain ⟨m₂, hr₂, hsched₂, hphase₂⟩ := hnext m₁ hr₁ hsched₁ (by rw [hphase₁, Function.update_self])
  exact ⟨m₂, hr₂, hsched₂, by rw [hphase₂, hphase₁, Function.update_idem]⟩

/-- The first half of a scheduling step: `enter`, and `save` unless the uthread has ended. -/
theorem attains_putAway {ending : Ending} {clock : Clock}
    (hr : (system flags cpuids).Reachable System.anyStep m) (hphase : m.phase k = .running)
    (hs : beforeSchedule k ending clock.finish m.sched = some s)
    (hctx : s.kthreadCpuMap k = some ctx) :
    ∃ stack, Attains flags cpuids m k (putAway flags k ctx clock.stop s) (.choosing stack) := by
  cases hcur : ctx.krunqueue.curUthread with
  | none =>
    have hput : putAway flags k ctx clock.stop s = s := by rw [putAway, hcur]
    have henter : (system flags cpuids).step m (.enter k ending clock) =
        some (setPhase { m with sched := s } k (.choosing none)) := by
      simp [system, enter, hphase, hs, hctx, hcur]
    exact ⟨none, .of_step hr henter hput.symm rfl⟩
  | some u =>
    refine ⟨some u, ?_⟩
    have hput : putAway flags k ctx clock.stop s = retireCurrent flags k ctx u clock.stop s := by
      rw [putAway, hcur]
    have henter : (system flags cpuids).step m (.enter k ending clock) =
        some (setPhase { m with sched := retireCurrent flags k ctx u clock.stop s } k
          (if (chargeCredits flags clock.stop (s.uthreads u)).ended then .choosing (some u)
            else .saving u)) := by
      simp [system, enter, hphase, hs, hctx, hcur]
    rw [hput]
    -- a uthread that has ended is not saved
    by_cases hended : (chargeCredits flags clock.stop (s.uthreads u)).ended = true
    · rw [if_pos hended] at henter
      exact .of_step hr henter rfl rfl
    · rw [if_neg hended] at henter
      refine (Attains.of_step hr henter rfl rfl).trans fun m' hr' hsched' hphase' => ?_
      have hsave : (system flags cpuids).step m' (.save k) =
          some (setPhase { m' with saved := Function.update m'.saved u true } k
            (.choosing (some u))) := by
        simp [system, save, hphase']
      exact .of_step hr' hsave hsched' rfl

/-- The uthread that was prepared is jumped to. -/
theorem attains_prepare {u : ℕ} {start : ℤ} {l : Section}
    (hr : (system flags cpuids).Reachable System.anyStep m)
    (hstep : (system flags cpuids).step m l = some (prepare k stack u start kthreadCpuMap m)) :
    Attains flags cpuids m k
      (dispatch k u start { m.sched with kthreadCpuMap := kthreadCpuMap }) .running := by
  refine (Attains.of_step hr hstep rfl rfl).trans fun m' hr' hsched' hphase' => ?_
  have hjump : (system flags cpuids).step m' (.jump k) =
      some (setPhase { m' with saved := Function.update m'.saved u false } k .running) := by
    simp [system, jump, hphase']
  exact .of_step hr' hjump hsched' rfl

/-- The slots that the steal loop visits from turn `i` on. -/
def slotsFrom (cpuid i : ℕ) : List (Fin gtMaxCores) :=
  ((List.finRange gtMaxCores).drop i).takeWhile fun j => j ≠ cpuid

theorem slotsFrom_of_lt {cpuid i : ℕ} (hi : i < gtMaxCores) (hne : i ≠ cpuid) :
    slotsFrom cpuid i = Fin.ofNat gtMaxCores i :: slotsFrom cpuid (i + 1) := by
  have hslot : (⟨i, hi⟩ : Fin gtMaxCores) = Fin.ofNat gtMaxCores i :=
    Fin.ext (Nat.mod_eq_of_lt hi).symm
  have hlt : i < (List.finRange gtMaxCores).length := by rwa [List.length_finRange]
  rw [slotsFrom, List.drop_eq_getElem_cons hlt, List.getElem_finRange]
  simp [-Fin.ofNat_eq_cast, slotsFrom, hne, ← hslot]

theorem slotsFrom_of_not {cpuid i : ℕ} (h : ¬ (i < gtMaxCores ∧ i ≠ cpuid)) :
    slotsFrom cpuid i = [] := by
  by_cases hi : i < gtMaxCores
  · have hlt : i < (List.finRange gtMaxCores).length := by rwa [List.length_finRange]
    have heq : i = cpuid := not_not.mp fun hne => h ⟨hi, hne⟩
    rw [slotsFrom, List.drop_eq_getElem_cons hlt, List.getElem_finRange]
    simp [heq]
  · have hlen : (List.finRange gtMaxCores).length ≤ i := by
      rw [List.length_finRange]
      exact not_lt.mp hi
    rw [slotsFrom, List.drop_eq_nil_of_le hlen, List.takeWhile_nil]

/-- The steal loop is at the kthread it takes a uthread from, or at its end if there is none. -/
def StealEnds (kthreadCpuMap : KthreadCpuMap) (cpuid n : ℕ) :
    Option (Fin gtMaxCores × KthreadContext) → Prop
  | none => ¬ (n < gtMaxCores ∧ n ≠ cpuid)
  | some (j, other) => (n < gtMaxCores ∧ n ≠ cpuid) ∧ j = Fin.ofNat gtMaxCores n ∧
      kthreadCpuMap j = some other ∧
      ¬ (other.kthreadDone ∨ other.krunqueue.activeRunq.uthreadMask = 0)

/-- The turns of the steal loop that pass over a kthread. -/
theorem attains_stealing {victim : Option (Fin gtMaxCores × KthreadContext)} {i : ℕ}
    (hr : (system flags cpuids).Reachable System.anyStep m) (hphase : m.phase k = .stealing stack i)
    (hctx : m.sched.kthreadCpuMap k = some ctx)
    (hvictim : stealVictim m.sched.kthreadCpuMap (slotsFrom ctx.cpuid i) = some victim) :
    ∃ n, Attains flags cpuids m k m.sched (.stealing stack n) ∧
      StealEnds m.sched.kthreadCpuMap ctx.cpuid n victim := by
  -- on the turns that are left
  induction hn : gtMaxCores - i generalizing i m with
  | zero =>
    have hend : ¬ (i < gtMaxCores ∧ i ≠ ctx.cpuid) := fun h => by omega
    rw [slotsFrom_of_not hend] at hvictim
    obtain rfl := Option.some.inj hvictim
    exact ⟨i, .refl hr hphase, hend⟩
  | succ n ih =>
    by_cases hgo : i < gtMaxCores ∧ i ≠ ctx.cpuid
    swap
    · rw [slotsFrom_of_not hgo] at hvictim
      obtain rfl := Option.some.inj hvictim
      exact ⟨i, .refl hr hphase, hgo⟩
    rw [slotsFrom_of_lt hgo.1 hgo.2, stealVictim_cons] at hvictim
    obtain ⟨other, hother, hvictim⟩ := Option.bind_eq_some_iff.mp hvictim
    by_cases hpass : other.kthreadDone ∨ other.krunqueue.activeRunq.uthreadMask = 0
    · have hrest : stealVictim m.sched.kthreadCpuMap (slotsFrom ctx.cpuid (i + 1)) =
          some victim := by
        obtain hdone | hmask := hpass
        · simpa [hdone] using hvictim
        · simpa [hmask] using hvictim
      have hstep : (system flags cpuids).step m (.steal k) =
          some (m.setPhase k (.stealing stack (i + 1))) := by
        simp only [system, steal, hphase, hctx, hother, if_pos hgo, if_pos hpass,
          Option.bind_eq_bind, Option.bind_some]
      have hphase' : (m.setPhase k (.stealing stack (i + 1))).phase k = .stealing stack (i + 1) :=
        Function.update_self ..
      obtain ⟨n', ⟨m₂, hr₂, hsched₂, hphase₂⟩, hend⟩ :=
        ih (.step hr trivial hstep) hphase' hctx hrest (by omega)
      refine ⟨n', ⟨m₂, hr₂, hsched₂, ?_⟩, hend⟩
      rw [hphase₂, setPhase, Function.update_idem]
    · obtain ⟨hdone, hmask⟩ := not_or.mp hpass
      rw [if_neg hdone, if_pos hmask] at hvictim
      obtain rfl := Option.some.inj hvictim
      exact ⟨i, .refl hr hphase, hgo, rfl, hother, hpass⟩

/-- With an empty active runqueue, the kthread comes to the exchange, or to the end of the steal
loop. -/
theorem attains_searched {victim : Option (Fin gtMaxCores × KthreadContext)}
    (hr : (system flags cpuids).Reachable System.anyStep m) (hphase : m.phase k = .choosing stack)
    (hctx : m.sched.kthreadCpuMap k = some ctx)
    (hmask : ¬ ctx.krunqueue.activeRunq.uthreadMask ≠ 0)
    (htot : ¬ ctx.krunqueue.activeRunq.uthreadTot ≠ 0)
    (hvictim : findVictim flags m.sched.kthreadCpuMap ctx.cpuid = some victim) :
    (victim = none ∧ Attains flags cpuids m k m.sched (.exchanging stack)) ∨
      ∃ n, Attains flags cpuids m k m.sched (.stealing stack n) ∧
        StealEnds m.sched.kthreadCpuMap ctx.cpuid n victim := by
  have hpick : Attains flags cpuids m k m.sched
      (if flags.steals then .stealing stack 0 else .exchanging stack) := by
    have hstep : (system flags cpuids).step m (.pick k 0) = some (m.setPhase k
        (if flags.steals then .stealing stack 0 else .exchanging stack)) := by
      simp only [system, pick, hphase, hctx, if_neg hmask, if_neg htot, Option.bind_eq_bind,
        Option.bind_some]
    exact .of_step hr hstep rfl rfl
  rw [findVictim] at hvictim
  -- without load balancing the exchange follows at once
  by_cases hsteals : flags.steals = true
  · rw [if_pos hsteals] at hpick hvictim
    right
    obtain ⟨m₁, hr₁, hsched₁, hphase₁⟩ := hpick
    obtain ⟨n, ⟨m₂, hr₂, hsched₂, hphase₂⟩, hend⟩ := attains_stealing (i := 0) hr₁
      (by rw [hphase₁, Function.update_self]) (hsched₁ ▸ hctx) (hsched₁ ▸ hvictim)
    refine ⟨n, ⟨m₂, hr₂, hsched₂.trans hsched₁, ?_⟩, hsched₁ ▸ hend⟩
    rw [hphase₂, hphase₁, Function.update_idem]
  · rw [if_neg hsteals] at hpick hvictim
    exact .inl ⟨(Option.some.inj hvictim).symm, hpick⟩

/-- The exchange of the runqueues when nothing was found, and the way back to the loop of the
kthread. -/
theorem attains_quitTest
    (hr : (system flags cpuids).Reachable System.anyStep m) (hphase : m.phase k = .exchanging stack)
    (hctx : m.sched.kthreadCpuMap k = some ctx)
    (hmask : ctx.krunqueue.activeRunq.uthreadMask = 0)
    (htot : ¬ ctx.krunqueue.activeRunq.uthreadTot ≠ 0) :
    Attains flags cpuids m k (quitTest k { m.sched with
      kthreadCpuMap := Function.update m.sched.kthreadCpuMap k (some ctx.exchanged) })
      .running := by
  have hmask' : ctx.exchanged.krunqueue.expiresRunq.uthreadMask = 0 := hmask
  have htot' : ¬ ctx.exchanged.krunqueue.expiresRunq.uthreadTot ≠ 0 := htot
  have hstep : (system flags cpuids).step m (.exchange k 0) =
      some (setPhase { m with sched := quitTest k { m.sched with
        kthreadCpuMap := Function.update m.sched.kthreadCpuMap k (some ctx.exchanged) } } k
        (.leaving stack)) := by
    simp only [system, exchange, hphase, hctx, if_pos hmask', if_neg htot', Option.bind_eq_bind,
      Option.bind_some]
  refine (Attains.of_step hr hstep rfl rfl).trans fun m' hr' hsched' hphase' => ?_
  have hleave : (system flags cpuids).step m' (.leave k) = some (m'.setPhase k .running) := by
    simp only [system, leave, hphase']
  exact .of_step hr' hleave hsched' rfl

/-- A uthread is taken from the kthread where the steal loop has ended, and jumped to. -/
theorem attains_stolen {j : Fin gtMaxCores} {other : KthreadContext} {otherRunq runq : Runqueue}
    {u n : ℕ} (start : ℤ) (hr : (system flags cpuids).Reachable System.anyStep m)
    (hphase : m.phase k = .stealing stack n) (hctx : m.sched.kthreadCpuMap k = some ctx)
    (hend : StealEnds m.sched.kthreadCpuMap ctx.cpuid n (some (j, other))) (hj : j ≠ k)
    (htake : takeBest m.sched.uthreads other.krunqueue.activeRunq = some (u, otherRunq))
    (hrem : remFromRunqueue m.sched.uthreads
      (addToRunqueue m.sched.uthreads ctx.krunqueue.activeRunq u) u = some runq) :
    Attains flags cpuids m k (dispatch k u start { m.sched with
      kthreadCpuMap :=
        Function.update (Function.update m.sched.kthreadCpuMap j (some (other.setActive otherRunq)))
          k (some (ctx.setActive runq)) }) .running := by
  obtain ⟨hgo, rfl, hother, htaken⟩ := hend
  have hstep : (system flags cpuids).step m (.steal k) = some (setPhase { m with
      sched := { m.sched with
        kthreadCpuMap :=
          Function.update m.sched.kthreadCpuMap (Fin.ofNat gtMaxCores n)
            (some (other.setActive otherRunq)) } } k (.carrying stack u)) := by
    simp only [system, steal, hphase, hctx, hother, if_pos hgo, if_neg htaken, htake,
      Option.bind_eq_bind, Option.bind_some]
  refine (Attains.of_step hr hstep rfl rfl).trans fun m' hr' hsched' hphase' => ?_
  -- the entry of the thief is not the one that was just written
  have hctx' : m'.sched.kthreadCpuMap k = some ctx := by
    rw [hsched']
    exact (Function.update_of_ne hj.symm _ _).trans hctx
  have hpass : (system flags cpuids).step m' (.pass k start) = some (prepare k stack u start
      (Function.update m'.sched.kthreadCpuMap k (some (ctx.setActive runq))) m') := by
    have hrem' : remFromRunqueue m'.sched.uthreads
        (addToRunqueue m'.sched.uthreads ctx.krunqueue.activeRunq u) u = some runq := by
      rw [hsched']
      exact hrem
    simp only [system, pass, hphase', hctx', hrem', Option.bind_eq_bind, Option.bind_some]
  have hjump := attains_prepare hr' hpass
  rw [hsched'] at hjump
  exact hjump

/-- The second half of a scheduling step: the sections of `sched_find_best_uthread`, and the jump to
the uthread that it has found. -/
theorem attains_resume {uObj : Option ℕ} (start : ℤ)
    (hr : (system flags cpuids).Reachable System.anyStep m) (hphase : m.phase k = .choosing stack)
    (hfind : schedFindBestUthread flags m.sched.uthreads m.sched.kthreadCpuMap k =
      some (uObj, kthreadCpuMap)) :
    Attains flags cpuids m k (resume k uObj start { m.sched with kthreadCpuMap := kthreadCpuMap })
      .running := by
  obtain ⟨ctx, hctx, hfind⟩ := Option.bind_eq_some_iff.mp hfind
  by_cases hmask : ctx.krunqueue.activeRunq.uthreadMask ≠ 0
  · rw [if_pos hmask] at hfind
    obtain ⟨⟨u, runq⟩, htake, hfind⟩ := Option.bind_eq_some_iff.mp hfind
    obtain ⟨rfl, rfl⟩ := Prod.mk.inj (Option.some.inj hfind)
    have hpick : (system flags cpuids).step m (.pick k start) = some (prepare k stack u start
        (Function.update m.sched.kthreadCpuMap k (some (ctx.setActive runq))) m) := by
      simp only [system, pick, hphase, hctx, if_pos hmask, htake, Option.bind_eq_bind,
        Option.bind_some]
    exact attains_prepare hr hpick
  rw [if_neg hmask] at hfind
  by_cases htot : ctx.krunqueue.activeRunq.uthreadTot ≠ 0
  · simp [htot] at hfind
  rw [if_neg htot] at hfind
  obtain ⟨victim, hvictim, hfind⟩ := Option.bind_eq_some_iff.mp hfind
  have hsearched := attains_searched hr hphase hctx hmask htot hvictim
  cases victim with
  | none =>
    have hexchanging : Attains flags cpuids m k m.sched (.exchanging stack) := by
      obtain ⟨-, hattains⟩ | ⟨n, hattains, hend⟩ := hsearched
      · exact hattains
      · refine hattains.trans fun m' hr' hsched' hphase' => ?_
        have hend' : ¬ (n < gtMaxCores ∧ n ≠ ctx.cpuid) := hend
        have hstep : (system flags cpuids).step m' (.steal k) =
            some (m'.setPhase k (.exchanging stack)) := by
          simp only [system, steal, hphase', hsched', hctx, if_neg hend', Option.bind_eq_bind,
            Option.bind_some]
        exact .of_step hr' hstep hsched' rfl
    -- the runqueue tested after the exchange is again the empty one
    have hmask' : ctx.exchanged.krunqueue.expiresRunq.uthreadMask = 0 := not_not.mp hmask
    have htot' : ¬ ctx.exchanged.krunqueue.expiresRunq.uthreadTot ≠ 0 := htot
    simp only [if_pos hmask', if_neg htot'] at hfind
    obtain ⟨rfl, rfl⟩ := Prod.mk.inj (Option.some.inj hfind)
    refine hexchanging.trans fun m' hr' hsched' hphase' => ?_
    have hquit := attains_quitTest hr' hphase' (hsched' ▸ hctx) hmask' htot
    rw [hsched'] at hquit
    exact hquit
  | some victim =>
    obtain ⟨j, other⟩ := victim
    obtain ⟨hnone, -⟩ | ⟨n, hattains, hend⟩ := hsearched
    · exact absurd hnone (by simp)
    simp only [Option.bind_eq_bind] at hfind
    obtain ⟨⟨u, otherRunq⟩, htake, hfind⟩ := Option.bind_eq_some_iff.mp hfind
    obtain ⟨runq, hrem, hfind⟩ := Option.bind_eq_some_iff.mp hfind
    obtain ⟨rfl, rfl⟩ := Prod.mk.inj (Option.some.inj hfind)
    have hj : j ≠ k := by
      rintro rfl
      obtain rfl := Option.some.inj (hctx.symm.trans hend.2.2.1)
      exact hend.2.2.2 (.inr (not_not.mp hmask))
    refine hattains.trans fun m' hr' hsched' hphase' => ?_
    have hstolen := attains_stolen start hr' hphase' (hsched' ▸ hctx) (hsched' ▸ hend) hj
      (hsched' ▸ htake) (hsched' ▸ hrem)
    rw [hsched'] at hstolen
    exact hstolen

/-- What the library reaches with whole scheduling steps, it reaches with sections, with all
kthreads outside of the scheduler. -/
theorem reachable_sections (hr : (gtthreads flags cpuids).Reachable System.anyStep s) :
    ∃ m, (system flags cpuids).Reachable System.anyStep m ∧ m.sched = s ∧
      ∀ k, m.phase k = .running := by
  induction hr with
  | init => exact ⟨_, .init, rfl, fun _ => rfl⟩
  | @step s s' l _ _ hstep ih =>
    obtain ⟨m, hr, rfl, hrunning⟩ := ih
    cases l with
    | create uGid credits now =>
      refine ⟨{ m with sched := s' }, .step (l := .create uGid credits now) hr trivial ?_, rfl,
        hrunning⟩
      have hcreate : uthreadCreate uGid credits now m.sched = some s' := hstep
      simp only [system, hcreate, Option.map_some]
    | schedule k ending clock =>
      obtain ⟨s₁, hs₁, hstep⟩ := Option.bind_eq_some_iff.mp hstep
      obtain ⟨ctx, hctx, hstep⟩ := Option.bind_eq_some_iff.mp hstep
      obtain ⟨⟨uObj, map'⟩, hfind, hstep⟩ := Option.bind_eq_some_iff.mp hstep
      obtain rfl := Option.some.inj hstep
      -- the two halves of the call, one section after the other
      obtain ⟨stack, hput⟩ := attains_putAway hr (hrunning k) hs₁ hctx
      obtain ⟨m', hr', hsched', hphase'⟩ : Attains flags cpuids m k
          (resume k uObj clock.start
            { putAway flags k ctx clock.stop s₁ with kthreadCpuMap := map' }) .running := by
        refine hput.trans fun m' hr' hsched' hphase' => ?_
        have hresume := attains_resume clock.start hr' hphase' (hsched' ▸ hfind)
        rw [hsched'] at hresume
        exact hresume
      refine ⟨m', hr', hsched', fun j => ?_⟩
      -- the kthread is outside of the scheduler again, and the others have not moved
      have hsame : m'.phase = m.phase := by rw [hphase', ← hrunning k, Function.update_eq_self]
      rw [hsame, hrunning]

end TwoLevels

end Machine

end GTThreads

end OSLab
