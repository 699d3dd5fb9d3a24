import Mathlib.Algebra.BigOperators.Group.List.Basic
import Mathlib.Algebra.Order.Floor.Div
import AdvancedOSLab.GTThreads.Conservation

/-!
# The credit scheduler does not starve the expires runqueue

In credit mode a uthread that is preempted with credits left goes back to the active runqueue, so
the active runqueue of a kthread can stay filled for a while without new uthreads, and those in the
expires runqueue have to wait until the two are exchanged. This module bounds the wait.

A uthread with `c` credits can be put back into the active runqueue at most `⌈c / 25⌉` times: each
time costs it 25 credits, on top of what its slice costs. With the slice in which it leaves the
active runqueue for good, this is what `slices` counts. The sum over the current uthread and the
active runqueue goes down in every scheduling step that puts a current uthread away, whether it
finishes, yields or is preempted, and picking the next one from the active runqueue leaves it as it
is. As long as the runqueues are not exchanged there is a current uthread, which counts for at
least one.
-/

namespace OSLab

namespace GTThreads

/-- Where `sched_find_best_uthread` gets the next uthread from. -/
inductive Choice where
  | own
  | stolen
  | exchange
deriving DecidableEq, Repr

/-- The branch that `sched_find_best_uthread` takes on the kthread at slot `k`. -/
def choice (flags : Flags) (kthreadCpuMap : KthreadCpuMap) (k : Fin gtMaxCores) :
    Option Choice := do
  let ctx ← kthreadCpuMap k
  if ctx.krunqueue.activeRunq.uthreadMask ≠ 0 then some .own
  else
    let victim ← findVictim flags kthreadCpuMap ctx.cpuid
    some (if victim.isSome then .stolen else .exchange)

/-- The branch that a scheduling step takes. -/
def sliceChoice (flags : Flags) (k : Fin gtMaxCores) (ending : Ending) (clock : Clock) (s : State) :
    Option Choice := do
  let s ← beforeSchedule k ending clock.finish s
  let ctx ← s.kthreadCpuMap k
  choice flags (putAway flags k ctx clock.stop s).kthreadCpuMap k

namespace Credits

open Runqueue Conservation

/-- The scheduler runs on the kthread at slot `k` after a slice of a non-negative length. It does
not exchange the runqueues, and no uthread comes from another kthread. -/
def withoutExchange (flags : Flags) (k : Fin gtMaxCores) (s : State) : Label → Prop
  | .create _ _ _ => False
  | .schedule j ending clock => j = k ∧ sliceChoice flags k ending clock s = some .own ∧
      ∀ ctx ∈ s.kthreadCpuMap k, ∀ u ∈ ctx.krunqueue.curUthread,
        (s.uthreads u).startRunningTimeStep ≤ clock.stop

instance (flags : Flags) (k : Fin gtMaxCores) (s : State) (l : Label) :
    Decidable (withoutExchange flags k s l) :=
  match l with
  | .create _ _ _ => .isFalse id
  | .schedule j ending clock => inferInstanceAs (Decidable (j = k ∧
      sliceChoice flags k ending clock s = some .own ∧
      ∀ ctx ∈ s.kthreadCpuMap k, ∀ u ∈ ctx.krunqueue.curUthread,
        (s.uthreads u).startRunningTimeStep ≤ clock.stop))

/-- The slices that a uthread with these credits can get before it leaves the active runqueue. -/
def slices (credits : ℤ) : ℕ := credits.toNat ⌈/⌉ 25 + 1

/-- The slices that the uthreads can get in total. -/
def totalSlices (uthreads : ℕ → Uthread) (us : List ℕ) : ℕ :=
  (us.map fun u => slices (uthreads u).credits).sum

variable {uthreads uthreads' : ℕ → Uthread} {us members : List ℕ} {u : ℕ} {uObj : Uthread}
  {flags : Flags} {kthreadCpuMap : KthreadCpuMap} {k : Fin gtMaxCores} {ctx : KthreadContext}
  {s s' : State}

/-! ### Credits and slices -/

/-- Going back to the active runqueue costs a slice. -/
theorem slices_sub_lt {credits left : ℤ} (hpos : 0 < left) (hle : left ≤ credits) :
    slices (left - 25) < slices credits := by
  simp only [slices, Nat.ceilDiv_eq_add_pred_div]
  omega

theorem one_le_slices (credits : ℤ) : 1 ≤ slices credits := Nat.le_add_left 1 _

theorem totalSlices_cons : totalSlices uthreads (u :: us) =
    slices (uthreads u).credits + totalSlices uthreads us := by
  rw [totalSlices, List.map_cons, List.sum_cons, totalSlices]

theorem totalSlices_singleton : totalSlices uthreads [u] = slices (uthreads u).credits :=
  totalSlices_cons

theorem totalSlices_append (us vs : List ℕ) : totalSlices uthreads (us ++ vs) =
    totalSlices uthreads us + totalSlices uthreads vs := by
  rw [totalSlices, List.map_append, List.sum_append, totalSlices, totalSlices]

theorem totalSlices_congr
    (h : ∀ u ∈ us, (uthreads' u).credits = (uthreads u).credits) :
    totalSlices uthreads' us = totalSlices uthreads us := by
  rw [totalSlices, totalSlices, List.map_congr_left fun u hu => by rw [h u hu]]

theorem totalSlices_update (hu : u ∉ us) :
    totalSlices (Function.update uthreads u uObj) us = totalSlices uthreads us :=
  totalSlices_congr fun v hv => by rw [Function.update_of_ne (ne_of_mem_of_not_mem hv hu)]

/-- A slice of a non-negative length does not add to the credits. -/
theorem chargeCredits_credits_le (flags : Flags) {stop : ℤ}
    (htime : uObj.startRunningTimeStep ≤ stop) :
    (chargeCredits flags stop uObj).credits ≤ uObj.credits := by
  unfold chargeCredits
  split
  · next hpos =>
    have hstep : 0 ≤ (stop - uObj.startRunningTimeStep).tdiv 1000 :=
      Int.tdiv_nonneg (by omega) (by decide)
    dsimp only
    split
    · omega
    · omega
  · exact le_rfl

/-- In credit mode a uthread that goes back to the active runqueue has credits, and pays for it. -/
theorem requeue_active (hcredit : flags.isCreditScheduler = true)
    (h : (requeue flags uObj).1 = .active) :
    0 < uObj.credits ∧ (requeue flags uObj).2.credits = uObj.credits - 25 := by
  simp only [requeue, hcredit, Bool.not_true, Bool.false_eq_true, if_false] at h ⊢
  split at h
  · next hpos =>
    split at h
    · exact absurd h (by simp)
    · next hyield => exact ⟨hpos, by rw [if_pos hpos, if_neg hyield]⟩
  · exact absurd h (by simp)

/-! ### The two halves of a step -/

/-- Afterwards the kthread at slot `k` runs one uthread and has the others in its active runqueue,
and `n` slices are left to them. -/
def Budget (k : Fin gtMaxCores) (n : ℕ) (s : State) : Prop :=
  ∃ ctx u members, s.kthreadCpuMap k = some ctx ∧ ctx.krunqueue.curUthread = some u ∧
    Represents s.uthreads ctx.krunqueue.activeRunq members ∧ u ∉ members ∧
    n = totalSlices s.uthreads (u :: members)

/-- Writing a uthread that is not in the runqueue. -/
theorem represents_update {runq : Runqueue} (h : Represents uthreads runq members)
    (hkeys : SameKeys uthreads' uthreads) : Represents uthreads' runq members :=
  h.congr (fun v _ => (hkeys v).1) fun v _ => (hkeys v).2

/-- Putting the current uthread away uses up at least one slice. -/
theorem retireCurrent_slices (hcredit : flags.isCreditScheduler = true) {stop : ℤ}
    (hactive : Represents s.uthreads ctx.krunqueue.activeRunq members) (hu : u ∉ members)
    (htime : (s.uthreads u).startRunningTimeStep ≤ stop) :
    ∃ ctx' members', (retireCurrent flags k ctx u stop s).kthreadCpuMap k = some ctx' ∧
      Represents (retireCurrent flags k ctx u stop s).uthreads ctx'.krunqueue.activeRunq members' ∧
      totalSlices (retireCurrent flags k ctx u stop s).uthreads members' <
        totalSlices s.uthreads (u :: members) := by
  obtain ⟨hprio, hgid⟩ := chargeCredits_keys flags stop (s.uthreads u)
  have hcharge := chargeCredits_credits_le flags htime
  have hone := one_le_slices (s.uthreads u).credits
  simp only [retireCurrent]
  generalize chargeCredits flags stop (s.uthreads u) = uObj at hprio hgid hcharge ⊢
  rw [totalSlices_cons]
  split
  · -- the uthread has ended, and its slices are gone
    refine ⟨_, members, Function.update_self .., represents_update hactive ?_, ?_⟩
    · exact sameKeys_update hprio hgid
    · rw [totalSlices_update hu]
      omega
  · have hkeys : SameKeys (Function.update s.uthreads u (requeue flags uObj).2) s.uthreads :=
      sameKeys_update ((requeue_keys flags uObj).1.trans hprio)
        ((requeue_keys flags uObj).2.trans hgid)
    have hactive' := represents_update hactive hkeys
    cases hside : (requeue flags uObj).1 with
    | active =>
      obtain ⟨hpos, hcredits⟩ := requeue_active hcredit hside
      refine ⟨_, members ++ [u], Function.update_self .., hactive'.add hu, ?_⟩
      have hlt := slices_sub_lt hpos hcharge
      calc totalSlices (Function.update s.uthreads u (requeue flags uObj).2) (members ++ [u])
          = totalSlices s.uthreads members + slices (uObj.credits - 25) := by
            rw [totalSlices_append, totalSlices_update hu, totalSlices_singleton,
              Function.update_self, hcredits]
        _ < slices (s.uthreads u).credits + totalSlices s.uthreads members := by omega
    | expires =>
      refine ⟨_, members, Function.update_self .., hactive', ?_⟩
      rw [totalSlices_update hu]
      omega

theorem putAway_slices (hcredit : flags.isCreditScheduler = true) {stop : ℤ}
    (hctx : s.kthreadCpuMap k = some ctx)
    (hactive : Represents s.uthreads ctx.krunqueue.activeRunq members)
    (hcur : ∀ u ∈ ctx.krunqueue.curUthread, u ∉ members)
    (htime : ∀ u ∈ ctx.krunqueue.curUthread, (s.uthreads u).startRunningTimeStep ≤ stop) :
    ∃ ctx' members', (putAway flags k ctx stop s).kthreadCpuMap k = some ctx' ∧
      Represents (putAway flags k ctx stop s).uthreads ctx'.krunqueue.activeRunq members' ∧
      totalSlices (putAway flags k ctx stop s).uthreads members' +
          ctx.krunqueue.curUthread.toList.length ≤
        totalSlices s.uthreads (ctx.krunqueue.curUthread.toList ++ members) := by
  rw [putAway]
  cases hcurrent : ctx.krunqueue.curUthread with
  | none => exact ⟨ctx, members, hctx, hactive, le_rfl⟩
  | some u =>
    obtain ⟨ctx', members', hctx', hactive', hlt⟩ :=
      retireCurrent_slices (k := k) hcredit hactive (hcur u hcurrent) (htime u hcurrent)
    exact ⟨ctx', members', hctx', hactive', hlt⟩

/-- Picking the next uthread from the active runqueue leaves the slices as they are. -/
theorem budget_dispatch {start : ℤ} {runq : Runqueue} (hu : u ∈ members) (hnodup : members.Nodup)
    (hleft : Represents s.uthreads runq (members.erase u)) :
    Budget k (totalSlices s.uthreads members)
      (dispatch k u start { s with
        kthreadCpuMap := Function.update s.kthreadCpuMap k (some (ctx.setActive runq)) }) := by
  have hkeys : SameKeys (Function.update s.uthreads u
      { s.uthreads u with uthreadState := .running, startRunningTimeStep := start })
      s.uthreads := sameKeys_update rfl rfl
  have hnot : u ∉ members.erase u := hnodup.not_mem_erase
  refine ⟨{ ctx.setActive runq with
      krunqueue := { (ctx.setActive runq).krunqueue with curUthread := some u } },
    u, members.erase u, ?_, rfl, represents_update hleft hkeys, hnot, ?_⟩
  · simp only [dispatch, Function.update_self, Option.map_some]
  · calc totalSlices s.uthreads members
        = slices (s.uthreads u).credits + totalSlices s.uthreads (members.erase u) :=
          (List.sum_map_erase (fun u => slices (s.uthreads u).credits) hu).symm
      _ = _ := by
          simp only [dispatch, totalSlices_cons, Function.update_self, totalSlices_update hnot]

/-- The choice `exchange` is the branch that exchanges the runqueues; it finds no uthread. -/
theorem schedFindBestUthread_of_exchange (hctx : kthreadCpuMap k = some ctx)
    (hactive : Represents uthreads ctx.krunqueue.activeRunq members)
    (h : choice flags kthreadCpuMap k = some .exchange) :
    schedFindBestUthread flags uthreads kthreadCpuMap k =
      some (none, Function.update kthreadCpuMap k (some ctx.exchanged)) := by
  simp only [choice, hctx, Option.bind_eq_bind, Option.bind_some] at h
  split at h
  · exact absurd h (by simp)
  · next hmask =>
    rw [not_not] at hmask
    obtain rfl : members = [] := hactive.uthreadMask_eq_zero_iff.mp hmask
    obtain ⟨victim, hvictim, h⟩ := Option.bind_eq_some_iff.mp h
    cases victim with
    | some victim => exact absurd h (by simp)
    | none => exact schedFindBestUthread_exchange hctx hactive hvictim

/-- With this choice there is something in the active runqueue. -/
theorem uthreadMask_ne_zero_of_choice (hctx : kthreadCpuMap k = some ctx)
    (h : choice flags kthreadCpuMap k = some .own) : ctx.krunqueue.activeRunq.uthreadMask ≠ 0 := by
  intro hmask
  simp only [choice, hctx, Option.bind_eq_bind, Option.bind_some, hmask, ne_eq, not_true_eq_false,
    if_false] at h
  obtain ⟨victim, -, h⟩ := Option.bind_eq_some_iff.mp h
  split at h <;> simp at h

/-- What the current uthread writes before it enters the scheduler is neither its credits nor the
start of its slice. -/
theorem beforeSchedule_frame {ending : Ending} {finish : ℤ}
    (hs' : beforeSchedule k ending finish s = some s') :
    s'.kthreadCpuMap = s.kthreadCpuMap ∧ SameKeys s'.uthreads s.uthreads ∧
      ∀ u, (s'.uthreads u).credits = (s.uthreads u).credits ∧
        (s'.uthreads u).startRunningTimeStep = (s.uthreads u).startRunningTimeStep := by
  cases ending with
  | preempted =>
    obtain rfl := Option.some.inj hs'
    exact ⟨rfl, fun _ => ⟨rfl, rfl⟩, fun _ => ⟨rfl, rfl⟩⟩
  | finished | yielded =>
    obtain ⟨u, -, hs'⟩ := Option.bind_eq_some_iff.mp hs'
    obtain rfl := Option.some.inj hs'
    refine ⟨rfl, sameKeys_update rfl rfl, fun v => ?_⟩
    by_cases hv : v = u
    · simp only [hv, Function.update_self, and_self]
    · simp only [Function.update_of_ne hv, and_self]

/-! ### All runs -/

/-- A step that neither exchanges the runqueues nor steals uses up a slice of the uthread that it
puts away. Afterwards there is a current uthread. -/
theorem budget_step {cpuids : Fin gtMaxCores → Option ℕ} {l : Label}
    (hcredit : flags.isCreditScheduler = true) (hctx : s.kthreadCpuMap k = some ctx)
    (hactive : Represents s.uthreads ctx.krunqueue.activeRunq members)
    (hcur : ∀ u ∈ ctx.krunqueue.curUthread, u ∉ members) (hl : withoutExchange flags k s l)
    (hstep : (gtthreads flags cpuids).step s l = some s') :
    ∃ m, Budget k m s' ∧ m + ctx.krunqueue.curUthread.toList.length ≤
      totalSlices s.uthreads (ctx.krunqueue.curUthread.toList ++ members) := by
  cases l with
  | create => exact hl.elim
  | schedule j ending clock =>
    obtain ⟨rfl, hchoice, htime⟩ := hl
    obtain ⟨s₁, hs₁, hs'⟩ := Option.bind_eq_some_iff.mp hstep
    obtain ⟨hmap, hkeys, hfields⟩ := beforeSchedule_frame hs₁
    have hctx₁ : s₁.kthreadCpuMap j = some ctx := by rw [hmap, hctx]
    have htime₁ : ∀ u ∈ ctx.krunqueue.curUthread,
        (s₁.uthreads u).startRunningTimeStep ≤ clock.stop := by
      intro u hu
      rw [(hfields u).2]
      exact htime ctx hctx u hu
    -- the current uthread is put away
    obtain ⟨ctx₂, members₂, hctx₂, hactive₂, hle⟩ :=
      putAway_slices hcredit hctx₁ (represents_update hactive hkeys) hcur htime₁
    rw [totalSlices_congr fun u _ => (hfields u).1] at hle
    simp only [sliceChoice, hs₁, Option.bind_eq_bind, Option.bind_some, hctx₁] at hchoice
    simp only [uthreadSchedule, hctx₁, Option.bind_eq_bind, Option.bind_some] at hs'
    generalize putAway flags j ctx clock.stop s₁ = s₂ at hctx₂ hactive₂ hle hchoice hs'
    -- the next one is taken from the active runqueue
    have hne : members₂ ≠ [] :=
      mt hactive₂.uthreadMask_eq_zero_iff.mpr (uthreadMask_ne_zero_of_choice hctx₂ hchoice)
    obtain ⟨u, runq, hsched, hu, -, hleft⟩ := schedFindBestUthread_own flags hctx₂ hactive₂ hne
    rw [hsched, Option.bind_some] at hs'
    obtain rfl := Option.some.inj hs'
    exact ⟨_, budget_dispatch hu hactive₂.nodup hleft, hle⟩

/-- **The expires runqueue is not starved.** In credit mode, from any contents of the active
runqueue, the scheduler of a kthread is called at most as often without exchanging its runqueues as
there are slices left to the current uthread and those in the active runqueue, whatever the slices
take and however they end. -/
theorem calls_without_exchange_le (flags : Flags) (hcredit : flags.isCreditScheduler = true)
    (cpuids : Fin gtMaxCores → Option ℕ) (k : Fin gtMaxCores) (s s' : State) (ctx : KthreadContext)
    (members : List ℕ) (hctx : s.kthreadCpuMap k = some ctx)
    (hactive : Represents s.uthreads ctx.krunqueue.activeRunq members)
    (hcur : ∀ u ∈ ctx.krunqueue.curUthread, u ∉ members) (calls : List Label)
    (hrun : (gtthreads flags cpuids).guardedRun (withoutExchange flags k) s calls = some s') :
    calls.length ≤ totalSlices s.uthreads (ctx.krunqueue.curUthread.toList ++ members) := by
  cases calls with
  | nil => exact Nat.zero_le _
  | cons l calls =>
    obtain ⟨hl, s₁, hs₁, hrest⟩ := System.guardedRun_cons_eq_some.mp hrun
    -- after the first call there is a current uthread, and every further one uses up a slice
    obtain ⟨n, hbudget, hn⟩ := budget_step hcredit hctx hactive hcur hl hs₁
    have hfurther : ∀ n s l s', Budget k n s → withoutExchange flags k s l →
        (gtthreads flags cpuids).step s l = some s' → ∃ m < n, Budget k m s' := by
      rintro n s l s' ⟨ctx, u, members, hctx, hu, hactive, hnot, rfl⟩ hl hstep
      have hcur : ∀ v ∈ ctx.krunqueue.curUthread, v ∉ members := by
        intro v hv
        obtain rfl := Option.some.inj (hu.symm.trans hv)
        exact hnot
      obtain ⟨m, hm, hle⟩ := budget_step hcredit hctx hactive hcur hl hstep
      rw [hu] at hle
      exact ⟨m, hle, hm⟩
    obtain ⟨m, ⟨ctx', u, members', -, -, -, -, rfl⟩, hm⟩ :=
      System.length_add_le_of_budget hfurther hbudget hrest
    -- the last current uthread still has a slice
    have hone := one_le_slices (s'.uthreads u).credits
    rw [totalSlices_cons] at hm
    calc (l :: calls).length = calls.length + 1 := List.length_cons
      _ ≤ n := by omega
      _ ≤ _ := le_of_add_le_left hn

/-- A uthread with 30 credits has three slices: it is dispatched, preempted twice, and after the
third slice it would go to the expires runqueue. -/
theorem calls_without_exchange_le_three :
    ∃ s s' ctx members,
      s.kthreadCpuMap 1 = some ctx ∧ Represents s.uthreads ctx.krunqueue.activeRunq members ∧
      (gtthreads ⟨true, true, true⟩ pairCpuids).guardedRun
        (withoutExchange ⟨true, true, true⟩ 1) s
        [.schedule 1 .preempted ⟨0, 0, 10⟩, .schedule 1 .preempted ⟨0, 20, 30⟩,
          .schedule 1 .preempted ⟨0, 40, 50⟩] = some s' ∧
      3 ≤ totalSlices s.uthreads (ctx.krunqueue.curUthread.toList ++ members) := by
  have hrun : ((gtthreads ⟨true, true, true⟩ pairCpuids).guardedRun System.anyStep
      (gtthreads ⟨true, true, true⟩ pairCpuids).init [.create 0 30 0]).any
      (fun s => (s.kthreadCpuMap 1).any (fun ctx => ctx.krunqueue.curUthread.isNone) &&
        ((gtthreads ⟨true, true, true⟩ pairCpuids).guardedRun
          (withoutExchange ⟨true, true, true⟩ 1) s
          [.schedule 1 .preempted ⟨0, 0, 10⟩, .schedule 1 .preempted ⟨0, 20, 30⟩,
            .schedule 1 .preempted ⟨0, 40, 50⟩]).isSome) = true := by
    decide +kernel
  obtain ⟨s, hr, hs⟩ := System.Reachable.of_any hrun
  obtain ⟨hidle, hcalls⟩ := Bool.and_eq_true_iff.mp hs
  obtain ⟨ctx, hctx, hnone⟩ := (Option.any_eq_true _ _).mp hidle
  obtain ⟨s', hcalls⟩ := Option.isSome_iff_exists.mp hcalls
  have hsound : Sound pairCpuids s := sound_of_reachable hr
  obtain ⟨members, hmembers⟩ := (hsound.conserved.wellFormed 1 ctx hctx).active
  -- the kthread has not dispatched anything yet
  have hcur : ∀ u ∈ ctx.krunqueue.curUthread, u ∉ members := by
    intro u hu
    rw [Option.isNone_iff_eq_none.mp hnone] at hu
    exact absurd hu (by simp)
  exact ⟨s, s', ctx, members, hctx, hmembers, hcalls,
    calls_without_exchange_le _ rfl _ 1 s s' ctx members hctx hmembers hcur _ hcalls⟩

end Credits

end GTThreads

end OSLab
