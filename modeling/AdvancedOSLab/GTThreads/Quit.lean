import AdvancedOSLab.GTThreads.Conservation

/-!
# Kthreads that have quit

A kthread that finds nothing to run sets `KTHREAD_DONE` when every uthread created so far has ended,
and leaves the loop of `gtthread_app_start` for good: the timer signal is no longer relayed to it,
and the other kthreads pass over it when they look for a uthread to steal. A uthread in one of its
runqueues would never run. When the flag is set there is none: the counter of live uthreads is zero,
so by conservation every uthread is a zombie.

`ksched_find_target`, however, does not look at the flag. If the main kthread creates a uthread
after all earlier ones have ended, the round robin may give it to a kthread that has quit. This is
the only way in which a uthread is stranded: in every run in which the next kthread in the round
robin has not quit, the runqueues of a kthread that has quit are empty.
-/

namespace OSLab

namespace GTThreads

/-- Both runqueues of the kthread are empty. -/
def KthreadRunqueue.Drained (krunq : KthreadRunqueue) : Prop :=
  ∀ p g, krunq.activeRunq.queue p g = [] ∧ krunq.expiresRunq.queue p g = []

namespace Quit

open Runqueue Conservation

variable {kthreadCpuMap kthreadCpuMap' : KthreadCpuMap} {k : Fin gtMaxCores}
  {ctx : KthreadContext} {krunq : KthreadRunqueue} {flags : Flags} {s s' : State}

/-- The runqueues of the kthreads that have quit are empty. -/
def NoneStranded (kthreadCpuMap : KthreadCpuMap) : Prop :=
  ∀ k ctx, kthreadCpuMap k = some ctx → ctx.kthreadDone = true → ctx.krunqueue.Drained

/-- The division of work between the kthreads. The main kthread creates uthreads; the others run
the scheduler, each as long as it has not quit. -/
def mainCreates (main : Fin gtMaxCores) (s : State) : Label → Prop
  | .create _ _ _ => True
  | .schedule k _ _ => k ≠ main ∧ ∀ ctx ∈ s.kthreadCpuMap k, ctx.kthreadDone = false

instance (main : Fin gtMaxCores) (s : State) (l : Label) : Decidable (mainCreates main s l) :=
  match l with
  | .create _ _ _ => .isTrue trivial
  | .schedule k _ _ =>
    inferInstanceAs (Decidable (k ≠ main ∧ ∀ ctx ∈ s.kthreadCpuMap k, ctx.kthreadDone = false))

/-- The slot that the round robin of the group comes to after passing over `d` others. -/
def slotBehind (s : State) (uGid : Fin maxUthreadGroups) (d : ℕ) : Fin gtMaxCores :=
  Fin.ofNat gtMaxCores (s.lastUgroupKthread uGid + 1 + d)

/-- A uthread is created only while the first kthread registered behind the last one that a uthread
of the group went to has not quit. -/
def nextAwake (s : State) : Label → Prop
  | .create uGid _ _ => ∀ d < gtMaxCores,
      (∀ e < d, (s.kthreadCpuMap (slotBehind s uGid e)).isNone) →
      ∀ ctx ∈ s.kthreadCpuMap (slotBehind s uGid d), ctx.kthreadDone = false
  | .schedule _ _ _ => True

instance (s : State) (l : Label) : Decidable (nextAwake s l) :=
  match l with
  | .create uGid _ _ => inferInstanceAs (Decidable (∀ d < gtMaxCores,
      (∀ e < d, (s.kthreadCpuMap (slotBehind s uGid e)).isNone) →
      ∀ ctx ∈ s.kthreadCpuMap (slotBehind s uGid d), ctx.kthreadDone = false))
  | .schedule _ _ _ => .isTrue trivial

/-! ### Runqueues without uthreads -/

theorem drained_iff : krunq.Drained ↔ ∀ u, ¬ krunq.Holds u .active ∧ ¬ krunq.Holds u .expires := by
  simp only [KthreadRunqueue.Drained, KthreadRunqueue.Holds, List.eq_nil_iff_forall_not_mem]
  constructor
  · intro h u
    constructor
    · rintro ⟨p, g, hu⟩
      exact (h p g).1 u hu
    · rintro ⟨p, g, hu⟩
      exact (h p g).2 u hu
  · intro h p g
    exact ⟨fun u hu => (h u).1 ⟨p, g, hu⟩, fun u hu => (h u).2 ⟨p, g, hu⟩⟩

/-- When no uthread is live, the runqueues of all kthreads are empty. -/
theorem noneStranded_of_cur_eq_zero (h : Conserved s) (hcur : s.kthreadCurUthreads = 0) :
    NoneStranded s.kthreadCpuMap := by
  have hlive : live s = ∅ := Finset.card_eq_zero.mp (h.cur_eq.symm.trans hcur)
  -- a uthread in a runqueue would be live, as it is on no list of zombies
  have hnot : ∀ u (place : Place), place.slot ≠ .zombie → ¬ At s.kthreadCpuMap u place := by
    intro u place hslot hat
    have hmem : u ∈ live s := mem_live.mpr ⟨h.created u place hat, fun k hzombie =>
      hslot (congrArg Place.slot (h.eq_of_at hzombie hat))⟩
    simp [hlive] at hmem
  intro k ctx hctx _
  refine drained_iff.mpr fun u => ⟨fun hholds => ?_, fun hholds => ?_⟩
  · exact hnot u ⟨k, .active⟩ (by simp) ⟨ctx, hctx, hholds⟩
  · exact hnot u ⟨k, .expires⟩ (by simp) ⟨ctx, hctx, hholds⟩

/-! ### What a step writes -/

/-- Writing a kthread that has not quit strands nothing. -/
theorem NoneStranded.update (h : NoneStranded kthreadCpuMap) (hawake : ctx.kthreadDone = false) :
    NoneStranded (Function.update kthreadCpuMap k (some ctx)) := by
  intro j ctx' hj hdone
  rw [Function.update_apply] at hj
  split at hj
  · obtain rfl := Option.some.inj hj
    exact absurd hawake (by simp [hdone])
  · exact h j ctx' hj hdone

/-- The choice of the next uthread writes the kthread that makes it, and at most one that it steals
from. Neither has quit: the second one had a uthread in its active runqueue. -/
theorem NoneStranded.found {uthreads : ℕ → Uthread} {uObj : Option ℕ}
    (h : NoneStranded kthreadCpuMap) (hctx : kthreadCpuMap k = some ctx)
    (hawake : ctx.kthreadDone = false)
    (hfound : Found uthreads kthreadCpuMap k uObj kthreadCpuMap') :
    NoneStranded kthreadCpuMap' ∧ ∃ ctx', kthreadCpuMap' k = some ctx' ∧
      ctx'.kthreadDone = false := by
  cases hfound with
  | own hctx' =>
    obtain rfl := Option.some.inj (hctx.symm.trans hctx')
    exact ⟨h.update hawake, _, Function.update_self .., hawake⟩
  | nothing hctx' =>
    obtain rfl := Option.some.inj (hctx.symm.trans hctx')
    exact ⟨h.update hawake, _, Function.update_self .., hawake⟩
  | @stolen _ i other members u otherRunq runq hctx' _ _ hother hmembers hu =>
    obtain rfl := Option.some.inj (hctx.symm.trans hctx')
    -- a kthread that has quit has no uthread to steal
    have hnot : other.kthreadDone = false := by
      by_contra hdone
      have hdrained := drained_iff.mp (h i other hother (by simpa using hdone)) u
      exact hdrained.1 (hmembers.mem_iff.mpr hu)
    have hvictim : NoneStranded
        (Function.update kthreadCpuMap i (some (other.setActive otherRunq))) := h.update hnot
    exact ⟨hvictim.update (by exact hawake), _, Function.update_self .., hawake⟩

/-- The end of a scheduling step sets the flag only when no uthread is live. -/
theorem NoneStranded.resume {uObj : Option ℕ} {start : ℤ} (h : NoneStranded s.kthreadCpuMap)
    (hctx : s.kthreadCpuMap k = some ctx) (hawake : ctx.kthreadDone = false)
    (hconserved : Conserved (resume k uObj start s)) :
    NoneStranded (resume k uObj start s).kthreadCpuMap := by
  cases uObj with
  | some u =>
    simp only [GTThreads.resume, dispatch, hctx, Option.map_some]
    exact h.update hawake
  | none =>
    by_cases hquit : s.kthreadTotUthreads ≠ 0 ∧ s.kthreadCurUthreads = 0
    · refine noneStranded_of_cur_eq_zero hconserved ?_
      rw [GTThreads.resume, quitTest, if_pos hquit]
      exact hquit.2
    · simp only [GTThreads.resume, quitTest, if_neg hquit]
      exact h

/-! ### All runs -/

/-- The kthread that `ksched_find_target` chooses is the one that `nextAwake` speaks of. -/
theorem awake_of_kschedFindTarget {uGid : Fin maxUthreadGroups} {credits now : ℤ}
    {target : Fin gtMaxCores} (hnext : nextAwake s (.create uGid credits now))
    (htarget : kschedFindTarget s.kthreadCpuMap (s.lastUgroupKthread uGid) = some target)
    (hctx : s.kthreadCpuMap target = some ctx) : ctx.kthreadDone = false := by
  obtain ⟨d, hd, rfl, hbefore⟩ := eq_of_kschedFindTarget htarget
  exact hnext d hd (fun e he => Option.isNone_iff_eq_none.mpr (hbefore e he)) ctx hctx

theorem NoneStranded.step {cpuids : Fin gtMaxCores → Option ℕ} {main : Fin gtMaxCores} {l : Label}
    (h : NoneStranded s.kthreadCpuMap) (hsound : Sound cpuids s) (hmain : mainCreates main s l)
    (hnext : nextAwake s l) (hstep : (gtthreads flags cpuids).step s l = some s') :
    NoneStranded s'.kthreadCpuMap := by
  have hconserved : Conserved s' := (hsound.step hstep).conserved
  cases l with
  | create uGid credits now =>
    obtain ⟨target, htarget, hs'⟩ := Option.bind_eq_some_iff.mp hstep
    obtain ⟨ctx, hctx, hs'⟩ := Option.bind_eq_some_iff.mp hs'
    obtain rfl := Option.some.inj hs'
    have hawake : ctx.kthreadDone = false := awake_of_kschedFindTarget hnext htarget hctx
    exact h.update hawake
  | schedule k ending clock =>
    obtain ⟨s₁, hs₁, hs'⟩ := Option.bind_eq_some_iff.mp hstep
    obtain ⟨h₁, hmap⟩ := hsound.conserved.beforeSchedule hs₁
    obtain ⟨ctx, hctx, -⟩ := Option.bind_eq_some_iff.mp hs'
    have hawake : ctx.kthreadDone = false := hmain.2 ctx (hmap ▸ hctx)
    obtain ⟨s₂, uObj, map', hs₂, -, hfound, rfl⟩ := h₁.found_of_uthreadSchedule hctx hs'
    obtain ⟨ctx₂, hmap₂, -, -, hdone₂⟩ := putAway_kthreadCpuMap hctx flags clock.stop
    rw [← hs₂] at hmap₂
    -- the kthread is awake when it has put its current uthread away, and has stranded nothing
    have hctx₂ : s₂.kthreadCpuMap k = some ctx₂ := by rw [hmap₂, Function.update_self]
    have h₂ : NoneStranded s₂.kthreadCpuMap := by
      rw [hmap₂, hmap]
      exact h.update (hdone₂.trans hawake)
    obtain ⟨h₃, ctx₃, hctx₃, hawake₃⟩ := h₂.found hctx₂ (hdone₂.trans hawake) hfound
    exact NoneStranded.resume (s := { s₂ with kthreadCpuMap := map' }) h₃ hctx₃ hawake₃ hconserved

/-- The invariant of a run. -/
structure Quiet (cpuids : Fin gtMaxCores → Option ℕ) (s : State) : Prop where
  sound : Sound cpuids s
  noneStranded : NoneStranded s.kthreadCpuMap

/-- **No uthread is stranded.** The main kthread creates uthreads and the others schedule, in any
order and in any mode. If every uthread is created while the next kthread of the round robin has
not quit, then in every state of the run the runqueues of the kthreads that have quit are empty. -/
theorem no_uthread_stranded (flags : Flags) (cpuids : Fin gtMaxCores → Option ℕ)
    (main : Fin gtMaxCores) (s : State)
    (hr : (gtthreads flags cpuids).Reachable (fun s l => mainCreates main s l ∧ nextAwake s l) s) :
    NoneStranded s.kthreadCpuMap := by
  have h₀ : NoneStranded (initial cpuids).kthreadCpuMap := by
    -- nobody has quit at the start
    intro k ctx hctx hdone
    obtain ⟨cpuid, -, rfl⟩ := Option.map_eq_some_iff.mp hctx
    exact absurd hdone (by simp)
  have h : Quiet cpuids s := by
    refine hr.invariant ⟨sound_initial cpuids, h₀⟩ ?_
    intro s l s' _ h hl hstep
    exact ⟨h.sound.step hstep, h.noneStranded.step h.sound hl.1 hl.2 hstep⟩
  exact h.noneStranded

/-- Two kthreads. The second one runs the only uthread to its end and quits. -/
theorem no_uthread_stranded_pair :
    ∃ s, (gtthreads ⟨true, true, true⟩ pairCpuids).Reachable
        (fun s l => mainCreates 0 s l ∧ nextAwake s l) s ∧
      (s.kthreadCpuMap 1).any KthreadContext.kthreadDone = true ∧
      NoneStranded s.kthreadCpuMap := by
  have hrun : ((gtthreads ⟨true, true, true⟩ pairCpuids).guardedRun
      (fun s l => mainCreates 0 s l ∧ nextAwake s l)
      (gtthreads ⟨true, true, true⟩ pairCpuids).init
      [.create 0 100 0, .schedule 1 .preempted ⟨0, 0, 5⟩, .schedule 1 .finished ⟨9, 9, 9⟩]).any
      (fun s => (s.kthreadCpuMap 1).any KthreadContext.kthreadDone) = true := by
    decide +kernel
  obtain ⟨s, hr, hdone⟩ := System.Reachable.of_any hrun
  exact ⟨s, hr, hdone, no_uthread_stranded _ _ 0 s hr⟩

/-- After the second kthread has quit, the main kthread creates another uthread, of another group.
The round robin of that group starts with the second kthread too, and the uthread stays there. -/
theorem uthread_stranded_on_done_kthread :
    ∃ s, (gtthreads ⟨true, true, true⟩ pairCpuids).Reachable (mainCreates 0) s ∧
      ¬ NoneStranded s.kthreadCpuMap := by
  have hrun : ((gtthreads ⟨true, true, true⟩ pairCpuids).guardedRun (mainCreates 0)
      (gtthreads ⟨true, true, true⟩ pairCpuids).init
      [.create 0 100 0, .schedule 1 .preempted ⟨0, 0, 5⟩, .schedule 1 .finished ⟨9, 9, 9⟩,
        .create 1 100 20]).any
      (fun s => (s.kthreadCpuMap 1).any fun ctx => ctx.kthreadDone &&
        decide (ctx.krunqueue.activeRunq.queue defaultUthreadPriority 1 = [1])) = true := by
    decide +kernel
  obtain ⟨s, hr, hs⟩ := System.Reachable.of_any hrun
  obtain ⟨ctx, hctx, hs⟩ := (Option.any_eq_true _ _).mp hs
  obtain ⟨hdone, hqueue⟩ := Bool.and_eq_true_iff.mp hs
  refine ⟨s, hr, fun h => ?_⟩
  have hempty := (h 1 ctx hctx hdone defaultUthreadPriority 1).1
  exact absurd (hempty.symm.trans (of_decide_eq_true hqueue)) (by simp)

end Quit

end GTThreads

end OSLab
