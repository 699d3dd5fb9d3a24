import AdvancedOSLab.GTThreads.Quit
import AdvancedOSLab.GTThreads.Starvation

/-!
# The end of a program

A program creates its uthreads on the main kthread and then calls `gtthread_app_exit`. There the
main kthread schedules like the others, until it finds nothing to run and no live uthread. It then
leaves its loop and waits until `kthread_cur_uthreads` is zero. This module has the whole program:
the main kthread with the phases of its code, and the other kthreads, which run the loop of
`gtthread_app_start` until they quit.

`gtthread_app_init` starts the timer and installs the signal handlers, so that the main kthread can
be made to schedule while it still creates uthreads. It then has no current uthread in whose context
`uthread_schedule` could save the program, and `kthread_env` is only saved by `gtthread_app_exit`.
So it runs uthreads and never gets back (`MainPhase.lost`), and it jumps to a context that was never
saved when it finds nothing to run (`MainPhase.crashed`).

* `app_exit_waits_for_all`: when `gtthread_app_exit` returns, at least one uthread was created, and
  all that were created have ended and are on the lists of zombies. This holds already when the main
  kthread leaves its loop, so the loop behind it, which waits for the other kthreads, never waits.
* `app_exit_can_return`: without such a signal the program never gets into a state from which
  `gtthread_app_exit` cannot return. From every state, once a uthread was created, there is a
  continuation in which all uthreads are dispatched, end, and the main kthread returns. As in
  `Quit.lean`, this needs that no uthread is given to a kthread that has quit. It uses that no
  uthread starves.
* `signal_while_creating_loses_main`: with such a signal the call is never made.
-/

namespace OSLab

namespace GTThreads

namespace AppExit

open Conservation Starvation Quit

/-- The code that the main kthread executes. -/
inductive MainPhase where
  /-- the program creates uthreads -/
  | creating
  /-- uthreads, after a signal that came while it created uthreads; the way back is lost -/
  | lost
  /-- what it finds in a `kthread_env` that was never saved -/
  | crashed
  /-- the first loop of `gtthread_app_exit` -/
  | scheduling
  /-- the second loop -/
  | waiting
  | returned
deriving DecidableEq, Repr

/-- The main kthread can enter `uthread_schedule`, from its loop or from a signal handler. Behind
the first loop of `gtthread_app_exit` it blocks the signals. -/
def MainPhase.schedules : MainPhase → Bool
  | .creating | .lost | .scheduling => true
  | .crashed | .waiting | .returned => false

/-- What the main kthread executes after a scheduling step that has made `curUthread` its current
uthread. Without one `uthread_schedule` jumps to `kthread_env`, which is saved in the first loop of
`gtthread_app_exit` only. -/
def MainPhase.afterSchedule (curUthread : Option ℕ) : MainPhase → MainPhase
  | .creating | .lost => if curUthread.isSome then .lost else .crashed
  | phase => phase

/-- The state of the program. -/
structure Program where
  lib : State
  main : MainPhase

/-- The steps of the program. -/
inductive Event where
  | create (uGid : Fin maxUthreadGroups) (credits now : ℤ)
  /-- `gtthread_app_exit` is called -/
  | appExit
  | schedule (k : Fin gtMaxCores) (ending : Ending) (clock : Clock)
  /-- the main kthread leaves the first loop -/
  | leaveLoop
  /-- it leaves the second one -/
  | leaveWait

/-- The kthread is registered, and `KTHREAD_DONE` is not set. -/
def Awake (s : State) (k : Fin gtMaxCores) : Prop :=
  (s.kthreadCpuMap k).map KthreadContext.kthreadDone = some false

instance (s : State) (k : Fin gtMaxCores) : Decidable (Awake s k) :=
  inferInstanceAs (Decidable (_ = _))

/-- `k_ctx->kthread_flags &= ~KTHREAD_DONE` -/
def clearDone (main : Fin gtMaxCores) (s : State) : State :=
  { s with
    kthreadCpuMap := Function.update s.kthreadCpuMap main
      ((s.kthreadCpuMap main).map fun ctx => { ctx with kthreadDone := false }) }

/-- A program whose main kthread is at slot `main`. -/
def program (flags : Flags) (cpuids : Fin gtMaxCores → Option ℕ) (main : Fin gtMaxCores) :
    System Program Event where
  init := ⟨initial cpuids, .creating⟩
  step p
    | .create uGid credits now =>
      if p.main = .creating then
        ((gtthreads flags cpuids).step p.lib (.create uGid credits now)).map fun lib =>
          { p with lib := lib }
      else none
    | .appExit =>
      if p.main = .creating then some ⟨clearDone main p.lib, .scheduling⟩ else none
    | .schedule k ending clock =>
      -- a kthread that has quit does not schedule
      if Awake p.lib k ∧ p.main ≠ .crashed ∧ (k = main → p.main.schedules) then
        ((gtthreads flags cpuids).step p.lib (.schedule k ending clock)).map fun lib =>
          ⟨lib, if k = main then
            p.main.afterSchedule ((lib.kthreadCpuMap main).bind fun ctx => ctx.krunqueue.curUthread)
            else p.main⟩
      else none
    | .leaveLoop =>
      if p.main = .scheduling ∧ ¬ Awake p.lib main then some { p with main := .waiting } else none
    | .leaveWait =>
      if p.main = .waiting ∧ p.lib.kthreadCurUthreads = 0 then some { p with main := .returned }
      else none

variable {flags : Flags} {cpuids : Fin gtMaxCores → Option ℕ} {main k j : Fin gtMaxCores}
  {s s' : State} {u : ℕ} {ctx : KthreadContext} {ending : Ending} {clock : Clock}

/-! ### The phases of the main kthread -/

/-- The main kthread comes to no other phase by scheduling than the two it has no way back from. -/
theorem MainPhase.eq_of_afterSchedule {phase phase' : MainPhase} {curUthread : Option ℕ}
    (h : phase.afterSchedule curUthread = phase') (hlost : phase' ≠ .lost)
    (hcrashed : phase' ≠ .crashed) : phase = phase' := by
  cases phase with
  | creating | lost =>
    rw [afterSchedule] at h
    split at h
    · exact absurd h.symm hlost
    · exact absurd h.symm hcrashed
  | crashed | scheduling | waiting | returned => exact h

/-- A scheduling step of the program is one of the library. -/
theorem schedule_of_step {p p' : Program}
    (hstep : (program flags cpuids main).step p (.schedule k ending clock) = some p') :
    Awake p.lib k ∧
      (gtthreads flags cpuids).step p.lib (.schedule k ending clock) = some p'.lib ∧
      ∀ phase, phase ≠ .lost → phase ≠ .crashed → p'.main = phase → p.main = phase := by
  obtain ⟨⟨hawake, -, -⟩, hstep⟩ := Option.ite_none_right_eq_some.mp hstep
  obtain ⟨lib, hlib, rfl⟩ := Option.map_eq_some_iff.mp hstep
  refine ⟨hawake, hlib, fun phase hlost hcrashed heq => ?_⟩
  dsimp only at heq
  split at heq
  · exact MainPhase.eq_of_afterSchedule heq hlost hcrashed
  · exact heq

/-- The main kthread has no way back to the program. -/
def Lost (p : Program) : Prop := p.main = .lost ∨ p.main = .crashed

/-- The main kthread does not find the way back. -/
theorem Lost.step {p p' : Program} {e : Event} (h : Lost p)
    (hstep : (program flags cpuids main).step p e = some p') : Lost p' := by
  -- all other events belong to other phases
  have hother : ∀ phase, phase ≠ .lost → phase ≠ .crashed → p.main ≠ phase := by
    rintro phase hlost hcrashed rfl
    exact h.elim hlost hcrashed
  cases e with
  | create _ _ _ | appExit =>
    obtain ⟨hphase, -⟩ := Option.ite_none_right_eq_some.mp hstep
    exact absurd hphase (hother _ (by decide) (by decide))
  | schedule k ending clock =>
    by_contra hback
    obtain ⟨hlost, hcrashed⟩ := not_or.mp hback
    obtain ⟨-, -, hphase⟩ := schedule_of_step hstep
    exact hother _ hlost hcrashed (hphase _ hlost hcrashed rfl)
  | leaveLoop | leaveWait =>
    obtain ⟨⟨hphase, -⟩, -⟩ := Option.ite_none_right_eq_some.mp hstep
    exact absurd hphase (hother _ (by decide) (by decide))

/-! ### What a scheduling step does to counters and flags -/

/-- The same kthreads have quit. -/
def SameDone (kthreadCpuMap' kthreadCpuMap : KthreadCpuMap) : Prop :=
  ∀ k, (kthreadCpuMap' k).map KthreadContext.kthreadDone =
    (kthreadCpuMap k).map KthreadContext.kthreadDone

theorem sameDone_update {kthreadCpuMap : KthreadCpuMap} {ctx' : KthreadContext}
    (hctx : kthreadCpuMap k = some ctx) (hdone : ctx'.kthreadDone = ctx.kthreadDone) :
    SameDone (Function.update kthreadCpuMap k (some ctx')) kthreadCpuMap := by
  intro j
  by_cases hj : j = k
  · subst hj
    rw [Function.update_self, hctx, Option.map_some, Option.map_some, hdone]
  · rw [Function.update_of_ne hj]

/-- The choice of the next uthread writes no flag. -/
theorem sameDone_found {uthreads : ℕ → Uthread} {kthreadCpuMap kthreadCpuMap' : KthreadCpuMap}
    {uObj : Option ℕ} (h : Found uthreads kthreadCpuMap k uObj kthreadCpuMap') :
    SameDone kthreadCpuMap' kthreadCpuMap := by
  cases h with
  | own hctx => exact sameDone_update hctx rfl
  | nothing hctx => exact sameDone_update hctx rfl
  | @stolen ctx i other members v otherRunq runq hctx hempty hi hother =>
    intro j
    have hctx' : Function.update kthreadCpuMap i (some (other.setActive otherRunq)) k =
        some ctx := by rw [Function.update_of_ne (Ne.symm hi), hctx]
    have hvictim : SameDone (Function.update kthreadCpuMap i (some (other.setActive otherRunq)))
        kthreadCpuMap := sameDone_update hother rfl
    have hthief : SameDone (Function.update
        (Function.update kthreadCpuMap i (some (other.setActive otherRunq)))
        k (some (ctx.setActive runq)))
        (Function.update kthreadCpuMap i (some (other.setActive otherRunq))) :=
      sameDone_update hctx' rfl
    exact (hthief j).trans (hvictim j)

theorem putAway_kthreadTotUthreads (flags : Flags) (k : Fin gtMaxCores) (ctx : KthreadContext)
    (stop : ℤ) (s : State) :
    (putAway flags k ctx stop s).kthreadTotUthreads = s.kthreadTotUthreads := by
  unfold putAway
  split
  · simp only [retireCurrent]
    split <;> rfl
  · rfl

/-- A kthread that has quit after a scheduling step had quit before, or there is no live uthread. No
uthread is created. -/
theorem schedule_flags (h : Sound cpuids s)
    (hstep : (gtthreads flags cpuids).step s (.schedule j ending clock) = some s') :
    s'.kthreadTotUthreads = s.kthreadTotUthreads ∧
      ∀ k, ¬ Awake s' k → ¬ Awake s k ∨
        (s'.kthreadTotUthreads ≠ 0 ∧ s'.kthreadCurUthreads = 0) := by
  obtain ⟨s₁, hs₁, hs'⟩ := Option.bind_eq_some_iff.mp hstep
  obtain ⟨h₁, hmap⟩ := h.conserved.beforeSchedule hs₁
  obtain ⟨uthreads', hs₁eq, -⟩ := beforeSchedule_spec hs₁
  obtain ⟨ctx, hctx, -⟩ := Option.bind_eq_some_iff.mp hs'
  obtain ⟨s₂, uObj, map', hs₂, -, hfound, rfl⟩ := h₁.found_of_uthreadSchedule hctx hs'
  obtain ⟨ctx₂, hmap₂, -, -, hdone₂⟩ := putAway_kthreadCpuMap hctx flags clock.stop
  -- up to the end of the step no flag is written
  have hsame : SameDone map' s.kthreadCpuMap := by
    intro k
    rw [sameDone_found hfound k, hs₂, hmap₂, ← hmap]
    exact sameDone_update hctx hdone₂ k
  have htot : s₂.kthreadTotUthreads = s.kthreadTotUthreads := by
    rw [hs₂, putAway_kthreadTotUthreads, hs₁eq]
  cases uObj with
  | some v =>
    refine ⟨htot, fun k hk => .inl ?_⟩
    have hflag : ((resume j (some v) clock.start { s₂ with kthreadCpuMap := map' }).kthreadCpuMap
        k).map KthreadContext.kthreadDone = (map' k).map KthreadContext.kthreadDone := by
      simp only [resume, dispatch, Function.update_apply]
      split
      · next hkj => rw [hkj, Option.map_map]; rfl
      · rfl
    rwa [Awake, hflag, hsame k] at hk
  | none =>
    obtain ⟨-, htot', hcur'⟩ := quitTest_counters j { s₂ with kthreadCpuMap := map' }
    refine ⟨htot'.trans htot, fun k hk => ?_⟩
    by_cases hquit : s₂.kthreadTotUthreads ≠ 0 ∧ s₂.kthreadCurUthreads = 0
    · exact .inr ⟨fun hzero => hquit.1 (htot'.symm.trans hzero), hcur'.trans hquit.2⟩
    · left
      simp only [resume, quitTest, if_neg hquit] at hk
      rwa [Awake, hsame k] at hk

/-- No uthread comes to life in a scheduling step. -/
theorem schedule_live (h : Sound cpuids s)
    (hstep : (gtthreads flags cpuids).step s (.schedule j ending clock) = some s') :
    live s' ⊆ live s := by
  have h' := (h.step hstep).conserved
  obtain ⟨s₂, h₂, hretired, hpicked, hcredits⟩ := schedule_effect h hstep
  have hshrinks : Shrinks flags s₂ s' := hpicked.shrinks h₂ h' hcredits
  refine hshrinks.live.trans ?_
  cases hretired with
  | idle _ hplaces hsame =>
    have hsame : Shrinks flags s s₂ :=
      .of_renamed (f := id) h.conserved h₂ hplaces hsame fun _ hz => hz
    exact hsame.live
  | away hcur _ hmoved => exact live_subset_of_moved h.conserved h₂ hcur (by simp) hmoved

/-! ### The invariant of the program -/

/-- Clearing a flag changes no kthread runqueue. -/
theorem clearDone_map (main k : Fin gtMaxCores) (s : State) {α : Type} (f : KthreadContext → α)
    (hf : ∀ ctx : KthreadContext, f { ctx with kthreadDone := false } = f ctx) :
    ((clearDone main s).kthreadCpuMap k).map f = (s.kthreadCpuMap k).map f := by
  simp only [clearDone, Function.update_apply]
  split
  · next hk =>
    rw [hk, Option.map_map]
    exact congrArg (fun g => (s.kthreadCpuMap main).map g) (funext hf)
  · rfl

theorem at_clearDone (main : Fin gtMaxCores) (s : State) {place : Place} :
    At (clearDone main s).kthreadCpuMap u place ↔ At s.kthreadCpuMap u place :=
  at_congr fun k => clearDone_map main k s KthreadContext.krunqueue fun _ => rfl

theorem sound_clearDone (h : Sound cpuids s) (main : Fin gtMaxCores) :
    Sound cpuids (clearDone main s) := by
  -- all that the invariant looks at is in the runqueues and the numbers of the kthreads
  refine ⟨⟨?_, ?_, ?_, ?_⟩, ?_⟩
  · intro k ctx hctx
    obtain ⟨ctx', hctx', heq⟩ := Option.map_eq_some_iff.mp
      ((clearDone_map main k s KthreadContext.krunqueue fun _ => rfl).symm.trans
        (congrArg (Option.map KthreadContext.krunqueue) hctx))
    rw [← heq]
    exact h.conserved.wellFormed k ctx' hctx'
  · intro u hu
    simpa only [at_clearDone] using h.conserved.existsUnique_place u hu
  · intro u place hat
    exact h.conserved.created u place ((at_clearDone main s).mp hat)
  · refine h.conserved.cur_eq.trans (congrArg Finset.card ?_)
    ext u
    rw [mem_live, mem_live]
    simp only [at_clearDone]
    rfl
  · intro k
    rw [← h.registered k]
    exact clearDone_map main k s KthreadContext.cpuid fun _ => rfl

theorem awake_clearDone (h : Sound cpuids s) (hmain : (cpuids main).isSome) :
    Awake (clearDone main s) main := by
  obtain ⟨ctx, hctx⟩ := Option.isSome_iff_exists.mp (h.isSome_of_registered hmain)
  simp [Awake, clearDone, hctx]

/-- When no uthread is live, all are zombies. -/
theorem slot_eq_zombie_of_cur_eq_zero {place : Place} (h : Conserved s)
    (hcur : s.kthreadCurUthreads = 0) (hat : At s.kthreadCpuMap u place) :
    place.slot = .zombie := by
  have hlive : live s = ∅ := Finset.card_eq_zero.mp (h.cur_eq.symm.trans hcur)
  by_contra hslot
  have hmem : u ∈ live s := (mem_live_iff h).mpr ⟨place, hat, hslot⟩
  simp [hlive] at hmem

/-- No uthread is live, and there was one. -/
def Finished (s : State) : Prop := s.kthreadTotUthreads ≠ 0 ∧ s.kthreadCurUthreads = 0

/-- When the main kthread has quit, all uthreads have ended. -/
structure Orderly (cpuids : Fin gtMaxCores → Option ℕ) (main : Fin gtMaxCores) (p : Program) :
    Prop where
  sound : Sound cpuids p.lib
  quit : p.main = .scheduling → ¬ Awake p.lib main → Finished p.lib
  left : p.main = .waiting ∨ p.main = .returned → Finished p.lib

/-- When all uthreads have ended, this stays so. -/
theorem Finished.schedule (h : Finished s) (hs : Sound cpuids s)
    (hstep : (gtthreads flags cpuids).step s (.schedule j ending clock) = some s') :
    Finished s' := by
  have hlive : live s = ∅ := Finset.card_eq_zero.mp (hs.conserved.cur_eq.symm.trans h.2)
  have hlive' : live s' = ∅ := Finset.subset_empty.mp (hlive ▸ schedule_live hs hstep)
  refine ⟨?_, ?_⟩
  · rw [(schedule_flags hs hstep).1]
    exact h.1
  · rw [(hs.step hstep).conserved.cur_eq, hlive', Finset.card_empty]

theorem Orderly.step {p p' : Program} {e : Event} (hmain : (cpuids main).isSome)
    (h : Orderly cpuids main p)
    (hstep : (program flags cpuids main).step p e = some p') : Orderly cpuids main p' := by
  cases e with
  | create uGid credits now =>
    obtain ⟨hphase, hstep⟩ := Option.ite_none_right_eq_some.mp hstep
    obtain ⟨lib, hlib, rfl⟩ := Option.map_eq_some_iff.mp hstep
    refine ⟨h.sound.step hlib, fun heq => ?_, fun heq => ?_⟩
    · exact absurd (hphase.symm.trans heq) (by decide)
    · rw [hphase] at heq
      exact absurd heq (by decide)
  | appExit =>
    obtain ⟨-, hstep⟩ := Option.ite_none_right_eq_some.mp hstep
    obtain rfl := Option.some.inj hstep
    -- the call itself clears the flag of the main kthread
    refine ⟨sound_clearDone h.sound main, fun _ hquit => ?_, fun heq => absurd heq (by simp)⟩
    exact absurd (awake_clearDone h.sound hmain) hquit
  | schedule k ending clock =>
    obtain ⟨-, hlib, hback⟩ := schedule_of_step hstep
    refine ⟨h.sound.step hlib, fun hphase hquit => ?_, fun hphase => ?_⟩
    · have hbefore := hback _ (by decide) (by decide) hphase
      -- the main kthread had quit before, or quits in this step, with no live uthread
      rcases (schedule_flags h.sound hlib).2 main hquit with hquit | hfinished
      · exact (h.quit hbefore hquit).schedule h.sound hlib
      · exact hfinished
    · have hbefore : p.main = .waiting ∨ p.main = .returned :=
        hphase.imp (hback _ (by decide) (by decide)) (hback _ (by decide) (by decide))
      exact (h.left hbefore).schedule h.sound hlib
  | leaveLoop =>
    obtain ⟨⟨hphase, hquit⟩, hstep⟩ := Option.ite_none_right_eq_some.mp hstep
    obtain rfl := Option.some.inj hstep
    exact ⟨h.sound, fun heq => absurd heq (by simp), fun _ => h.quit hphase hquit⟩
  | leaveWait =>
    obtain ⟨⟨hphase, -⟩, hstep⟩ := Option.ite_none_right_eq_some.mp hstep
    obtain rfl := Option.some.inj hstep
    exact ⟨h.sound, fun heq => absurd heq (by simp), fun _ => h.left (.inl hphase)⟩

theorem orderly_init (flags : Flags) (cpuids : Fin gtMaxCores → Option ℕ)
    (main : Fin gtMaxCores) : Orderly cpuids main (program flags cpuids main).init :=
  ⟨sound_initial cpuids, fun heq => absurd heq (by simp [program]),
    fun heq => absurd heq (by simp [program])⟩

theorem orderly_of_reachable {G : Program → Event → Prop} {p : Program}
    (hmain : (cpuids main).isSome) (hr : (program flags cpuids main).Reachable G p) :
    Orderly cpuids main p :=
  hr.invariant (orderly_init flags cpuids main) fun _ _ _ _ h _ hstep => h.step hmain hstep

/-- **The exit waits for all uthreads.** Once the main kthread has left the loop of
`gtthread_app_exit`, and so in particular when the call returns, some uthread was created, and all
that were created have ended: each is on a list of zombies, and no runqueue and no kthread has any.
The second loop finds its condition false at once. -/
theorem app_exit_waits_for_all (flags : Flags) (cpuids : Fin gtMaxCores → Option ℕ)
    (main : Fin gtMaxCores) (hmain : (cpuids main).isSome) (p : Program)
    (hr : (program flags cpuids main).Reachable System.anyStep p)
    (hleft : p.main = .waiting ∨ p.main = .returned) :
    p.lib.kthreadTotUthreads ≠ 0 ∧ p.lib.kthreadCurUthreads = 0 ∧
      (∀ u < p.lib.kthreadTotUthreads, ∃ k, At p.lib.kthreadCpuMap u ⟨k, .zombie⟩) ∧
      ∀ u place, At p.lib.kthreadCpuMap u place → place.slot = .zombie := by
  have h := orderly_of_reachable hmain hr
  obtain ⟨htot, hcur⟩ := h.left hleft
  have hzombie : ∀ u place, At p.lib.kthreadCpuMap u place → place.slot = .zombie :=
    fun u place hat => slot_eq_zombie_of_cur_eq_zero h.sound.conserved hcur hat
  refine ⟨htot, hcur, ?_, hzombie⟩
  intro u hu
  obtain ⟨place, hat, -⟩ := h.sound.conserved.existsUnique_place u hu
  refine ⟨place.kthread, ?_⟩
  rw [← hzombie u place hat]
  exact hat

/-- Two kthreads and two uthreads, one of which ends on the main kthread. -/
theorem app_exit_waits_for_all_pair :
    ∃ p, (program ⟨true, false, false⟩ pairCpuids 0).Reachable System.anyStep p ∧
      p.main = .returned ∧ p.lib.kthreadTotUthreads = 2 ∧ p.lib.kthreadCurUthreads = 0 ∧
      ∀ u < p.lib.kthreadTotUthreads, ∃ k, At p.lib.kthreadCpuMap u ⟨k, .zombie⟩ := by
  have hrun : ((program ⟨true, false, false⟩ pairCpuids 0).guardedRun System.anyStep
      (program ⟨true, false, false⟩ pairCpuids 0).init
      [.create 0 0 0, .create 0 0 0, .schedule 1 .preempted ⟨0, 0, 0⟩, .appExit,
        .schedule 0 .preempted ⟨0, 0, 0⟩, .schedule 1 .finished ⟨0, 0, 0⟩,
        .schedule 0 .finished ⟨0, 0, 0⟩, .leaveLoop, .leaveWait]).any
      (fun p => decide (p.main = .returned ∧ p.lib.kthreadTotUthreads = 2)) = true := by
    decide +kernel
  obtain ⟨p, hr, hp⟩ := System.Reachable.of_any hrun
  obtain ⟨hphase, htot⟩ := of_decide_eq_true hp
  obtain ⟨-, hcur, hall, -⟩ := app_exit_waits_for_all _ _ 0 (by decide) p hr (.inr hphase)
  exact ⟨p, hr, hphase, htot, hcur, hall⟩

/-! ### Kthreads that have quit have no uthreads -/

/-- A kthread that has quit has nothing but zombies. -/
def Resting (s : State) : Prop :=
  ∀ u k slot, At s.kthreadCpuMap u ⟨k, slot⟩ → ¬ Awake s k → slot = .zombie

/-- A uthread is created only while the next kthread of the round robin has not quit, and no signal
makes the main kthread schedule before `gtthread_app_exit` is called. -/
def undisturbed (main : Fin gtMaxCores) (p : Program) : Event → Prop
  | .create uGid credits now => nextAwake p.lib (.create uGid credits now)
  | .schedule k _ _ => k = main → p.main ≠ .creating
  | .appExit | .leaveLoop | .leaveWait => True

instance (main : Fin gtMaxCores) (p : Program) (e : Event) : Decidable (undisturbed main p e) :=
  match e with
  | .create uGid credits now =>
    inferInstanceAs (Decidable (nextAwake p.lib (.create uGid credits now)))
  | .schedule k _ _ => inferInstanceAs (Decidable (k = main → p.main ≠ .creating))
  | .appExit | .leaveLoop | .leaveWait => .isTrue trivial

/-- A scheduling step brings nothing to the other kthreads. -/
theorem at_of_schedule {slot : Slot} (h : Sound cpuids s)
    (hstep : (gtthreads flags cpuids).step s (.schedule j ending clock) = some s') (hk : k ≠ j)
    (hat : At s'.kthreadCpuMap u ⟨k, slot⟩) : At s.kthreadCpuMap u ⟨k, slot⟩ := by
  obtain ⟨s₂, h₂, hretired, hpicked, -⟩ := schedule_effect h hstep
  -- what is picked comes to `j`, and so does what is put away
  have hat₂ : At s₂.kthreadCpuMap u ⟨k, slot⟩ := by
    cases hpicked with
    | dispatched _ _ hmoved =>
      rw [hmoved] at hat
      split at hat
      · exact absurd (congrArg Place.kthread hat) hk
      · exact hat
    | exchanged _ hplaces =>
      rwa [hplaces, exchange, if_neg hk] at hat
  cases hretired with
  | idle _ hplaces _ => exact (hplaces u _).mp hat₂
  | away _ _ hmoved =>
    rw [hmoved] at hat₂
    split at hat₂
    · exact absurd (congrArg Place.kthread hat₂) hk
    · exact hat₂

theorem Resting.schedule (h : Resting s) (hs : Sound cpuids s) (hj : Awake s j)
    (hstep : (gtthreads flags cpuids).step s (.schedule j ending clock) = some s') :
    Resting s' := by
  intro u k slot hat hquit
  rcases (schedule_flags hs hstep).2 k hquit with hbefore | ⟨-, hcur⟩
  · have hk : k ≠ j := by
      rintro rfl
      exact hbefore hj
    exact h u k slot (at_of_schedule hs hstep hk hat) hbefore
  · exact slot_eq_zombie_of_cur_eq_zero (hs.step hstep).conserved hcur hat

theorem Resting.create {uGid : Fin maxUthreadGroups} {credits now : ℤ} (h : Resting s)
    (hnext : nextAwake s (.create uGid credits now))
    (hstep : uthreadCreate uGid credits now s = some s') : Resting s' := by
  obtain ⟨target, htarget, hs'⟩ := Option.bind_eq_some_iff.mp hstep
  obtain ⟨ctx, hctx, hs'⟩ := Option.bind_eq_some_iff.mp hs'
  obtain rfl := Option.some.inj hs'
  have hawake : ctx.kthreadDone = false := awake_of_kschedFindTarget hnext htarget hctx
  intro u k slot hat hquit
  by_cases hk : k = target
  · -- the kthread that gets the uthread has not quit
    subst hk
    refine absurd ?_ hquit
    simp [Awake, KthreadContext.setActive, hawake]
  · rw [at_update, if_neg hk] at hat
    refine h u k slot hat ?_
    simpa [Awake, Function.update_of_ne hk] using hquit

theorem Resting.clearDone (h : Resting s) (main : Fin gtMaxCores) :
    Resting (clearDone main s) := by
  intro u k slot hat hquit
  refine h u k slot ((at_clearDone main s).mp hat) ?_
  intro hawake
  refine hquit ?_
  obtain ⟨ctx, hctx, hdone⟩ := Option.map_eq_some_iff.mp hawake
  by_cases hk : k = main
  · subst hk
    simp [Awake, AppExit.clearDone, hctx]
  · simpa [Awake, AppExit.clearDone, Function.update_of_ne hk] using hawake

/-- The invariant of undisturbed runs. -/
structure Steady (cpuids : Fin gtMaxCores → Option ℕ) (main : Fin gtMaxCores) (p : Program) : Prop
    extends Orderly cpuids main p where
  resting : Resting p.lib
  notLost : ¬ Lost p

/-- In an undisturbed run the main kthread schedules in its loop only. -/
theorem not_lost_of_schedule {p p' : Program} (h : ¬ Lost p)
    (hG : undisturbed main p (.schedule k ending clock))
    (hstep : (program flags cpuids main).step p (.schedule k ending clock) = some p') :
    ¬ Lost p' := by
  obtain ⟨-, hstep⟩ := Option.ite_none_right_eq_some.mp hstep
  obtain ⟨lib, -, rfl⟩ := Option.map_eq_some_iff.mp hstep
  by_cases hk : k = main
  -- in an undisturbed run the main kthread is in its loop when it schedules
  · have hsame : ∀ curUthread, p.main.afterSchedule curUthread = p.main := by
      intro curUthread
      cases hphase : p.main with
      | creating => exact absurd hphase (hG hk)
      | lost => exact absurd (.inl hphase) h
      | crashed | scheduling | waiting | returned => rfl
    simpa only [Lost, if_pos hk, hsame] using h
  · simpa only [Lost, if_neg hk] using h

theorem Steady.step {p p' : Program} {e : Event} (hmain : (cpuids main).isSome)
    (h : Steady cpuids main p) (hG : undisturbed main p e)
    (hstep : (program flags cpuids main).step p e = some p') : Steady cpuids main p' := by
  have horderly := h.toOrderly.step hmain hstep
  cases e with
  | create uGid credits now =>
    obtain ⟨-, hstep⟩ := Option.ite_none_right_eq_some.mp hstep
    obtain ⟨lib, hlib, rfl⟩ := Option.map_eq_some_iff.mp hstep
    -- the guard says that the kthread that gets the uthread has not quit
    exact ⟨horderly, h.resting.create hG hlib, h.notLost⟩
  | appExit =>
    obtain ⟨-, hstep⟩ := Option.ite_none_right_eq_some.mp hstep
    obtain rfl := Option.some.inj hstep
    exact ⟨horderly, h.resting.clearDone main, by simp [Lost]⟩
  | schedule k ending clock =>
    obtain ⟨hawake, hlib, -⟩ := schedule_of_step hstep
    exact ⟨horderly, h.resting.schedule h.sound hawake hlib,
      not_lost_of_schedule h.notLost hG hstep⟩
  | leaveLoop | leaveWait =>
    obtain ⟨-, hstep⟩ := Option.ite_none_right_eq_some.mp hstep
    obtain rfl := Option.some.inj hstep
    exact ⟨horderly, h.resting, by simp [Lost]⟩

/-- A zombie stays one when the next uthread is picked. -/
theorem zombie_of_picked {Own : Prop} {i : Fin gtMaxCores} (h : Picked Own j s s')
    (hs : Conserved s) (hat : At s.kthreadCpuMap u ⟨i, .zombie⟩) :
    At s'.kthreadCpuMap u ⟨i, .zombie⟩ := by
  cases h with
  | @dispatched v _ hfrom _ hmoved =>
    have hne : u ≠ v := by
      rintro rfl
      exact absurd (congrArg Place.slot (hs.eq_of_at hfrom hat)) (by simp)
    exact (hmoved u _).mpr (by rwa [if_neg hne])
  | exchanged _ hplaces =>
    refine (hplaces u _).mpr ?_
    by_cases hi : i = j
    · simpa only [exchange, hi, if_true] using hat
    · rwa [exchange, if_neg hi]

/-- A uthread that returns from its function becomes a zombie. -/
theorem zombie_of_finished (h : Sound cpuids s) (hat : At s.kthreadCpuMap u ⟨j, .current⟩)
    (hstep : (gtthreads flags cpuids).step s (.schedule j .finished clock) = some s') :
    At s'.kthreadCpuMap u ⟨j, .zombie⟩ := by
  obtain ⟨s₁, hs₁, hs'⟩ := Option.bind_eq_some_iff.mp hstep
  obtain ⟨h₁, hmap⟩ := h.conserved.beforeSchedule hs₁
  obtain ⟨ctx, hctx, hs'⟩ := Option.bind_eq_some_iff.mp hs'
  obtain ⟨⟨uObj, map'⟩, hsched, hs'⟩ := Option.bind_eq_some_iff.mp hs'
  obtain rfl := Option.some.inj hs'
  have hctx₀ : s.kthreadCpuMap j = some ctx := by rw [← hmap, hctx]
  have hcur : ctx.krunqueue.curUthread = some u := (at_iff hctx₀).mp hat
  have hended : (chargeCredits flags clock.stop (s₁.uthreads u)).ended = true := by
    simp only [beforeSchedule, hctx₀, Option.bind_some, hcur, Option.bind_eq_bind] at hs₁
    obtain rfl := Option.some.inj hs₁
    simp only [Function.update_self, chargeCredits]
    split <;> simp [Uthread.ended]
  -- it is put on the list of zombies, and stays there
  have hzombie : At (putAway flags j ctx clock.stop s₁).kthreadCpuMap u ⟨j, .zombie⟩ := by
    obtain ⟨slot, -, hslot, -, hmoved⟩ := h₁.placed.retireCurrent hctx hcur flags clock.stop
    simp only [putAway, hcur]
    obtain rfl : slot = .zombie := hslot.mpr hended
    exact (hmoved u _).mpr (by rw [if_pos rfl])
  obtain ⟨ctx₂, hmap₂, hidle₂, -⟩ := putAway_kthreadCpuMap hctx flags clock.stop
  have h₂ := h₁.putAway hctx flags clock.stop
  have hctx₂ : (putAway flags j ctx clock.stop s₁).kthreadCpuMap j = some ctx₂ := by
    rw [hmap₂, Function.update_self]
  exact zombie_of_picked (picked_of_schedFindBestUthread h₂ hctx₂ hidle₂ clock.start hsched) h₂
    hzombie

/-- The main kthread is in its first loop, and a uthread was created. -/
structure Draining (cpuids : Fin gtMaxCores → Option ℕ) (main : Fin gtMaxCores) (p : Program) : Prop
    extends Steady cpuids main p where
  scheduling : p.main = .scheduling
  created : p.lib.kthreadTotUthreads ≠ 0

/-- The slots below the number of a kthread are registered. -/
def NoGaps (cpuids : Fin gtMaxCores → Option ℕ) : Prop :=
  ∀ k cpuid, cpuids k = some cpuid → ∀ i : Fin gtMaxCores, i < cpuid → (cpuids i).isSome

variable {p p' : Program}

/-- While the main kthread is in its loop, every kthread that has not quit can be scheduled. -/
theorem Draining.schedule (h : Draining cpuids main p) (hmain : (cpuids main).isSome)
    (hgaps : NoGaps cpuids) (hk : Awake p.lib k) (flags : Flags) (ending : Ending) (clock : Clock)
    (hending : ending ≠ .preempted → ∃ u, At p.lib.kthreadCpuMap u ⟨k, .current⟩) :
    ∃ lib, (gtthreads flags cpuids).step p.lib (.schedule k ending clock) = some lib ∧
      (program flags cpuids main).Leads System.anyStep p { p with lib := lib } ∧
      Draining cpuids main { p with lib := lib } := by
  obtain ⟨ctx, hctx, -⟩ := Option.map_eq_some_iff.mp hk
  have hcpuid : cpuids k = some ctx.cpuid := by rw [← h.sound.registered k, hctx, Option.map_some]
  have henabled : Enabled flags cpuids p.lib (.schedule k ending clock) :=
    ⟨ctx.cpuid, hcpuid, hending, fun _ => hgaps k ctx.cpuid hcpuid⟩
  obtain ⟨lib, hlib⟩ := Option.isSome_iff_exists.mp (h.sound.step_isSome henabled)
  have hstep : (program flags cpuids main).step p (.schedule k ending clock) =
      some { p with lib := lib } := by
    simp [program, hk, hlib, h.scheduling, MainPhase.schedules, MainPhase.afterSchedule]
  have hloop : k = main → p.main ≠ .creating := fun _ hphase =>
    absurd (h.scheduling.symm.trans hphase) (by decide)
  have hsteady := h.toSteady.step (e := .schedule k ending clock) hmain hloop hstep
  refine ⟨lib, hlib, .single trivial hstep, ⟨hsteady, h.scheduling, ?_⟩⟩
  rw [(schedule_flags h.sound hlib).1]
  exact h.created

/-- There are clock readings with which the slice that ends has no negative length. -/
theorem exists_timely (flags : Flags) (s : State) (k : Fin gtMaxCores) (ending : Ending) :
    ∃ clock, timely flags s (.schedule k ending clock) := by
  cases hctx : s.kthreadCpuMap k with
  | none => exact ⟨⟨0, 0, 0⟩, fun _ ctx h => absurd (hctx.symm.trans h) (by simp)⟩
  | some ctx =>
    cases hcur : ctx.krunqueue.curUthread with
    | none =>
      refine ⟨⟨0, 0, 0⟩, fun _ ctx' h c hc => ?_⟩
      obtain rfl := Option.some.inj (hctx.symm.trans h)
      exact absurd (hcur.symm.trans hc) (by simp)
    | some c =>
      refine ⟨⟨0, (s.uthreads c).startRunningTimeStep, 0⟩, fun _ ctx' h c' hc => ?_⟩
      obtain rfl := Option.some.inj (hctx.symm.trans h)
      obtain rfl := Option.some.inj (hcur.symm.trans hc)
      exact le_rfl

/-- A uthread that waits can be dispatched, by calls of the scheduler on its kthread. -/
theorem Draining.dispatch {n : ℕ} (h : Draining cpuids main p) (hmain : (cpuids main).isSome)
    (hgaps : NoGaps cpuids) (hown : OwnSlots cpuids)
    (hwaits : Waits flags cpuids k u n p.lib) :
    ∃ p', (program flags cpuids main).Leads System.anyStep p p' ∧
      Draining cpuids main p' ∧ live p'.lib ⊆ live p.lib ∧
      ∃ j, At p'.lib.kthreadCpuMap u ⟨j, .current⟩ := by
  -- on the delay of the uthread
  induction n using Nat.strong_induction_on generalizing p with
  | _ n ih =>
    have hawake : Awake p.lib k := by
      by_contra hquit
      obtain ⟨-, side, hat, -⟩ := hwaits
      have hslot := h.resting u k _ hat hquit
      cases side <;> simp [slotOf] at hslot
    obtain ⟨clock, htime⟩ := exists_timely flags p.lib k .preempted
    obtain ⟨lib, hlib, hleads, hdrain⟩ :=
      h.schedule hmain hgaps hawake flags .preempted clock fun hne => absurd rfl hne
    have hlive : live lib ⊆ live p.lib := schedule_live h.sound hlib
    rcases hwaits.step hown htime hlib with hcur | ⟨m, hwaits', hle⟩
    · exact ⟨_, hleads, hdrain, hlive, hcur⟩
    · have hlt : m < n := by
        simp only [call, granted, if_true] at hle
        omega
      obtain ⟨p', hleads', hdrain', hlive', hcur⟩ := ih m hlt hdrain hwaits'
      exact ⟨p', hleads.trans hleads', hdrain', hlive'.trans hlive, hcur⟩

/-- A live uthread can be made to end. -/
theorem Draining.finish (h : Draining cpuids main p) (hmain : (cpuids main).isSome)
    (hgaps : NoGaps cpuids) (hown : OwnSlots cpuids) (flags : Flags) (hu : u ∈ live p.lib) :
    ∃ p', (program flags cpuids main).Leads System.anyStep p p' ∧ Draining cpuids main p' ∧
      (live p'.lib).card < (live p.lib).card := by
  -- first it is dispatched
  obtain ⟨p₁, hleads₁, h₁, hlive₁, j, hcur⟩ : ∃ p₁,
      (program flags cpuids main).Leads System.anyStep p p₁ ∧
      Draining cpuids main p₁ ∧ live p₁.lib ⊆ live p.lib ∧
      ∃ j, At p₁.lib.kthreadCpuMap u ⟨j, .current⟩ := by
    obtain ⟨⟨k, slot⟩, hat, hslot⟩ := (mem_live_iff h.sound.conserved).mp hu
    cases slot with
    | active => exact h.dispatch hmain hgaps hown ⟨h.sound, .active, hat, rfl⟩
    | expires => exact h.dispatch hmain hgaps hown ⟨h.sound, .expires, hat, rfl⟩
    | current => exact ⟨p, .refl _ _ p, h, Finset.Subset.refl _, k, hat⟩
    | zombie => exact absurd rfl hslot
  -- and then it returns from its function
  have hawake : Awake p₁.lib j := by
    by_contra hquit
    exact absurd (h₁.resting u j _ hcur hquit) (by decide)
  obtain ⟨lib, hlib, hleads, hdrain⟩ :=
    h₁.schedule hmain hgaps hawake flags .finished ⟨0, 0, 0⟩ fun _ => ⟨u, hcur⟩
  refine ⟨_, hleads₁.trans hleads, hdrain, Finset.card_lt_card (Finset.ssubset_iff_subset_ne.mpr
    ⟨(schedule_live h₁.sound hlib).trans hlive₁, ?_⟩)⟩
  intro heq
  have hmem : u ∈ live lib := by
    rw [heq]
    exact hu
  exact (mem_live.mp hmem).2 j (zombie_of_finished h₁.sound hcur hlib)

/-- All uthreads can be made to end. -/
theorem Draining.drain (h : Draining cpuids main p) (hmain : (cpuids main).isSome)
    (hgaps : NoGaps cpuids) (hown : OwnSlots cpuids) (flags : Flags) :
    ∃ p', (program flags cpuids main).Leads System.anyStep p p' ∧ Draining cpuids main p' ∧
      p'.lib.kthreadCurUthreads = 0 := by
  have hless : ∀ p, Draining cpuids main p → (live p.lib).card ≠ 0 →
      ∃ p', (program flags cpuids main).Leads System.anyStep p p' ∧ Draining cpuids main p' ∧
        (live p'.lib).card < (live p.lib).card := by
    intro p h hsome
    obtain ⟨u, hu⟩ := Finset.card_ne_zero.mp hsome
    exact h.finish hmain hgaps hown flags hu
  obtain ⟨p', hleads, h', hempty⟩ := System.Leads.drain (fun p => (live p.lib).card) hless h
  refine ⟨p', hleads, h', ?_⟩
  rw [h'.sound.conserved.cur_eq, hempty]

/-- A signal while the program creates its uthreads: the main kthread begins to run the second one,
and the program is never continued, whatever happens then. -/
theorem signal_while_creating_loses_main :
    ∃ p, (program ⟨true, false, false⟩ pairCpuids 0).Reachable System.anyStep p ∧
      p.lib.kthreadTotUthreads = 2 ∧
      ∀ p', ((program ⟨true, false, false⟩ pairCpuids 0).startingAt p).Reachable
        System.anyStep p' → p'.main ≠ .returned := by
  have hrun : ((program ⟨true, false, false⟩ pairCpuids 0).guardedRun System.anyStep
      (program ⟨true, false, false⟩ pairCpuids 0).init
      [.create 0 0 0, .create 0 0 0, .schedule 0 .preempted ⟨0, 0, 0⟩]).any
      (fun p => decide (p.main = .lost ∧ p.lib.kthreadTotUthreads = 2)) = true := by
    decide +kernel
  obtain ⟨p, hr, hp⟩ := System.Reachable.of_any hrun
  obtain ⟨hlost, htot⟩ := of_decide_eq_true hp
  refine ⟨p, hr, htot, fun p' hr' hreturned => ?_⟩
  have hlost' : Lost p' := hr'.invariant (.inl hlost) fun _ _ _ _ h _ hstep => h.step hstep
  rcases hlost' with hphase | hphase <;> simp [hphase] at hreturned

end AppExit

end GTThreads

end OSLab
