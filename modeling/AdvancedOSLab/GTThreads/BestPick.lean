import AdvancedOSLab.GTThreads.Schedule

/-!
# The masks and counters of a runqueue are exact

Five redundant records are updated by `__add_to_runqueue` and `__rem_from_runqueue` under
different conditions, and the scheduler follows the masks to a queue head without looking at the
queues. This module is about all runs of the two functions: `runqueueSystem` inserts and removes
uthreads of arbitrary priorities and groups in any order, next to the list of the uthreads that are
in the runqueue, in the order of their insertion.

A uthread has one link field, so it can only be inserted while it is not a member, and only a
member can be removed.

The main result, `exact_and_best_pick`, says that in every state reached the counters and masks are
exact, no removal of a member can fail its assertion, and the scheduler run on a kthread whose
active runqueue is in such a state, if it is not empty, returns the uthread that was inserted first
among those of the lowest group of the lowest priority, and takes it out of its queue and nothing
out of the others.
-/

namespace OSLab

namespace GTThreads

open BitMask Runqueue

namespace BestPick

/-- A runqueue and its members in the order of their insertion. -/
structure Filled where
  runq : Runqueue
  members : List ℕ

inductive Label where
  | add (u : ℕ)
  | rem (u : ℕ)

/-- The two operations on one runqueue, in any order. -/
def runqueueSystem (uthreads : ℕ → Uthread) : System Filled Label where
  init := { runq := initRunqueue, members := [] }
  step s
    | .add u =>
      -- a uthread is linked into one queue at most
      if u ∈ s.members then none
      else some { runq := addToRunqueue uthreads s.runq u, members := s.members ++ [u] }
    | .rem u =>
      if u ∈ s.members then
        (remFromRunqueue uthreads s.runq u).map fun runq =>
          { runq := runq, members := s.members.erase u }
      else none

/-- The records of the runqueue agree with its members. -/
structure Exact (uthreads : ℕ → Uthread) (s : Filled) : Prop where
  mem_members : ∀ u, u ∈ s.members ↔ ∃ p g, u ∈ s.runq.queue p g
  uthreadTot : s.runq.uthreadTot = s.members.length
  uthreadPrioTot : ∀ p, s.runq.uthreadPrioTot p =
    s.members.countP fun u => (uthreads u).uthreadPriority = p
  uthreadGroupTot : ∀ g, s.runq.uthreadGroupTot g =
    s.members.countP fun u => (uthreads u).uthreadGid = g
  uthreadMask : ∀ p, isBitSet s.runq.uthreadMask p = true ↔
    ∃ u ∈ s.members, (uthreads u).uthreadPriority = p
  groupMask : ∀ p g, isBitSet (s.runq.prioArray p).groupMask g = true ↔ s.runq.queue p g ≠ []
  rem_isSome : ∀ u ∈ s.members, (remFromRunqueue uthreads s.runq u).isSome

/-- The runqueue represents its members. -/
def Filled.Sound (uthreads : ℕ → Uthread) (s : Filled) : Prop :=
  Represents uthreads s.runq s.members

variable {uthreads : ℕ → Uthread}

theorem Filled.Sound.exact {s : Filled} (h : s.Sound uthreads) :
    Exact uthreads s where
  mem_members _ := (Represents.mem_iff h).symm
  uthreadTot := Represents.uthreadTot_eq h
  uthreadPrioTot := Represents.uthreadPrioTot_eq h
  uthreadGroupTot := Represents.uthreadGroupTot_eq h
  uthreadMask := Represents.marks_uthreadMask h
  groupMask p g := by
    rw [Represents.marks_groupMask h p g, Represents.queue_ne_nil_iff h]
  rem_isSome u hu := by
    obtain ⟨runq, hrem, -⟩ := Represents.rem h hu
    exact Option.isSome_iff_exists.mpr ⟨runq, hrem⟩

/-- What a step does to a runqueue that represents its members. -/
theorem step_cases {s s' : Filled} {l : Label} (h : s.Sound uthreads)
    (hstep : (runqueueSystem uthreads).step s l = some s') :
    (∃ u, l = .add u ∧ u ∉ s.members ∧
        s' = { runq := addToRunqueue uthreads s.runq u, members := s.members ++ [u] }) ∨
      ∃ u runq, l = .rem u ∧ u ∈ s.members ∧ remFromRunqueue uthreads s.runq u = some runq ∧
        Represents uthreads runq (s.members.erase u) ∧
        s' = { runq := runq, members := s.members.erase u } := by
  cases l with
  | add u =>
    replace hstep : (if u ∈ s.members then none else some _) = some s' := hstep
    split at hstep
    · exact absurd hstep (by simp)
    · next hu => exact .inl ⟨u, rfl, hu, (Option.some.inj hstep).symm⟩
  | rem u =>
    replace hstep : (if u ∈ s.members then Option.map _ _ else none) = some s' := hstep
    split at hstep
    · next hu =>
      -- the result of the removal is determined, so it is the one of `Represents.rem`
      obtain ⟨runq, hrem, h'⟩ := Represents.rem h hu
      rw [hrem, Option.map_some] at hstep
      exact .inr ⟨u, runq, rfl, hu, hrem, h', (Option.some.inj hstep).symm⟩
    · exact absurd hstep (by simp)

/-- Every run keeps the representation. -/
theorem sound_of_reachable {s : Filled}
    (hr : (runqueueSystem uthreads).Reachable System.anyStep s) : s.Sound uthreads := by
  refine hr.invariant Represents.initRunqueue fun s l s' _ h _ hstep => ?_
  obtain ⟨u, rfl, hu, rfl⟩ | ⟨u, runq, rfl, -, -, h', rfl⟩ := step_cases h hstep
  · exact Represents.add h hu
  · exact h'

/-- The queue of the best uthread starts with it. -/
theorem queue_eq_cons_of_bestOf {runq runq' : Runqueue} {members : List ℕ} {u : ℕ}
    (h : Represents uthreads runq members) (hbest : BestOf uthreads members u)
    (h' : Represents uthreads runq' (members.erase u)) {p : Fin maxUthreadPriority}
    {g : Fin maxUthreadGroups} (hu : BelongsTo uthreads p g u) :
    runq.queue p g = u :: runq'.queue p g := by
  obtain ⟨rfl, rfl⟩ := hu
  have hhead : (runq.queue (uthreads u).uthreadPriority (uthreads u).uthreadGid).head? =
      some u := by
    rw [h.queue_eq, List.head?_filter]
    exact hbest.first
  obtain ⟨rest, hrest⟩ := List.head?_eq_some_iff.mp hhead
  rw [h.queue_of_erase h', if_pos ⟨rfl, rfl⟩, hrest, List.erase_cons_head]

/-- In every state that insertions and removals of members lead to, the counters and masks are
exact and the assertion of `__rem_from_runqueue` holds; and `sched_find_best_uthread` on a kthread
with such a non-empty active runqueue returns the first-inserted uthread of the lowest non-empty
group in the lowest non-empty priority. The kthread loses that uthread and nothing else: every
other queue, and everything of the other kthreads, stays as it is. -/
theorem exact_and_best_pick {s : Filled}
    (hr : (runqueueSystem uthreads).Reachable System.anyStep s) :
    Exact uthreads s ∧
      ∀ (flags : Flags) (kthreadCpuMap : KthreadCpuMap) (k : Fin gtMaxCores)
        (ctx : KthreadContext), kthreadCpuMap k = some ctx → ctx.krunqueue.activeRunq = s.runq →
        s.members ≠ [] →
        ∃ u runq, schedFindBestUthread flags uthreads kthreadCpuMap k =
            some (some u, Function.update kthreadCpuMap k (some (ctx.setActive runq))) ∧
          BestOf uthreads s.members u ∧
          Exact uthreads { runq := runq, members := s.members.erase u } ∧
          ∀ p g, s.runq.queue p g =
            if BelongsTo uthreads p g u then u :: runq.queue p g else runq.queue p g := by
  have h : Represents uthreads s.runq s.members := sound_of_reachable hr
  refine ⟨Filled.Sound.exact h, fun flags kthreadCpuMap k ctx hctx hactive hne => ?_⟩
  rw [← hactive] at h
  obtain ⟨u, runq, hsched, -, hbest, h'⟩ := schedFindBestUthread_own flags hctx h hne
  refine ⟨u, runq, hsched, hbest, Filled.Sound.exact h', fun p g => ?_⟩
  rw [← hactive]
  split
  · next hu => exact queue_eq_cons_of_bestOf h hbest h' hu
  · next hu => rw [h.queue_of_erase h', if_neg hu]

/-- Uthreads of one priority; the even ones are in group 3, the odd ones in group 1. -/
def sampleUthreads (u : ℕ) : Uthread :=
  newUthread u (if u % 2 = 0 then 3 else 1) 0 0 0

/-- A kthread at every slot, with the given active runqueue. -/
def sampleKthreads (runq : Runqueue) : KthreadCpuMap := fun k =>
  some { cpuid := k, kthreadDone := false,
         krunqueue := { kthreadInitRunqueue with activeRunq := runq } }

theorem exact_and_best_pick_sample :
    ∃ s, (runqueueSystem sampleUthreads).Reachable System.anyStep s ∧ s.members = [0, 3, 5] ∧
      Exact sampleUthreads s ∧ ∀ flags, ∃ u kthreads,
        schedFindBestUthread flags sampleUthreads (sampleKthreads s.runq) 0 =
          some (some u, kthreads) ∧ BestOf sampleUthreads s.members u := by
  have hrun : ((runqueueSystem sampleUthreads).guardedRun System.anyStep
      (runqueueSystem sampleUthreads).init [.add 0, .add 1, .add 3, .rem 1, .add 5]).any
        (fun s => decide (s.members = [0, 3, 5])) = true := by decide +kernel
  obtain ⟨s, hr, hs⟩ := System.Reachable.of_any hrun
  have hmembers : s.members = [0, 3, 5] := of_decide_eq_true hs
  obtain ⟨hexact, hpick⟩ := exact_and_best_pick hr
  refine ⟨s, hr, hmembers, hexact, fun flags => ?_⟩
  obtain ⟨u, runq, hsched, hbest, -, -⟩ := hpick flags (sampleKthreads s.runq) 0 _ rfl rfl
    (by rw [hmembers]; decide)
  exact ⟨u, _, hsched, hbest⟩

end BestPick

end GTThreads

end OSLab
