import AdvancedOSLab.GTThreads.BestPick

/-!
# The priority masks of the groups

Besides the masks that `sched_find_best_uthread` follows, a runqueue keeps for each group a mask of
the priorities "with atleast one uthread" of the group (`uthread_group_mask`, `gt_pq.h`). It is for
the group scheduler, `sched_find_best_uthread_group`, which takes the lowest set bit and removes
the head of the queue it finds there. The function is compiled to something else than a call of
`sched_find_best_uthread` only if `COSCHED` is defined; here that is a parameter.

`__add_to_runqueue` sets the bit of the queue it inserts into. `__rem_from_runqueue` clears the bit
of the queue it removes from, but only when the *group* has no uthread left, in any priority. A
queue that becomes empty while its group has uthreads of another priority keeps its bit. From then
on the mask says more than there is, and the group scheduler passes a null pointer to
`rem_from_runqueue` (`stale_group_bit`).

`Clears` is the condition on a removal under which this does not happen, and
`groupMasks_exact_iff` says that it is the right one: as long as all removals satisfy it the masks
are exact and the group scheduler finds a uthread, and the first removal that does not satisfy it
leaves a mask that is not exact.
-/

namespace OSLab

namespace GTThreads

open BitMask Runqueue BestPick

/-! ### The group scheduler -/

/-- The head of the queue of the lowest priority in the mask of group `g`. -/
def bestUthreadOfGroup (runq : Runqueue) (g : Fin maxUthreadGroups) : Option ℕ := do
  let uprio ← lowestBitSet (runq.uthreadGroupMask g)
  (runq.queue uprio g).head?

/-- The end of `sched_find_best_uthread_group`, for the runqueue `runq` of the kthread at slot `k`;
`setRunq` is the kthread with another value of that runqueue. -/
def takeOfGroup (flags : Flags) (uthreads : ℕ → Uthread) (kthreadCpuMap : KthreadCpuMap)
    (k : Fin gtMaxCores) (runq : Runqueue) (setRunq : Runqueue → KthreadContext) :
    Option (Option ℕ × KthreadCpuMap) :=
  let uGid : Fin maxUthreadGroups := 0
  if runq.uthreadGroupMask uGid = 0 then
    -- `assert(!runq->uthread_group_tot[u_gid])`
    if runq.uthreadGroupTot uGid ≠ 0 then none
    else schedFindBestUthread flags uthreads kthreadCpuMap k
  else do
    -- `rem_from_runqueue` dereferences what `TAILQ_FIRST` returned
    let uObj ← bestUthreadOfGroup runq uGid
    let runq ← remFromRunqueue uthreads runq uObj
    return (some uObj, Function.update kthreadCpuMap k (some (setRunq runq)))

/-- `sched_find_best_uthread_group`, called by the kthread at slot `k`. -/
def schedFindBestUthreadGroup (cosched : Bool) (flags : Flags) (uthreads : ℕ → Uthread)
    (kthreadCpuMap : KthreadCpuMap) (k : Fin gtMaxCores) : Option (Option ℕ × KthreadCpuMap) :=
  if !cosched then schedFindBestUthread flags uthreads kthreadCpuMap k
  else do
    let ctx ← kthreadCpuMap k
    let runq := ctx.krunqueue.activeRunq
    if runq.uthreadMask ≠ 0 then
      takeOfGroup flags uthreads kthreadCpuMap k runq ctx.setActive
    else if runq.uthreadTot ≠ 0 then none
    else
      let ctx := ctx.exchanged
      let kthreadCpuMap := Function.update kthreadCpuMap k (some ctx)
      -- as in `sched_find_best_uthread`, the runqueue looked at is the one that was active
      let runq := ctx.krunqueue.expiresRunq
      if runq.uthreadMask = 0 then
        if runq.uthreadTot ≠ 0 then none else return (none, kthreadCpuMap)
      else
        takeOfGroup flags uthreads kthreadCpuMap k runq fun runq =>
          { ctx with krunqueue := { ctx.krunqueue with expiresRunq := runq } }

namespace GroupMask

/-! ### What the masks should record -/

/-- Bit `p` of the mask of group `g` is set exactly when the queue of `p` and `g` is not empty. -/
def Exact (runq : Runqueue) : Prop :=
  ∀ g p, isBitSet (runq.uthreadGroupMask g) p = true ↔ runq.queue p g ≠ []

/-- The removal leaves another uthread in the queue of `u`, or leaves no uthread in its group. -/
def Clears (uthreads : ℕ → Uthread) (s : Filled) : BestPick.Label → Prop
  | .add _ => True
  | .rem u =>
    (∃ v ∈ s.members.erase u,
      BelongsTo uthreads (uthreads u).uthreadPriority (uthreads u).uthreadGid v) ∨
    ∀ v ∈ s.members.erase u, (uthreads v).uthreadGid ≠ (uthreads u).uthreadGid

instance (uthreads : ℕ → Uthread) (s : Filled) : DecidablePred (Clears uthreads s)
  | .add _ => inferInstanceAs (Decidable True)
  | .rem _ => inferInstanceAs (Decidable (_ ∨ _))

variable {uthreads : ℕ → Uthread} {runq runq' : Runqueue} {members : List ℕ} {u : ℕ}

/-- Over a runqueue that represents `members`, exactness is about the members. -/
theorem exact_iff_marks (h : Represents uthreads runq members) :
    Exact runq ↔ ∀ g, Marks (runq.uthreadGroupMask g) fun p =>
      ∃ v ∈ members, BelongsTo uthreads p g v :=
  forall₂_congr fun g p => by rw [h.queue_ne_nil_iff]

/-- Insertion sets the bit of the queue it inserts into. -/
theorem exact_add (h : Represents uthreads runq members) (hu : u ∉ members)
    (hexact : Exact runq) : Exact (addToRunqueue uthreads runq u) := by
  rw [exact_iff_marks h] at hexact
  rw [exact_iff_marks (h.add hu)]
  intro g
  have hmarks := hexact g
  simp only [addToRunqueue, Function.update_apply]
  split
  · next hg =>
    subst hg
    -- the group of the uthread gets the bit of its priority
    refine (hmarks.setBit _).congr fun p => ?_
    simp only [List.mem_append, List.mem_singleton, or_and_right, exists_or, exists_eq_left,
      BelongsTo, and_true]
    rw [eq_comm]
  · next hg =>
    refine hmarks.congr fun p => ?_
    simp only [List.mem_append, List.mem_singleton, or_and_right, exists_or, exists_eq_left]
    -- the uthread does not belong to the other groups
    exact (or_iff_left fun hbelongs : BelongsTo uthreads p g u => hg hbelongs.2.symm).symm

/-- The masks of the groups after a removal. -/
theorem uthreadGroupMask_of_rem (hrem : remFromRunqueue uthreads runq u = some runq') :
    runq'.uthreadGroupMask = Function.update runq.uthreadGroupMask (uthreads u).uthreadGid
      (if runq.uthreadGroupTot (uthreads u).uthreadGid - 1 = 0
        then resetBit (runq.uthreadGroupMask (uthreads u).uthreadGid) (uthreads u).uthreadPriority
        else runq.uthreadGroupMask (uthreads u).uthreadGid) := by
  simp only [remFromRunqueue] at hrem
  split at hrem
  · exact absurd hrem (by simp)
  · exact Option.some.inj hrem ▸ rfl

/-- The counter that decides about the bit is that of the group. -/
theorem uthreadGroupTot_sub_one_eq_zero_iff (h : Represents uthreads runq members)
    (hu : u ∈ members) :
    runq.uthreadGroupTot (uthreads u).uthreadGid - 1 = 0 ↔
      ∀ v ∈ members.erase u, (uthreads v).uthreadGid ≠ (uthreads u).uthreadGid := by
  rw [h.uthreadGroupTot_sub_one hu, List.countP_eq_zero]
  simp

/-- A removal keeps the masks exact if and only if it leaves a uthread in the queue or none in the
group. -/
theorem exact_rem_iff (h : Represents uthreads runq members) (hu : u ∈ members)
    (hexact : Exact runq) (hrem : remFromRunqueue uthreads runq u = some runq')
    (h' : Represents uthreads runq' (members.erase u)) :
    Exact runq' ↔ Clears uthreads ⟨runq, members⟩ (.rem u) := by
  rw [exact_iff_marks h] at hexact
  rw [exact_iff_marks h', uthreadGroupMask_of_rem hrem]
  have hcount := uthreadGroupTot_sub_one_eq_zero_iff h hu
  constructor
  · intro hmarks
    by_cases hzero : runq.uthreadGroupTot (uthreads u).uthreadGid - 1 = 0
    · exact .inr (hcount.mp hzero)
    · -- the bit was set, since `u` was there, and has not been touched
      have hbit := hmarks (uthreads u).uthreadGid (uthreads u).uthreadPriority
      rw [Function.update_self, if_neg hzero] at hbit
      exact .inl (hbit.mp ((hexact _ _).mpr ⟨u, hu, rfl, rfl⟩))
  · intro hclears g
    rw [Function.update_apply]
    split
    · next hg =>
      subst hg
      refine (hexact _).resetBit ?_ ?_ fun p hp => ?_
      · rw [hcount]
        constructor
        · rintro hnone ⟨v, hv, hbelongs⟩
          exact hnone v hv hbelongs.2
        · exact fun hqueue => hclears.resolve_left hqueue
      · rintro ⟨v, hv, hbelongs⟩
        exact ⟨v, List.mem_of_mem_erase hv, hbelongs⟩
      · refine exists_congr fun v => and_congr_left fun hbelongs => ?_
        exact List.mem_erase_of_ne fun hvu => hp (hvu ▸ hbelongs.1.symm)
    · next hg =>
      refine (hexact g).congr fun p => exists_congr fun v => and_congr_left fun hbelongs => ?_
      exact (List.mem_erase_of_ne fun hvu : v = u => hg (hvu ▸ hbelongs.2.symm)).symm

/-! ### Runs -/

/-- From a state with exact masks, a step leads to exact masks if and only if it satisfies
`Clears`. -/
theorem exact_step_iff {s s' : Filled} {l : BestPick.Label} (h : s.Sound uthreads)
    (hexact : Exact s.runq) (hstep : (runqueueSystem uthreads).step s l = some s') :
    Exact s'.runq ↔ Clears uthreads s l := by
  obtain ⟨u, rfl, hu, rfl⟩ | ⟨u, runq, rfl, hu, hrem, h', rfl⟩ := BestPick.step_cases h hstep
  · exact iff_of_true (exact_add h hu hexact) trivial
  · exact exact_rem_iff h hu hexact hrem h'

/-- Every run of removals that satisfy `Clears` keeps the masks exact. -/
theorem exact_of_reachable {s : Filled}
    (hr : (runqueueSystem uthreads).Reachable (Clears uthreads) s) : Exact s.runq := by
  induction hr with
  | init =>
    intro g p
    simp [runqueueSystem, initRunqueue, queue]
  | step hr hG hstep ih => exact (exact_step_iff (sound_of_reachable hr.unguarded) ih hstep).mpr hG

/-! ### The group scheduler finds a uthread -/

/-- With exact masks, the scan for a group whose mask is not zero ends at a member of the group, the
first of the lowest priority in which the group has members. -/
theorem bestUthreadOfGroup_spec (h : Represents uthreads runq members) (hexact : Exact runq)
    {g : Fin maxUthreadGroups} (hmask : runq.uthreadGroupMask g ≠ 0) :
    ∃ u ∈ members, bestUthreadOfGroup runq g = some u ∧ (uthreads u).uthreadGid = g ∧
      ∀ v ∈ members, (uthreads v).uthreadGid = g →
        (uthreads u).uthreadPriority ≤ (uthreads v).uthreadPriority := by
  have hmarks := (exact_iff_marks h).mp hexact g
  obtain ⟨p, v, hv, hvp⟩ : ∃ p, ∃ v ∈ members, BelongsTo uthreads p g v :=
    not_forall_not.mp fun hnone => hmask (hmarks.eq_zero_iff.mpr hnone)
  obtain ⟨q, hq, hmem, -⟩ := hmarks.exists_lowestBitSet ⟨v, hv, hvp⟩
  have hleast := (hmarks.lowestBitSet_eq_some.mp hq).2
  -- the queue there is not empty
  obtain ⟨u, rest, hqueue⟩ := List.exists_cons_of_ne_nil (h.queue_ne_nil_iff.mpr hmem)
  obtain ⟨hu, hup, hug⟩ := (h.mem_queue q g).mp (hqueue ▸ List.mem_cons_self)
  refine ⟨u, hu, ?_, hug, fun w hw hwg => ?_⟩
  · simp [bestUthreadOfGroup, hq, hqueue]
  · exact not_lt.mp fun hlt => hleast _ (hup ▸ hlt) ⟨w, hw, rfl, hwg⟩

/-- The group scheduler on a kthread whose active runqueue is `runq` returns a uthread of group 0 of
the lowest priority there is and takes it out of the runqueue; without uthreads in the group it
does what `sched_find_best_uthread` does. -/
structure FindsUthread (uthreads : ℕ → Uthread) (s : Filled) : Prop where
  scan : ∀ g, s.runq.uthreadGroupMask g ≠ 0 → ∃ u ∈ s.members,
    bestUthreadOfGroup s.runq g = some u ∧ (uthreads u).uthreadGid = g
  found : ∀ (flags : Flags) (kthreadCpuMap : KthreadCpuMap) (k : Fin gtMaxCores)
    (ctx : KthreadContext), kthreadCpuMap k = some ctx → ctx.krunqueue.activeRunq = s.runq →
    (∃ v ∈ s.members, (uthreads v).uthreadGid = 0) →
    ∃ u runq, schedFindBestUthreadGroup true flags uthreads kthreadCpuMap k =
        some (some u, Function.update kthreadCpuMap k (some (ctx.setActive runq))) ∧
      u ∈ s.members ∧ (uthreads u).uthreadGid = 0 ∧
      (∀ v ∈ s.members, (uthreads v).uthreadGid = 0 →
        (uthreads u).uthreadPriority ≤ (uthreads v).uthreadPriority) ∧
      Represents uthreads runq (s.members.erase u)
  other : ∀ (flags : Flags) (kthreadCpuMap : KthreadCpuMap) (k : Fin gtMaxCores)
    (ctx : KthreadContext), kthreadCpuMap k = some ctx → ctx.krunqueue.activeRunq = s.runq →
    s.members ≠ [] → (∀ v ∈ s.members, (uthreads v).uthreadGid ≠ 0) →
    schedFindBestUthreadGroup true flags uthreads kthreadCpuMap k =
      schedFindBestUthread flags uthreads kthreadCpuMap k

/-- The call of the group scheduler for an active runqueue that is not empty. -/
theorem schedFindBestUthreadGroup_of_ne_nil (h : Represents uthreads runq members)
    (hne : members ≠ []) (flags : Flags) {kthreadCpuMap : KthreadCpuMap} {k : Fin gtMaxCores}
    {ctx : KthreadContext} (hctx : kthreadCpuMap k = some ctx)
    (hactive : ctx.krunqueue.activeRunq = runq) :
    schedFindBestUthreadGroup true flags uthreads kthreadCpuMap k =
      takeOfGroup flags uthreads kthreadCpuMap k runq ctx.setActive := by
  have hmask := mt h.uthreadMask_eq_zero_iff.mp hne
  simp [schedFindBestUthreadGroup, hctx, hactive, hmask]

/-- The end of the call when the mask of group 0 is not zero. -/
theorem takeOfGroup_of_ne_zero {flags : Flags} {kthreadCpuMap : KthreadCpuMap}
    {k : Fin gtMaxCores} {setRunq : Runqueue → KthreadContext}
    (hmask : runq.uthreadGroupMask 0 ≠ 0) :
    takeOfGroup flags uthreads kthreadCpuMap k runq setRunq =
      (bestUthreadOfGroup runq 0).bind fun uObj => (remFromRunqueue uthreads runq uObj).bind
        fun runq => some (some uObj, Function.update kthreadCpuMap k (some (setRunq runq))) :=
  if_neg hmask

theorem findsUthread_of_exact {s : Filled} (h : s.Sound uthreads) (hexact : Exact s.runq) :
    FindsUthread uthreads s where
  scan g hmask := by
    obtain ⟨u, hu, hscan, hug, -⟩ := bestUthreadOfGroup_spec h hexact hmask
    exact ⟨u, hu, hscan, hug⟩
  found flags kthreadCpuMap k ctx hctx hactive hgroup := by
    obtain ⟨v, hv, hvg⟩ := hgroup
    have hmask : s.runq.uthreadGroupMask 0 ≠ 0 := fun hzero =>
      ((exact_iff_marks h).mp hexact 0).eq_zero_iff.mp hzero _ ⟨v, hv, rfl, hvg⟩
    obtain ⟨u, hu, hscan, hug, hleast⟩ := bestUthreadOfGroup_spec h hexact hmask
    obtain ⟨runq, hrem, hleft⟩ := Represents.rem h hu
    refine ⟨u, runq, ?_, hu, hug, hleast, hleft⟩
    rw [schedFindBestUthreadGroup_of_ne_nil h (List.ne_nil_of_mem hv) flags hctx hactive,
      takeOfGroup_of_ne_zero hmask, hscan, Option.bind_some, hrem, Option.bind_some]
  other flags kthreadCpuMap k ctx hctx hactive hne hgroup := by
    have hmask : s.runq.uthreadGroupMask 0 = 0 :=
      ((exact_iff_marks h).mp hexact 0).eq_zero_iff.mpr fun p hp =>
        hp.elim fun v hv => hgroup v hv.1 hv.2.2
    -- the assertion on the counter of the group
    have htot : s.runq.uthreadGroupTot 0 = 0 := by
      rw [Represents.uthreadGroupTot_eq h, List.countP_eq_zero]
      exact fun v hv hvg => hgroup v hv (of_decide_eq_true hvg)
    rw [schedFindBestUthreadGroup_of_ne_nil h hne flags hctx hactive]
    simp [takeOfGroup, hmask, htot]

/-- As long as every removal leaves a uthread in its queue or none in its group, the masks of the
groups are exact and the group scheduler finds a uthread wherever they point; and a step after
which this is still so satisfies the condition itself. -/
theorem groupMasks_exact_iff {s : Filled}
    (hr : (runqueueSystem uthreads).Reachable (Clears uthreads) s) :
    (Exact s.runq ∧ FindsUthread uthreads s) ∧
      ∀ l s', (runqueueSystem uthreads).step s l = some s' →
        ((Exact s'.runq ∧ FindsUthread uthreads s') ↔ Clears uthreads s l) := by
  have h := sound_of_reachable hr.unguarded
  have hexact := exact_of_reachable hr
  refine ⟨⟨hexact, findsUthread_of_exact h hexact⟩, fun l s' hstep => ?_⟩
  have h' := sound_of_reachable (hr.unguarded.step trivial hstep)
  rw [← exact_step_iff h hexact hstep]
  exact ⟨And.left, fun hexact' => ⟨hexact', findsUthread_of_exact h' hexact'⟩⟩

/-- Uthreads of group 0; the first has priority 0, the others have priority 1. -/
def twoPriorities (u : ℕ) : Uthread :=
  { newUthread u 0 0 0 0 with uthreadPriority := if u = 0 then 0 else 1 }

theorem groupMasks_exact_sample :
    ∃ s, (runqueueSystem twoPriorities).Reachable (Clears twoPriorities) s ∧ s.members = [0, 2] ∧
      Exact s.runq ∧ FindsUthread twoPriorities s := by
  -- the second uthread leaves another one in its queue
  have hrun : ((runqueueSystem twoPriorities).guardedRun (Clears twoPriorities)
      (runqueueSystem twoPriorities).init [.add 0, .add 1, .add 2, .rem 1]).any
        (fun s => decide (s.members = [0, 2])) = true := by decide +kernel
  obtain ⟨s, hr, hs⟩ := System.Reachable.of_any hrun
  obtain ⟨⟨hexact, hfinds⟩, -⟩ := groupMasks_exact_iff hr
  exact ⟨s, hr, of_decide_eq_true hs, hexact, hfinds⟩

/-- Two uthreads of one group and different priorities, of which the first is removed: its bit
stays set over an empty queue, and the group scheduler ends with a null pointer although the other
one is in the runqueue. -/
theorem stale_group_bit :
    ∃ s, (runqueueSystem twoPriorities).Reachable System.anyStep s ∧ s.members = [1] ∧
      s.runq.queue 0 0 = [] ∧ isBitSet (s.runq.uthreadGroupMask 0) 0 = true ∧
      ∀ flags, schedFindBestUthreadGroup true flags twoPriorities (sampleKthreads s.runq) 0 =
        none := by
  have hrun : ((runqueueSystem twoPriorities).guardedRun System.anyStep
      (runqueueSystem twoPriorities).init [.add 0, .add 1, .rem 0]).any
        (fun s => decide (s.members = [1] ∧ s.runq.queue 0 0 = [] ∧
          isBitSet (s.runq.uthreadGroupMask 0) 0 = true ∧
          bestUthreadOfGroup s.runq 0 = none)) = true := by decide +kernel
  obtain ⟨s, hr, hs⟩ := System.Reachable.of_any hrun
  obtain ⟨hmembers, hqueue, hbit, hscan⟩ := of_decide_eq_true hs
  refine ⟨s, hr, hmembers, hqueue, hbit, fun flags => ?_⟩
  have hmask : s.runq.uthreadGroupMask 0 ≠ 0 := fun hzero => by simp [hzero] at hbit
  rw [schedFindBestUthreadGroup_of_ne_nil (sound_of_reachable hr) (by rw [hmembers]; decide)
    flags rfl rfl, takeOfGroup_of_ne_zero hmask, hscan, Option.bind_none]

end GroupMask

end GTThreads

end OSLab
