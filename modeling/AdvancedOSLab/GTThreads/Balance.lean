import AdvancedOSLab.GTThreads.Conservation

/-!
# The round robin over the kthreads

`uthread_create` leaves the choice of the kthread to `ksched_find_target`. For every group it
remembers the slot that the last uthread of the group went to, and takes the next registered slot
behind it. The slots form a circle with holes, and the starting point is whatever the memory holds.

The result is that this spreads the uthreads of every group evenly (`placement_balanced`): from any
state in which a kthread is registered, every sequence of calls returns, each call chooses a
registered kthread, and of the uthreads of one group no kthread gets more than one more than
another. The groups may alternate in any way, and the kthreads may run the scheduler between the
calls.

## The argument

`placing` is the library next to a record of the kthreads that were chosen. For each group it
follows a round robin in the sense of `RoundRobin` (`Follows`): the registered slots behind the last
one are its queue, and the numbers in the record say how often each was served. A call for the group
serves the head of that queue (`Follows.serve`). Nothing else touches it: a call for another group
writes another entry of `last_ugroup_kthread`, and the scheduler neither writes that array nor
registers or removes a kthread (`step_cases`).

The record is not a second account of the code: over calls without scheduling in between, its
numbers grow by as much as the `uthread_group_tot` of the active runqueues (`groupTot_calls`).

Calls are one after the other here, as the main kthread makes them: `last_ugroup_kthread` is read
outside of the lock, so that two calls at the same time could choose the same slot.
-/

namespace OSLab

namespace GTThreads

namespace Balance

open Runqueue Conservation RoundRobin

/-- The arguments of a call of `uthread_create`, and the time at which it is made. -/
structure Call where
  uGid : Fin maxUthreadGroups
  credits : ℤ
  now : ℤ

def Call.label (call : Call) : Label := .create call.uGid call.credits call.now

/-- The library and the kthreads that `ksched_find_target` has returned, each with the group that it
was chosen for. -/
structure Recorded where
  state : State
  placements : List (Fin maxUthreadGroups × Fin gtMaxCores)

/-- What a step adds to the record. -/
def chosen (s : State) : Label → List (Fin maxUthreadGroups × Fin gtMaxCores)
  | .create uGid _ _ => ((kschedFindTarget s.kthreadCpuMap (s.lastUgroupKthread uGid)).map
      fun target => (uGid, target)).toList
  | .schedule _ _ _ => []

/-- The library, started in the given state, with the record. -/
def placing (flags : Flags) (s : State) : System Recorded Label where
  init := { state := s, placements := [] }
  -- the kthreads are those of `s`; the ones that `gtthreads` registers itself play no role
  step t l := ((gtthreads flags fun _ => none).step t.state l).map fun s' =>
    { state := s', placements := t.placements ++ chosen t.state l }

/-- Uthreads went to kthreads that are registered in `s` only, and of each group any two of these
have got equally many, up to one. -/
structure Balanced (s : State) (t : Recorded) : Prop where
  on_registered : ∀ p ∈ t.placements, registered s.kthreadCpuMap p.2
  le_succ : ∀ g k k', registered s.kthreadCpuMap k → registered s.kthreadCpuMap k' →
    t.placements.count (g, k) ≤ t.placements.count (g, k') + 1

variable {flags : Flags} {s s' : State} {t t' : Recorded} {l : Label}
  {g uGid : Fin maxUthreadGroups} {k target : Fin gtMaxCores} {r : RoundRobin (Fin gtMaxCores)}

theorem count_placement (uGid g : Fin maxUthreadGroups) (target k : Fin gtMaxCores) :
    [(uGid, target)].count (g, k) = if uGid = g ∧ target = k then 1 else 0 := by
  rw [List.count_singleton]
  simp only [beq_iff_eq, Prod.mk.injEq]

/-! ### What a step does to the round robin -/

theorem registered_eq_of_sameCpuids {kthreadCpuMap kthreadCpuMap' : KthreadCpuMap}
    (h : SameCpuids kthreadCpuMap' kthreadCpuMap) :
    registered kthreadCpuMap' = registered kthreadCpuMap := by
  funext k
  have hsome := congrArg Option.isSome (h k)
  rwa [Option.isSome_map, Option.isSome_map] at hsome

/-- A call that returns has written the entry of its group. -/
theorem uthreadCreate_cases {credits now : ℤ} (hs' : uthreadCreate uGid credits now s = some s') :
    ∃ target, kschedFindTarget s.kthreadCpuMap (s.lastUgroupKthread uGid) = some target ∧
      registered s'.kthreadCpuMap = registered s.kthreadCpuMap ∧
      s'.lastUgroupKthread = Function.update s.lastUgroupKthread uGid target := by
  obtain ⟨target, htarget, hs'⟩ := Option.bind_eq_some_iff.mp hs'
  obtain ⟨ctx, hctx, hs'⟩ := Option.bind_eq_some_iff.mp hs'
  obtain rfl := Option.some.inj hs'
  exact ⟨target, htarget, registered_eq_of_sameCpuids (sameCpuids_setActive hctx _), rfl⟩

theorem putAway_lastUgroupKthread (flags : Flags) (k : Fin gtMaxCores) (ctx : KthreadContext)
    (stop : ℤ) (s : State) :
    (putAway flags k ctx stop s).lastUgroupKthread = s.lastUgroupKthread := by
  rw [putAway]
  split
  · simp only [retireCurrent]
    split <;> rfl
  · rfl

theorem resume_lastUgroupKthread (k : Fin gtMaxCores) (uObj : Option ℕ) (start : ℤ) (s : State) :
    (resume k uObj start s).lastUgroupKthread = s.lastUgroupKthread := by
  cases uObj with
  | some u => rfl
  | none =>
    simp only [resume, quitTest]
    split <;> rfl

theorem uthreadSchedule_lastUgroupKthread {clock : Clock}
    (hs' : uthreadSchedule flags k clock s = some s') :
    s'.lastUgroupKthread = s.lastUgroupKthread := by
  obtain ⟨ctx, -, hs'⟩ := Option.bind_eq_some_iff.mp hs'
  obtain ⟨⟨uObj, kthreadCpuMap'⟩, -, hs'⟩ := Option.bind_eq_some_iff.mp hs'
  obtain rfl := Option.some.inj hs'
  rw [resume_lastUgroupKthread]
  exact putAway_lastUgroupKthread flags k ctx clock.stop s

/-- What a step can do to the round robins: a call moves the one of its group on, and a scheduling
step leaves them all alone. -/
theorem step_cases (hstep : (placing flags s).step t l = some t') :
    registered t'.state.kthreadCpuMap = registered t.state.kthreadCpuMap ∧
      ((∃ uGid target,
          kschedFindTarget t.state.kthreadCpuMap (t.state.lastUgroupKthread uGid) = some target ∧
          t'.state.lastUgroupKthread = Function.update t.state.lastUgroupKthread uGid target ∧
          t'.placements = t.placements ++ [(uGid, target)]) ∨
        (t'.state.lastUgroupKthread = t.state.lastUgroupKthread ∧
          t'.placements = t.placements)) := by
  obtain ⟨s', hs', rfl⟩ := Option.map_eq_some_iff.mp hstep
  cases l with
  | create uGid credits now =>
    obtain ⟨target, htarget, hregistered, hlast⟩ := uthreadCreate_cases hs'
    refine ⟨hregistered, .inl ⟨uGid, target, htarget, hlast, ?_⟩⟩
    simp [chosen, htarget]
  | schedule k ending clock =>
    obtain ⟨s₁, hs₁, hs'⟩ := Option.bind_eq_some_iff.mp hs'
    obtain ⟨uthreads', rfl, -⟩ := beforeSchedule_spec hs₁
    have hsame := sameCpuids_uthreadSchedule hs'
    have hlast := uthreadSchedule_lastUgroupKthread hs'
    exact ⟨registered_eq_of_sameCpuids hsame, .inr ⟨hlast, List.append_nil t.placements⟩⟩

/-! ### The record and the runqueues -/

/-- How many uthreads of the group the active runqueue of a kthread counts. -/
def groupTot (kthreadCpuMap : KthreadCpuMap) (g : Fin maxUthreadGroups) (k : Fin gtMaxCores) : ℕ :=
  (kthreadCpuMap k).elim 0 fun ctx => ctx.krunqueue.activeRunq.uthreadGroupTot g

/-- A call puts the new uthread into the active runqueue of the kthread that was chosen. -/
theorem groupTot_uthreadCreate {credits now : ℤ}
    (htarget : kschedFindTarget s.kthreadCpuMap (s.lastUgroupKthread uGid) = some target)
    (hs' : uthreadCreate uGid credits now s = some s') :
    groupTot s'.kthreadCpuMap g k =
      groupTot s.kthreadCpuMap g k + [(uGid, target)].count (g, k) := by
  obtain ⟨target', htarget', hs'⟩ := Option.bind_eq_some_iff.mp hs'
  obtain rfl := Option.some.inj (htarget'.symm.trans htarget)
  obtain ⟨ctx, hctx, hs'⟩ := Option.bind_eq_some_iff.mp hs'
  obtain rfl := Option.some.inj hs'
  rw [groupTot, groupTot, count_placement]
  by_cases hk : k = target'
  · subst hk
    by_cases hg : g = uGid
    · subst hg
      simp [hctx, KthreadContext.setActive, addToRunqueue, newUthread]
    · simp [hctx, hg, Ne.symm hg, KthreadContext.setActive, addToRunqueue, newUthread]
  · simp [hk, Ne.symm hk]

/-- As long as no kthread runs the scheduler, the record gets what the runqueues get. -/
theorem groupTot_calls {calls : List Call}
    (hrun : (placing flags s).guardedRun System.anyStep t (calls.map Call.label) = some t')
    (g : Fin maxUthreadGroups) (k : Fin gtMaxCores) :
    groupTot t'.state.kthreadCpuMap g k + t.placements.count (g, k) =
      groupTot t.state.kthreadCpuMap g k + t'.placements.count (g, k) := by
  induction calls generalizing t with
  | nil =>
    obtain rfl := Option.some.inj hrun
    rfl
  | cons call calls ih =>
    obtain ⟨-, t₁, hstep, hrest⟩ := System.guardedRun_cons_eq_some.mp hrun
    obtain ⟨s', hs', rfl⟩ := Option.map_eq_some_iff.mp hstep
    obtain ⟨target, htarget, -⟩ := uthreadCreate_cases hs'
    have hchosen : chosen t.state call.label = [(call.uGid, target)] := by
      simp [chosen, Call.label, htarget]
    -- one call adds one entry to the record, and one uthread to the runqueue of its target
    have hone : groupTot s'.kthreadCpuMap g k =
        groupTot t.state.kthreadCpuMap g k + [(call.uGid, target)].count (g, k) :=
      groupTot_uthreadCreate htarget hs'
    have hlater := ih hrest
    dsimp only at hlater
    rw [hchosen, List.count_append] at hlater
    omega

/-! ### The round robin of a group -/

/-- The group's part of the state and of the record is the given round robin. -/
structure Follows (t : Recorded) (g : Fin maxUthreadGroups) (r : RoundRobin (Fin gtMaxCores)) :
    Prop where
  queue : r.queue = waiting (registered t.state.kthreadCpuMap) (t.state.lastUgroupKthread g)
  served : ∀ k, r.served k = t.placements.count (g, k)

/-- Wherever the search starts from, at first nobody has been served. -/
theorem follows_start (s : State) (g : Fin maxUthreadGroups) :
    Follows { state := s, placements := [] } g (.start
      (waiting (registered s.kthreadCpuMap) (s.lastUgroupKthread g)) (nodup_waiting _ _)) where
  queue := rfl
  served _ := rfl

/-- A call for the group serves the kthread at the head of the queue. -/
theorem Follows.serve (h : Follows t g r)
    (htarget : kschedFindTarget t.state.kthreadCpuMap (t.state.lastUgroupKthread g) = some target)
    (hregistered : registered t'.state.kthreadCpuMap = registered t.state.kthreadCpuMap)
    (hlast : t'.state.lastUgroupKthread g = target)
    (hplacements : t'.placements = t.placements ++ [(g, target)]) :
    ∃ rest hhead, Follows t' g (r.serve target rest hhead) := by
  rw [kschedFindTarget_eq_find] at htarget
  obtain ⟨rest, hhead, hend⟩ := waiting_of_find htarget
  refine ⟨rest, h.queue.trans hhead, ?_, fun k => ?_⟩
  · rw [hregistered, hlast]
    exact hend.symm
  · show Function.update r.served target (r.served target + 1) k = _
    rw [hplacements, List.count_append, count_placement, Function.update_apply]
    by_cases hk : k = target
    · rw [if_pos hk, if_pos ⟨rfl, hk.symm⟩, hk, h.served]
    · rw [if_neg hk, if_neg fun h => hk h.2.symm, h.served, Nat.add_zero]

/-- What does not concern the group. -/
theorem Follows.of_eq (h : Follows t g r)
    (hregistered : registered t'.state.kthreadCpuMap = registered t.state.kthreadCpuMap)
    (hlast : t'.state.lastUgroupKthread g = t.state.lastUgroupKthread g)
    (hcount : ∀ k, t'.placements.count (g, k) = t.placements.count (g, k)) : Follows t' g r where
  queue := by rw [hregistered, hlast]; exact h.queue
  served k := (h.served k).trans (hcount k).symm

/-- **Refinement.** A step of the library is a turn of the group's round robin, or none. -/
theorem Follows.step (h : Follows t g r) (hstep : (placing flags s).step t l = some t') :
    Follows t' g r ∨ ∃ target rest hhead, Follows t' g (r.serve target rest hhead) := by
  obtain ⟨hregistered, ⟨uGid, target, htarget, hlast, hplacements⟩ | ⟨hlast, hplacements⟩⟩ :=
    step_cases hstep
  · -- a call, for this group or for another one
    by_cases hg : g = uGid
    · subst hg
      have hlast' : t'.state.lastUgroupKthread g = target := by rw [hlast, Function.update_self]
      exact .inr ⟨target, h.serve htarget hregistered hlast' hplacements⟩
    · refine .inl (h.of_eq hregistered (by rw [hlast, Function.update_of_ne hg]) fun k => ?_)
      rw [hplacements, List.count_append, count_placement, if_neg fun h => hg h.1.symm,
        Nat.add_zero]
  · exact .inl (h.of_eq hregistered (by rw [hlast]) fun k => by rw [hplacements])

/-! ### All runs -/

/-- The invariant of a run: the kthreads of the start are registered, uthreads went to these only,
and every group follows a round robin. -/
structure Spread (s : State) (t : Recorded) : Prop where
  same : registered t.state.kthreadCpuMap = registered s.kthreadCpuMap
  on_registered : ∀ p ∈ t.placements, registered s.kthreadCpuMap p.2
  follows : ∀ g, ∃ r, Follows t g r

theorem spread_init (s : State) : Spread s { state := s, placements := [] } where
  same := rfl
  on_registered _ hp := absurd hp List.not_mem_nil
  follows g := ⟨_, follows_start s g⟩

theorem Spread.step (h : Spread s t) (hstep : (placing flags s).step t l = some t') :
    Spread s t' := by
  obtain ⟨hregistered, hcases⟩ := step_cases hstep
  refine ⟨hregistered.trans h.same, ?_, fun g => ?_⟩
  · -- a new placement is where the search ended
    obtain ⟨uGid, target, htarget, -, hplacements⟩ | ⟨-, hplacements⟩ := hcases
    · intro p hp
      rw [hplacements, List.mem_append, List.mem_singleton] at hp
      obtain hp | rfl := hp
      · exact h.on_registered p hp
      · rw [← h.same]
        exact isSome_of_kschedFindTarget htarget
    · rw [hplacements]
      exact h.on_registered
  · obtain ⟨r, hr⟩ := h.follows g
    obtain hr | ⟨target, rest, hhead, hr⟩ := hr.step hstep
    · exact ⟨_, hr⟩
    · exact ⟨_, hr⟩

theorem spread_of_reachable {G : Recorded → Label → Prop}
    (hr : (placing flags s).Reachable G t) : Spread s t :=
  hr.invariant (spread_init s) fun _ _ _ _ h _ hstep => h.step hstep

/-- What follows a round robin is balanced. -/
theorem Spread.balanced (h : Spread s t) : Balanced s t := by
  refine ⟨h.on_registered, fun g k k' hk hk' => ?_⟩
  obtain ⟨r, hr⟩ := h.follows g
  -- every registered kthread waits in the queue
  have hmem : ∀ k, registered s.kthreadCpuMap k → k ∈ r.queue := by
    intro k hk
    rw [hr.queue, mem_waiting, h.same]
    exact hk
  rw [← hr.served, ← hr.served]
  exact r.served_le_succ (hmem k hk) (hmem k' hk')

/-- A call returns when a kthread is registered, and adds one uthread of its group to the record. -/
theorem Spread.call (h : Spread s t) (flags : Flags) (hk : registered s.kthreadCpuMap k)
    (call : Call) :
    ∃ t', (placing flags s).step t call.label = some t' ∧
      t'.placements.map Prod.fst = t.placements.map Prod.fst ++ [call.uGid] := by
  have hk' : (t.state.kthreadCpuMap k).isSome := by
    rw [← h.same] at hk
    exact hk
  obtain ⟨target, htarget⟩ := Option.isSome_iff_exists.mp
    (kschedFindTarget_isSome hk' (t.state.lastUgroupKthread call.uGid))
  obtain ⟨ctx, hctx⟩ := Option.isSome_iff_exists.mp (isSome_of_kschedFindTarget htarget)
  have hstep : ((gtthreads flags fun _ => none).step t.state call.label).isSome := by
    simp [gtthreads, Call.label, uthreadCreate, htarget, hctx]
  obtain ⟨s', hs'⟩ := Option.isSome_iff_exists.mp hstep
  refine ⟨_, Option.map_eq_some_iff.mpr ⟨s', hs', rfl⟩, ?_⟩
  simp [chosen, Call.label, htarget]

/-- Every sequence of calls returns. -/
theorem Spread.calls (h : Spread s t) (flags : Flags) (hk : registered s.kthreadCpuMap k)
    (calls : List Call) :
    ∃ t', (placing flags s).guardedRun System.anyStep t (calls.map Call.label) = some t' ∧
      t'.placements.map Prod.fst = t.placements.map Prod.fst ++ calls.map Call.uGid ∧
      Spread s t' := by
  induction calls generalizing t with
  | nil => exact ⟨t, rfl, (List.append_nil _).symm, h⟩
  | cons call calls ih =>
    obtain ⟨t₁, hstep, hgroup⟩ := h.call flags hk call
    obtain ⟨t', hrun, hgroups, h'⟩ := ih (h.step hstep)
    refine ⟨t', ?_, ?_, h'⟩
    · exact System.guardedRun_cons_eq_some.mpr ⟨trivial, t₁, hstep, hrun⟩
    · rw [hgroups, hgroup, List.map_cons, List.append_assoc, List.singleton_append]

/-- **The uthreads of every group are spread evenly.** From any state with a registered kthread and
after any run of calls and scheduling steps, every sequence of further calls returns. Each of them
has placed a uthread of its group, and all placements since the start are balanced: they went to
registered kthreads, and for each group any two of these have got equally many, up to one. What the
sequence of calls has placed at a kthread is what the total of the group in its active runqueue has
grown by. -/
theorem placement_balanced (flags : Flags) (s : State)
    (hregistered : ∃ k, registered s.kthreadCpuMap k) (t : Recorded)
    (hr : (placing flags s).Reachable System.anyStep t) (calls : List Call) :
    ∃ t', (placing flags s).guardedRun System.anyStep t (calls.map Call.label) = some t' ∧
      t'.placements.map Prod.fst = t.placements.map Prod.fst ++ calls.map Call.uGid ∧
      Balanced s t' ∧
      ∀ g k, groupTot t'.state.kthreadCpuMap g k + t.placements.count (g, k) =
        groupTot t.state.kthreadCpuMap g k + t'.placements.count (g, k) := by
  obtain ⟨k, hk⟩ := hregistered
  obtain ⟨t', hrun, hgroups, h'⟩ := (spread_of_reachable hr).calls flags hk calls
  exact ⟨t', hrun, hgroups, h'.balanced, groupTot_calls hrun⟩

/-- Kthreads at two of the slots, and a memory from before they were registered. -/
def twoKthreads : State :=
  { initial (fun k => if k = 3 ∨ k = 9 then some k else none) with
    lastUgroupKthread := fun _ => 65535 }

theorem placement_balanced_two_kthreads :
    registered twoKthreads.kthreadCpuMap 3 = true ∧
      ∃ t, (placing ⟨true, true, true⟩ twoKthreads).guardedRun System.anyStep
          (placing ⟨true, true, true⟩ twoKthreads).init
          ([⟨0, 25, 0⟩, ⟨1, 50, 0⟩, ⟨0, 75, 0⟩, ⟨0, 100, 0⟩].map Call.label) = some t ∧
        t.placements.map Prod.fst = [0, 1, 0, 0] ∧ Balanced twoKthreads t := by
  obtain ⟨t, hrun, hgroups, hbalanced, -⟩ := placement_balanced ⟨true, true, true⟩ twoKthreads
    ⟨3, rfl⟩ _ .init [⟨0, 25, 0⟩, ⟨1, 50, 0⟩, ⟨0, 75, 0⟩, ⟨0, 100, 0⟩]
  exact ⟨rfl, t, hrun, hgroups, hbalanced⟩

end Balance

end GTThreads

end OSLab
