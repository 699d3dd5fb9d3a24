import AdvancedOSLab.GTThreads.Credits

/-!
# What the scheduler records as CPU time

In credit mode the library keeps for every uthread the time it spent running, "every time it was
scheduled". A slice begins when the uthread is dispatched and ends when the scheduler is entered on
its kthread again; its length is added to `run_time_total`, and when the uthread has ended that
total is stored as `cpu_time` in `uthread_time`.

The addition stands in the branch that charges credits, and the branch is taken only while the
uthread has credits. A uthread that is preempted with at most 25 credits left pays 25 for going back
to the active runqueue, and runs its next slice with none: that slice is not counted.

`timedSystem` is the library next to a record of the slices of every uthread, each with the credits
that the uthread had in it. `cpuTime_eq_total_iff` says, for every run, that what is stored for a
zombie is the time of all its slices exactly if the slices without credits took no time.
-/

namespace OSLab

namespace GTThreads

namespace CpuTime

open Runqueue Conservation

/-! ### Slices -/

/-- A slice: the credits of the uthread while it runs, and the time from its dispatch to the entry
into the scheduler. -/
structure Slice where
  credits : ℤ
  duration : ℤ
deriving DecidableEq, Repr

/-- The time of the slices. -/
def total (slices : List Slice) : ℤ := (slices.map Slice.duration).sum

/-- The time of the slices with credits. -/
def charged (slices : List Slice) : ℤ := total (slices.filter fun slice => 0 < slice.credits)

/-- The time of the slices without credits. -/
def uncharged (slices : List Slice) : ℤ := total (slices.filter fun slice => slice.credits ≤ 0)

theorem charged_add_uncharged (slices : List Slice) :
    charged slices + uncharged slices = total slices := by
  induction slices with
  | nil => rfl
  | cons slice slices ih =>
    simp only [charged, uncharged, total] at ih ⊢
    -- a slice is in exactly one of the two lists
    by_cases hpos : 0 < slice.credits
    · simp only [List.filter_cons, hpos, not_le.mpr hpos, decide_true, decide_false, if_true,
        Bool.false_eq_true, if_false, List.map_cons, List.sum_cons]
      omega
    · simp only [List.filter_cons, hpos, not_lt.mp hpos, decide_true, decide_false, if_true,
        Bool.false_eq_true, if_false, List.map_cons, List.sum_cons]
      omega

theorem charged_append_singleton (slices : List Slice) (slice : Slice) :
    charged (slices ++ [slice]) =
      charged slices + if 0 < slice.credits then slice.duration else 0 := by
  by_cases hpos : 0 < slice.credits <;> simp [charged, total, List.filter_append, hpos]

/-- The slice of `u` that ends at `stop`. -/
def sliceOf (uthreads : ℕ → Uthread) (u : ℕ) (stop : ℤ) : Slice where
  credits := (uthreads u).credits
  duration := stop - (uthreads u).startRunningTimeStep

/-- The library and the slices that its uthreads have had. -/
structure Timed where
  state : State
  slices : ℕ → List Slice

/-- The uthread that the kthread at slot `k` runs. -/
def current (s : State) (k : Fin gtMaxCores) : Option ℕ :=
  (s.kthreadCpuMap k).bind fun ctx => ctx.krunqueue.curUthread

/-- A scheduling step ends the slice of the current uthread. -/
def recordSlice (uthreads : ℕ → Uthread) (cur : Option ℕ) (stop : ℤ) (slices : ℕ → List Slice) :
    ℕ → List Slice :=
  match cur with
  | some u => Function.update slices u (slices u ++ [sliceOf uthreads u stop])
  | none => slices

/-- The library, with a record of the slices. -/
def timedSystem (flags : Flags) (cpuids : Fin gtMaxCores → Option ℕ) : System Timed Label where
  init := { state := initial cpuids, slices := fun _ => [] }
  step t l := ((gtthreads flags cpuids).step t.state l).map fun s =>
    { state := s
      slices :=
        match l with
        | .create _ _ _ => t.slices
        | .schedule k _ clock =>
          recordSlice t.state.uthreads (current t.state k) clock.stop t.slices }

variable {kthreadCpuMap kthreadCpuMap' : KthreadCpuMap} {k : Fin gtMaxCores}
  {ctx ctx' : KthreadContext} {u v : ℕ} {s s' : State} {slices : ℕ → List Slice} {flags : Flags}
  {cpuids : Fin gtMaxCores → Option ℕ} {uthreads : ℕ → Uthread}

/-! ### The zombies after a step -/

/-- A kthread whose list of zombies grows. -/
theorem mem_zombies_update {new : List ℕ} (hctx : kthreadCpuMap k = some ctx)
    (hnew : ctx'.krunqueue.zombieUthreads = ctx.krunqueue.zombieUthreads ++ new) :
    v ∈ zombies (Function.update kthreadCpuMap k (some ctx')) ↔
      v ∈ zombies kthreadCpuMap ∨ v ∈ new := by
  have hold : At kthreadCpuMap v ⟨k, .zombie⟩ ↔ v ∈ ctx.krunqueue.zombieUthreads := at_iff hctx
  have hholds : ctx'.krunqueue.Holds v .zombie ↔ At kthreadCpuMap v ⟨k, .zombie⟩ ∨ v ∈ new := by
    show v ∈ ctx'.krunqueue.zombieUthreads ↔ _
    rw [hnew, List.mem_append, hold]
  simp only [mem_zombies, at_update]
  -- at `k` the list has the new ones too, elsewhere it is the same
  constructor
  · rintro ⟨j, hj⟩
    split at hj
    · exact (hholds.mp hj).imp_left fun hv => ⟨k, hv⟩
    · exact .inl ⟨j, hj⟩
  · rintro (⟨j, hj⟩ | hv)
    · refine ⟨j, ?_⟩
      split
      · next hjk =>
        obtain rfl : j = k := hjk
        exact hholds.mpr (.inl hj)
      · exact hj
    · exact ⟨k, by rw [if_pos rfl]; exact hholds.mpr (.inr hv)⟩

/-- A kthread that keeps its list of zombies. -/
theorem mem_zombies_keep (hctx : kthreadCpuMap k = some ctx)
    (hkeep : ctx'.krunqueue.zombieUthreads = ctx.krunqueue.zombieUthreads) :
    v ∈ zombies (Function.update kthreadCpuMap k (some ctx')) ↔ v ∈ zombies kthreadCpuMap := by
  have hnew : ctx'.krunqueue.zombieUthreads = ctx.krunqueue.zombieUthreads ++ [] := by
    rw [hkeep, List.append_nil]
  rw [mem_zombies_update hctx hnew]
  simp

theorem mem_zombies_map {f : KthreadContext → KthreadContext}
    (hf : ∀ ctx, (f ctx).krunqueue.zombieUthreads = ctx.krunqueue.zombieUthreads) :
    v ∈ zombies (Function.update kthreadCpuMap k ((kthreadCpuMap k).map f)) ↔
      v ∈ zombies kthreadCpuMap := by
  cases hctx : kthreadCpuMap k with
  | none => rw [Option.map_none, ← hctx, Function.update_eq_self]
  | some ctx => exact mem_zombies_keep hctx (hf ctx)

theorem mem_zombies_setActive (hctx : kthreadCpuMap k = some ctx) (runq : Runqueue) :
    v ∈ zombies (Function.update kthreadCpuMap k (some (ctx.setActive runq))) ↔
      v ∈ zombies kthreadCpuMap :=
  mem_zombies_keep hctx rfl

/-- Choosing the next uthread makes no zombies. -/
theorem mem_zombies_found {uObj : Option ℕ}
    (hfound : Found uthreads kthreadCpuMap k uObj kthreadCpuMap') :
    v ∈ zombies kthreadCpuMap' ↔ v ∈ zombies kthreadCpuMap := by
  cases hfound with
  | own hctx => exact mem_zombies_setActive hctx _
  | nothing hctx => exact mem_zombies_keep hctx rfl
  | @stolen ctx i other _ _ otherRunq runq hctx _ hi hother =>
    have hctx' : Function.update kthreadCpuMap i (some (other.setActive otherRunq)) k = some ctx :=
      (Function.update_of_ne hi.symm _ _).trans hctx
    exact (mem_zombies_setActive hctx' runq).trans (mem_zombies_setActive hother otherRunq)

/-! ### What the records say -/

/-- The total of a uthread that has not ended, and the stored time of one that has, are the time of
its slices with credits. -/
structure Accounted (s : State) (slices : ℕ → List Slice) : Prop where
  tid : ∀ u, (s.uthreads u).uthreadTid = u
  fresh : ∀ u, s.kthreadTotUthreads ≤ u → slices u = []
  runTimeTotal : ∀ u, u ∉ zombies s.kthreadCpuMap →
    (s.uthreads u).runTimeTotal = charged (slices u)
  cpuTime : ∀ u ∈ zombies s.kthreadCpuMap, (s.uthreadTime u).cpuTime = charged (slices u)

/-- Writing one uthread keeps the thread ids if the record has the right one. -/
theorem tid_update {uObj : Uthread} (h : ∀ v, (uthreads v).uthreadTid = v)
    (hu : uObj.uthreadTid = u) (v : ℕ) : (Function.update uthreads u uObj v).uthreadTid = v :=
  (Function.forall_update_iff uthreads (p := fun v uObj => uObj.uthreadTid = v)).mpr
    ⟨hu, fun v _ => h v⟩ v

/-- Writing other fields of a uthread. -/
theorem Accounted.of_uthread {uObj : Uthread} (h : Accounted s slices)
    (htid : uObj.uthreadTid = (s.uthreads u).uthreadTid)
    (htotal : uObj.runTimeTotal = (s.uthreads u).runTimeTotal) :
    Accounted { s with uthreads := Function.update s.uthreads u uObj } slices where
  tid := tid_update h.tid (htid.trans (h.tid u))
  fresh := h.fresh
  runTimeTotal v hv := by
    by_cases hvu : v = u
    · subst hvu
      simp only [Function.update_self]
      exact htotal.trans (h.runTimeTotal v hv)
    · simp only [Function.update_of_ne hvu]
      exact h.runTimeTotal v hv
  cpuTime := h.cpuTime

/-- Writing kthreads that keep their zombies. -/
theorem Accounted.of_zombies (h : Accounted s slices)
    (hzombies : ∀ u, u ∈ zombies kthreadCpuMap ↔ u ∈ zombies s.kthreadCpuMap) :
    Accounted { s with kthreadCpuMap := kthreadCpuMap } slices where
  tid := h.tid
  fresh := h.fresh
  runTimeTotal u hu := h.runTimeTotal u fun hu' => hu ((hzombies u).mpr hu')
  cpuTime u hu := h.cpuTime u ((hzombies u).mp hu)

/-- A slice is added to the total in credit mode, as long as the uthread has credits. -/
theorem chargeCredits_runTimeTotal (hcredit : flags.isCreditScheduler = true) (stop : ℤ) :
    (chargeCredits flags stop (uthreads u)).runTimeTotal = (uthreads u).runTimeTotal +
      if 0 < (sliceOf uthreads u stop).credits then (sliceOf uthreads u stop).duration else 0 := by
  by_cases hpos : 0 < (uthreads u).credits
  · rw [chargeCredits, if_pos ⟨hcredit, hpos⟩,
      if_pos (show 0 < (sliceOf _ u stop).credits from hpos)]
    rfl
  · rw [chargeCredits, if_neg fun h => hpos h.2,
      if_neg (show ¬ 0 < (sliceOf _ u stop).credits from hpos), Int.add_zero]

theorem chargeCredits_uthreadTid (flags : Flags) (stop : ℤ) (uObj : Uthread) :
    (chargeCredits flags stop uObj).uthreadTid = uObj.uthreadTid := by
  unfold chargeCredits
  split <;> rfl

/-- Becoming runnable again does not touch the total. -/
theorem requeue_frame (flags : Flags) (uObj : Uthread) :
    (requeue flags uObj).2.uthreadTid = uObj.uthreadTid ∧
      (requeue flags uObj).2.runTimeTotal = uObj.runTimeTotal := by
  simp only [requeue]
  split
  · exact ⟨rfl, rfl⟩
  · split
    · split <;> exact ⟨rfl, rfl⟩
    · exact ⟨rfl, rfl⟩

/-- Putting the current uthread away records its slice. -/
theorem Accounted.retireCurrent (h : Accounted s slices)
    (hcredit : flags.isCreditScheduler = true) (hctx : s.kthreadCpuMap k = some ctx)
    (hlive : u ∉ zombies s.kthreadCpuMap) (hu : u < s.kthreadTotUthreads) (stop : ℤ) :
    Accounted (retireCurrent flags k ctx u stop s)
      (Function.update slices u (slices u ++ [sliceOf s.uthreads u stop])) := by
  have htid := (chargeCredits_uthreadTid flags stop (s.uthreads u)).trans (h.tid u)
  have htotal : (chargeCredits flags stop (s.uthreads u)).runTimeTotal =
      charged (slices u ++ [sliceOf s.uthreads u stop]) := by
    rw [chargeCredits_runTimeTotal hcredit, h.runTimeTotal u hlive, charged_append_singleton]
  have hfresh : ∀ v, s.kthreadTotUthreads ≤ v →
      Function.update slices u (slices u ++ [sliceOf s.uthreads u stop]) v = [] := by
    intro v hv
    rw [Function.update_of_ne (hu.trans_le hv).ne']
    exact h.fresh v hv
  simp only [GTThreads.retireCurrent, hcredit, if_true]
  generalize chargeCredits flags stop (s.uthreads u) = uObj at htid htotal ⊢
  generalize slices u ++ [sliceOf s.uthreads u stop] = slices' at htotal hfresh ⊢
  split
  · -- the uthread has ended: its total is stored
    have hzombies : ∀ v, v ∈ zombies (Function.update s.kthreadCpuMap k (some { ctx with
          krunqueue := { ctx.krunqueue with
            curUthread := none
            zombieUthreads := ctx.krunqueue.zombieUthreads ++ [u] } })) ↔
        v ∈ zombies s.kthreadCpuMap ∨ v ∈ [u] := fun v => mem_zombies_update hctx rfl
    refine ⟨tid_update h.tid htid, hfresh, fun v hv => ?_, fun v hv => ?_⟩
    · rw [hzombies, not_or, List.mem_singleton] at hv
      simp only [Function.update_of_ne hv.2]
      exact h.runTimeTotal v hv.1
    · rw [hzombies, List.mem_singleton] at hv
      simp only [htid]
      by_cases hvu : v = u
      · subst hvu
        simp only [Function.update_self]
        exact htotal
      · simp only [Function.update_of_ne hvu]
        exact h.cpuTime v (hv.resolve_right hvu)
  · -- the uthread goes to a runqueue with its new total
    obtain ⟨hrtid, hrtotal⟩ := requeue_frame flags uObj
    have hzombies : ∀ v, v ∈ zombies (Function.update s.kthreadCpuMap k (some { ctx with
          krunqueue := KthreadRunqueue.insert
            (Function.update s.uthreads u (requeue flags uObj).2)
            { ctx.krunqueue with curUthread := none } (requeue flags uObj).1 u })) ↔
        v ∈ zombies s.kthreadCpuMap := by
      intro v
      refine mem_zombies_keep hctx ?_
      cases (requeue flags uObj).1 <;> rfl
    refine ⟨tid_update h.tid (hrtid.trans htid), hfresh, fun v hv => ?_, fun v hv => ?_⟩
    · rw [hzombies] at hv
      by_cases hvu : v = u
      · subst hvu
        simp only [Function.update_self]
        exact hrtotal.trans htotal
      · simp only [Function.update_of_ne hvu]
        exact h.runTimeTotal v hv
    · rw [hzombies] at hv
      have hvu : v ≠ u := fun heq => hlive (heq ▸ hv)
      simp only [Function.update_of_ne hvu]
      exact h.cpuTime v hv

/-- The current uthread is no zombie. -/
theorem not_mem_zombies_of_current (h : Conserved s) (hctx : s.kthreadCpuMap k = some ctx)
    (hcur : ctx.krunqueue.curUthread = some u) : u ∉ zombies s.kthreadCpuMap := by
  intro hmem
  obtain ⟨j, hj⟩ := mem_zombies.mp hmem
  have hat : At s.kthreadCpuMap u ⟨k, .current⟩ := ⟨ctx, hctx, hcur⟩
  exact absurd (congrArg Place.slot (h.eq_of_at hat hj)) (by simp)

theorem Accounted.putAway (h : Accounted s slices) (hs : Conserved s)
    (hcredit : flags.isCreditScheduler = true) (hctx : s.kthreadCpuMap k = some ctx) (stop : ℤ) :
    Accounted (putAway flags k ctx stop s)
      (recordSlice s.uthreads ctx.krunqueue.curUthread stop slices) := by
  rw [GTThreads.putAway]
  cases hcur : ctx.krunqueue.curUthread with
  | none => exact h
  | some u =>
    refine h.retireCurrent hcredit hctx (not_mem_zombies_of_current hs hctx hcur) ?_ stop
    exact hs.created u ⟨k, .current⟩ ⟨ctx, hctx, hcur⟩

/-! ### All runs -/

/-- What the current uthread writes before it enters the scheduler is not part of the records. -/
theorem Accounted.beforeSchedule {ending : Ending} {finish : ℤ} (h : Accounted s slices)
    (hs' : beforeSchedule k ending finish s = some s') : Accounted s' slices := by
  cases ending with
  | preempted =>
    obtain rfl := Option.some.inj hs'
    exact h
  | finished | yielded =>
    obtain ⟨u, -, hs'⟩ := Option.bind_eq_some_iff.mp hs'
    obtain rfl := Option.some.inj hs'
    exact h.of_uthread rfl rfl

/-- Dispatching the next uthread writes its state and the start of its slice. -/
theorem Accounted.resume (h : Accounted s slices) (uObj : Option ℕ) (start : ℤ) :
    Accounted (resume k uObj start s) slices := by
  cases uObj with
  | none =>
    simp only [GTThreads.resume, quitTest]
    split
    · exact h.of_zombies fun _ => mem_zombies_map fun _ => rfl
    · exact h
  | some u =>
    have h' : Accounted
        { s with
          uthreads := Function.update s.uthreads u
            { s.uthreads u with uthreadState := .running, startRunningTimeStep := start } }
        slices := h.of_uthread rfl rfl
    exact h'.of_zombies fun _ => mem_zombies_map fun _ => rfl

theorem Accounted.uthreadCreate {uGid : Fin maxUthreadGroups} {credits now : ℤ}
    (h : Accounted s slices) (hs : Conserved s)
    (hs' : uthreadCreate uGid credits now s = some s') : Accounted s' slices := by
  obtain ⟨target, -, hs'⟩ := Option.bind_eq_some_iff.mp hs'
  obtain ⟨ctx, hctx, hs'⟩ := Option.bind_eq_some_iff.mp hs'
  obtain rfl := Option.some.inj hs'
  refine ⟨tid_update h.tid rfl, fun v hv => h.fresh v (Nat.le_of_succ_le hv), fun v hv => ?_,
    fun v hv => ?_⟩
  · rw [mem_zombies_setActive hctx] at hv
    by_cases hvu : v = s.kthreadTotUthreads
    · subst hvu
      simp only [Function.update_self, h.fresh _ le_rfl]
      rfl
    · simp only [Function.update_of_ne hvu]
      exact h.runTimeTotal v hv
  · rw [mem_zombies_setActive hctx] at hv
    -- the zombies were created before
    obtain ⟨j, hj⟩ := mem_zombies.mp hv
    have hvu : v ≠ s.kthreadTotUthreads := (hs.created v _ hj).ne
    simp only [Function.update_of_ne hvu]
    exact h.cpuTime v hv

/-- A step of the library keeps the records in agreement with the slices. -/
theorem Accounted.step {t t' : Timed} {l : Label} (h : Accounted t.state t.slices)
    (hs : Conserved t.state) (hcredit : flags.isCreditScheduler = true)
    (hstep : (timedSystem flags cpuids).step t l = some t') : Accounted t'.state t'.slices := by
  obtain ⟨s', hs', rfl⟩ := Option.map_eq_some_iff.mp hstep
  cases l with
  | create uGid credits now => exact h.uthreadCreate hs hs'
  | schedule k ending clock =>
    obtain ⟨s₁, hs₁, hs'⟩ := Option.bind_eq_some_iff.mp hs'
    obtain ⟨hmap, -, hfields⟩ := Credits.beforeSchedule_frame hs₁
    obtain ⟨hconserved, -⟩ := hs.beforeSchedule hs₁
    obtain ⟨ctx, hctx, -⟩ := Option.bind_eq_some_iff.mp hs'
    obtain ⟨s₂, uObj, kthreadCpuMap, rfl, -, hfound, rfl⟩ :=
      hconserved.found_of_uthreadSchedule hctx hs'
    -- the slice that is recorded is the one that is charged
    have hcur : current t.state k = ctx.krunqueue.curUthread := by
      rw [current, ← hmap, hctx, Option.bind_some]
    have hslices : recordSlice t.state.uthreads (current t.state k) clock.stop t.slices =
        recordSlice s₁.uthreads ctx.krunqueue.curUthread clock.stop t.slices := by
      have hslice : ∀ u, sliceOf t.state.uthreads u clock.stop =
          sliceOf s₁.uthreads u clock.stop := fun u => by
        rw [sliceOf, sliceOf, (hfields u).1, (hfields u).2]
      rw [hcur]
      cases ctx.krunqueue.curUthread with
      | none => rfl
      | some u => simp only [recordSlice, hslice]
    show Accounted _ (recordSlice t.state.uthreads (current t.state k) clock.stop t.slices)
    rw [hslices]
    have hput := (h.beforeSchedule hs₁).putAway hconserved hcredit hctx clock.stop
    exact (hput.of_zombies fun _ => mem_zombies_found hfound).resume uObj clock.start

theorem reachable_state {t : Timed}
    (hr : (timedSystem flags cpuids).Reachable System.anyStep t) :
    (gtthreads flags cpuids).Reachable System.anyStep t.state := by
  induction hr with
  | init => exact .init
  | step _ _ hstep ih =>
    obtain ⟨s', hs', rfl⟩ := Option.map_eq_some_iff.mp hstep
    exact ih.step trivial hs'

theorem accounted_of_reachable {t : Timed} (hcredit : flags.isCreditScheduler = true)
    (hr : (timedSystem flags cpuids).Reachable System.anyStep t) :
    Accounted t.state t.slices := by
  induction hr with
  | init =>
    have hnone : ∀ u, u ∉ zombies (initial cpuids).kthreadCpuMap := by
      intro u hu
      obtain ⟨j, hj⟩ := mem_zombies.mp hu
      exact absurd ((conserved_initial cpuids).created u _ hj) (Nat.not_lt_zero u)
    exact ⟨fun _ => rfl, fun _ _ => rfl, fun _ _ => rfl, fun u hu => absurd hu (hnone u)⟩
  | step hr _ hstep ih =>
    exact ih.step (sound_of_reachable (reachable_state hr)).conserved hcredit hstep

/-- In credit mode, in every state of a run, the `cpu_time` stored for a uthread on a list of
zombies is the time of all its slices if and only if those of its slices that it ran without credits
took no time in total. -/
theorem cpuTime_eq_total_iff (flags : Flags) (cpuids : Fin gtMaxCores → Option ℕ) {t : Timed}
    (hcredit : flags.isCreditScheduler = true)
    (hr : (timedSystem flags cpuids).Reachable System.anyStep t) {u : ℕ}
    (hu : u ∈ zombies t.state.kthreadCpuMap) :
    (t.state.uthreadTime u).cpuTime = total (t.slices u) ↔ uncharged (t.slices u) = 0 := by
  rw [(accounted_of_reachable hcredit hr).cpuTime u hu, ← charged_add_uncharged]
  omega

/-- A uthread with 100 credits that is preempted once: both slices are counted. -/
theorem cpuTime_eq_total_preempted :
    ∃ t, (timedSystem ⟨true, true, false⟩ pairCpuids).Reachable System.anyStep t ∧
      0 ∈ zombies t.state.kthreadCpuMap ∧ t.slices 0 = [⟨100, 1000⟩, ⟨74, 3000⟩] ∧
      (t.state.uthreadTime 0).cpuTime = 4000 := by
  have hrun : ((timedSystem ⟨true, true, false⟩ pairCpuids).guardedRun System.anyStep
      (timedSystem ⟨true, true, false⟩ pairCpuids).init
      [.create 0 100 0, .schedule 1 .preempted ⟨0, 0, 0⟩, .schedule 1 .preempted ⟨0, 1000, 2000⟩,
        .schedule 1 .finished ⟨5000, 5000, 5000⟩]).any
      (fun t => decide (0 ∈ zombies t.state.kthreadCpuMap ∧
        t.slices 0 = [⟨100, 1000⟩, ⟨74, 3000⟩])) = true := by decide +kernel
  obtain ⟨t, hr, ht⟩ := System.Reachable.of_any hrun
  obtain ⟨hzombie, hslices⟩ := of_decide_eq_true ht
  refine ⟨t, hr, hzombie, hslices, ?_⟩
  rw [(cpuTime_eq_total_iff _ _ rfl hr hzombie).mpr (by rw [hslices]; rfl), hslices]
  rfl

/-- A uthread with 25 credits that is preempted after a millisecond runs its second slice without
credits, and the three milliseconds of that slice are not counted. -/
theorem slice_without_credits_not_counted :
    ∃ t, (timedSystem ⟨true, true, false⟩ pairCpuids).Reachable System.anyStep t ∧
      0 ∈ zombies t.state.kthreadCpuMap ∧ t.slices 0 = [⟨25, 1000⟩, ⟨-1, 3000⟩] ∧
      total (t.slices 0) = 4000 ∧ (t.state.uthreadTime 0).cpuTime = 1000 := by
  have hrun : ((timedSystem ⟨true, true, false⟩ pairCpuids).guardedRun System.anyStep
      (timedSystem ⟨true, true, false⟩ pairCpuids).init
      [.create 0 25 0, .schedule 1 .preempted ⟨0, 0, 0⟩, .schedule 1 .preempted ⟨0, 1000, 2000⟩,
        .schedule 1 .finished ⟨5000, 5000, 5000⟩]).any
      (fun t => decide (0 ∈ zombies t.state.kthreadCpuMap ∧
        t.slices 0 = [⟨25, 1000⟩, ⟨-1, 3000⟩] ∧ total (t.slices 0) = 4000 ∧
        (t.state.uthreadTime 0).cpuTime = 1000)) = true := by decide +kernel
  obtain ⟨t, hr, ht⟩ := System.Reachable.of_any hrun
  exact ⟨t, hr, of_decide_eq_true ht⟩

end CpuTime

end GTThreads

end OSLab
