import AdvancedOSLab.GTThreads.Conservation

/-!
# What an idle kthread finds

`sched_find_best_uthread` describes itself as a search in two rounds: through the active runqueue
and, if that is empty, through the other one, after the two were exchanged; `NULL` means that there
are no more jobs. With load balancing an idle kthread first looks for a uthread at *all* other
kthreads. This module says what it finds.

* After the exchange `runq` is set to what is now the expires runqueue. This is the runqueue that
  was found empty a moment ago, so the second round never finds anything: the result is `NULL`
  whenever the active runqueue is empty, also if there is work in the expires runqueue. It is the
  caller that comes back, and finds the work then. `null_without_work_iff` has the exact condition.
* The steal loop runs while `i < 16 && i != cpuid`. It does not pass over the kthread's own number,
  but ends there, so that only kthreads with smaller numbers are looked at. The kthread at slot 0
  never steals. `idle_steals_iff` has the exact condition.
-/

namespace OSLab

namespace GTThreads

namespace Idle

open Runqueue Conservation

/-- The kthread holds nothing in this structure. -/
def Vacant (kthreadCpuMap : KthreadCpuMap) (k : Fin gtMaxCores) (slot : Slot) : Prop :=
  ∀ u, ¬ At kthreadCpuMap u ⟨k, slot⟩

/-- Kthreads are registered at the first `n` slots, each at the slot of its cpuid. -/
structure Registered (n : ℕ) (kthreadCpuMap : KthreadCpuMap) : Prop where
  isSome_iff : ∀ i, (kthreadCpuMap i).isSome ↔ (i : ℕ) < n
  cpuid_eq : ∀ i ctx, kthreadCpuMap i = some ctx → ctx.cpuid = i

/-- The kthread is not done, and has uthreads in its active runqueue. -/
def Stealable (kthreadCpuMap : KthreadCpuMap) (i : Fin gtMaxCores) : Prop :=
  ∃ ctx, kthreadCpuMap i = some ctx ∧ ctx.kthreadDone = false ∧
    ∃ u, ctx.krunqueue.Holds u .active

/-- `sched_find_best_uthread` on the kthread returns a uthread, which it has taken out of the active
runqueue of another one. -/
def Steals (flags : Flags) (uthreads : ℕ → Uthread) (kthreadCpuMap : KthreadCpuMap)
    (k : Fin gtMaxCores) : Prop :=
  ∃ u i kthreadCpuMap', schedFindBestUthread flags uthreads kthreadCpuMap k =
      some (some u, kthreadCpuMap') ∧
    i ≠ k ∧ At kthreadCpuMap u ⟨i, .active⟩ ∧ ¬ At kthreadCpuMap' u ⟨i, .active⟩

variable {flags : Flags} {uthreads : ℕ → Uthread} {kthreadCpuMap : KthreadCpuMap}
  {k c : Fin gtMaxCores} {ctx : KthreadContext} {members : List ℕ}

theorem vacant_active_iff (hctx : kthreadCpuMap k = some ctx)
    (h : Represents uthreads ctx.krunqueue.activeRunq members) :
    Vacant kthreadCpuMap k .active ↔ members = [] := by
  rw [List.eq_nil_iff_forall_not_mem]
  exact forall_congr' fun u => not_congr ((at_iff hctx).trans h.mem_iff)

/-! ### The second round of the search -/

/-- **When `NULL` says that there is no work.** Without load balancing, for a kthread with
well-formed runqueues: that `sched_find_best_uthread` returns `NULL` only if both runqueues are
empty is true exactly if the expires runqueue is not the only one with work. -/
theorem null_without_work_iff (flags : Flags) (uthreads : ℕ → Uthread)
    (kthreadCpuMap : KthreadCpuMap) (k : Fin gtMaxCores) (ctx : KthreadContext)
    (hbalancing : flags.isLoadBalancing = false) (hctx : kthreadCpuMap k = some ctx)
    (hwf : ctx.krunqueue.WellFormed uthreads) :
    (∀ kthreadCpuMap', schedFindBestUthread flags uthreads kthreadCpuMap k =
        some (none, kthreadCpuMap') →
      Vacant kthreadCpuMap k .active ∧ Vacant kthreadCpuMap k .expires) ↔
      (Vacant kthreadCpuMap k .active → Vacant kthreadCpuMap k .expires) := by
  obtain ⟨actives, hactives⟩ := hwf.active
  have hvictim : findVictim flags kthreadCpuMap ctx.cpuid = some none := by
    simp [findVictim, Flags.steals, hbalancing]
  constructor
  · intro h hempty
    -- an empty active runqueue is enough for the result `NULL`
    obtain rfl := (vacant_active_iff hctx hactives).mp hempty
    exact (h _ (schedFindBestUthread_exchange hctx hactives hvictim)).2
  · intro h kthreadCpuMap' hsched
    have hempty : actives = [] := by
      by_contra hne
      obtain ⟨u, runq, hsome, -⟩ := schedFindBestUthread_own flags hctx hactives hne
      exact absurd (hsome.symm.trans hsched) (by simp)
    have hactive := (vacant_active_iff hctx hactives).mpr hempty
    exact ⟨hactive, h hactive⟩

/-- A kthread without uthreads. -/
def unloaded (cpuid : ℕ) : KthreadContext where
  cpuid := cpuid
  kthreadDone := false
  krunqueue := kthreadInitRunqueue

/-- A kthread with one uthread in its active runqueue. -/
def loaded (cpuid u : ℕ) : KthreadContext :=
  (unloaded cpuid).setActive (addToRunqueue plainUthreads initRunqueue u)

theorem wellFormed_unloaded (cpuid : ℕ) : (unloaded cpuid).krunqueue.WellFormed plainUthreads :=
  ⟨⟨_, Represents.initRunqueue⟩, ⟨_, Represents.initRunqueue⟩, List.nodup_nil⟩

theorem wellFormed_loaded (cpuid u : ℕ) : (loaded cpuid u).krunqueue.WellFormed plainUthreads :=
  ⟨⟨_, Represents.initRunqueue.add List.not_mem_nil⟩, ⟨_, Represents.initRunqueue⟩,
    List.nodup_nil⟩

theorem holds_loaded (cpuid u : ℕ) : (loaded cpuid u).krunqueue.Holds u .active :=
  (Represents.initRunqueue.add List.not_mem_nil).mem_iff.mpr (List.mem_singleton_self u)

/-- Two kthreads, at the first two slots. -/
def pair (ctx ctx' : KthreadContext) : KthreadCpuMap := fun i =>
  if i = 0 then some ctx else if i = 1 then some ctx' else none

/-- The uthread 7 is in the active runqueue, so the result is not `NULL`. -/
theorem null_without_work_pair :
    ¬ Vacant (pair (loaded 0 7) (unloaded 1)) 0 .active ∧
      ∀ kthreadCpuMap', schedFindBestUthread ⟨true, true, false⟩ plainUthreads
          (pair (loaded 0 7) (unloaded 1)) 0 = some (none, kthreadCpuMap') →
        Vacant (pair (loaded 0 7) (unloaded 1)) 0 .active ∧
          Vacant (pair (loaded 0 7) (unloaded 1)) 0 .expires := by
  have hheld : ¬ Vacant (pair (loaded 0 7) (unloaded 1)) 0 .active :=
    fun hvacant => hvacant 7 ⟨_, rfl, holds_loaded 0 7⟩
  exact ⟨hheld, (null_without_work_iff ⟨true, true, false⟩ plainUthreads
    (pair (loaded 0 7) (unloaded 1)) 0 (loaded 0 7) rfl rfl (wellFormed_loaded 0 7)).mpr
      fun hvacant => absurd hvacant hheld⟩

/-- The uthread 7 is in the expires runqueue, and the result is `NULL`. -/
theorem null_with_work_in_expires :
    (loaded 0 7).exchanged.krunqueue.WellFormed plainUthreads ∧
      ∃ kthreadCpuMap', schedFindBestUthread ⟨true, true, false⟩ plainUthreads
          (pair (loaded 0 7).exchanged (unloaded 1)) 0 = some (none, kthreadCpuMap') ∧
        At (pair (loaded 0 7).exchanged (unloaded 1)) 7 ⟨0, .expires⟩ := by
  obtain ⟨hactive, hexpires, hzombies⟩ := wellFormed_loaded 0 7
  have hnull : schedFindBestUthread ⟨true, true, false⟩ plainUthreads
      (pair (loaded 0 7).exchanged (unloaded 1)) 0 = some (none, _) :=
    schedFindBestUthread_exchange rfl Represents.initRunqueue rfl
  exact ⟨⟨hexpires, hactive, hzombies⟩, _, hnull, _, rfl, holds_loaded 0 7⟩

/-! ### The steal loop -/

/-- The loop visits exactly the slots below the kthread's own number. -/
theorem mem_stealSlots_iff {i c : Fin gtMaxCores} : i ∈ stealSlots c ↔ i < c := by
  revert i c
  decide

/-- Where all slots are registered, the loop finds a victim exactly if there is a stealable kthread
among them. -/
theorem stealVictim_eq_none_iff {slots : List (Fin gtMaxCores)}
    (hwf : WellFormed uthreads kthreadCpuMap) (h : ∀ i ∈ slots, (kthreadCpuMap i).isSome) :
    stealVictim kthreadCpuMap slots = some none ↔ ∀ i ∈ slots, ¬ Stealable kthreadCpuMap i := by
  induction slots with
  | nil => simp [stealVictim]
  | cons i slots ih =>
    have htail := ih fun j hj => h j (List.mem_cons_of_mem i hj)
    obtain ⟨ctx, hctx⟩ := Option.isSome_iff_exists.mp (h i List.mem_cons_self)
    obtain ⟨members, hmembers⟩ := (hwf i ctx hctx).active
    -- the loop looks at the mask, and the mask at whether there is a uthread
    have hmask : ctx.krunqueue.activeRunq.uthreadMask ≠ 0 ↔ ∃ u, ctx.krunqueue.Holds u .active := by
      refine (not_congr hmembers.uthreadMask_eq_zero_iff).trans ?_
      rw [List.eq_nil_iff_forall_not_mem, not_forall_not]
      exact exists_congr fun u => hmembers.mem_iff.symm
    have hhead : Stealable kthreadCpuMap i ↔
        ctx.kthreadDone = false ∧ ctx.krunqueue.activeRunq.uthreadMask ≠ 0 := by
      rw [hmask]
      constructor
      · rintro ⟨ctx', hctx', hsteal⟩
        exact Option.some.inj (hctx.symm.trans hctx') ▸ hsteal
      · exact fun hsteal => ⟨ctx, hctx, hsteal⟩
    rw [List.forall_mem_cons, stealVictim_cons, hctx, Option.bind_some, hhead, ← htail]
    -- the loop passes over kthreads that have quit, and over empty ones
    split
    · next hdone => simp [hdone]
    · next hdone =>
      split
      · next hmask => exact iff_of_false (by simp) fun h => h.1 ⟨Bool.eq_false_iff.mpr hdone, hmask⟩
      · next hmask => exact (and_iff_right fun hsteal => hmask hsteal.2).symm

/-- **When an idle kthread steals.** With load balancing and credit mode on, kthreads registered at
the slots of their cpuids, and well-formed runqueues: a kthread with an empty active runqueue gets a
uthread of another one exactly if the kernel threads are ready and there is a stealable kthread
with a *smaller* number. -/
theorem idle_steals_iff (flags : Flags) (uthreads : ℕ → Uthread) (kthreadCpuMap : KthreadCpuMap)
    (n : ℕ) (c : Fin gtMaxCores) (hcredit : flags.isCreditScheduler = true)
    (hbalancing : flags.isLoadBalancing = true) (hregistered : Registered n kthreadCpuMap)
    (hwf : WellFormed uthreads kthreadCpuMap) (hc : (c : ℕ) < n)
    (hidle : Vacant kthreadCpuMap c .active) :
    Steals flags uthreads kthreadCpuMap c ↔
      flags.isKernelThreadReady = true ∧ ∃ i < c, Stealable kthreadCpuMap i := by
  obtain ⟨ctx, hctx⟩ := Option.isSome_iff_exists.mp ((hregistered.isSome_iff c).mpr hc)
  obtain ⟨actives, hactives⟩ := (hwf c ctx hctx).active
  obtain rfl := (vacant_active_iff hctx hactives).mp hidle
  have hcpuid := hregistered.cpuid_eq c ctx hctx
  have hslots : ∀ i ∈ stealSlots c, (kthreadCpuMap i).isSome := fun i hi =>
    (hregistered.isSome_iff i).mpr ((Fin.lt_def.mp (mem_stealSlots_iff.mp hi)).trans hc)
  have hfind : findVictim flags kthreadCpuMap ctx.cpuid = some none ↔
      ¬ (flags.isKernelThreadReady = true ∧ ∃ i < c, Stealable kthreadCpuMap i) := by
    rw [findVictim, Flags.steals, hcredit, hbalancing, hcpuid, Bool.and_true, Bool.and_true]
    split
    · next hready =>
      rw [stealVictim_eq_none_iff hwf hslots, hready]
      simp [mem_stealSlots_iff]
    · next hready => simp [hready]
  have hsome : (findVictim flags kthreadCpuMap ctx.cpuid).isSome :=
    findVictim_isSome fun _ i hi => (hregistered.isSome_iff i).mpr ((hcpuid ▸ hi).trans hc)
  obtain ⟨victim, hvictim⟩ := Option.isSome_iff_exists.mp hsome
  rw [← not_iff_not, ← hfind, hvictim]
  cases victim with
  | none =>
    refine iff_of_true ?_ rfl
    rintro ⟨u, i, kthreadCpuMap', hsched, -⟩
    have hnull := schedFindBestUthread_exchange hctx hactives hvictim
    exact absurd (hnull.symm.trans hsched) (by simp)
  | some victim =>
    obtain ⟨i, other⟩ := victim
    refine iff_of_false (not_not_intro ?_) (by simp)
    obtain ⟨u, otherRunq, runq, others, hsched, hi, hother, hothers, hu, hleft, -⟩ :=
      schedFindBestUthread_stolen hwf hctx hactives hvictim
    refine ⟨u, i, _, hsched, hi, ⟨other, hother, hothers.mem_iff.mpr hu⟩, ?_⟩
    -- what is left of the victim's runqueue does not have the uthread
    rw [at_update, if_neg hi, at_update, if_pos rfl]
    intro hholds
    exact hothers.nodup.not_mem_erase (hleft.mem_iff.mp hholds)

theorem registered_pair {ctx ctx' : KthreadContext} (h : ctx.cpuid = 0) (h' : ctx'.cpuid = 1) :
    Registered 2 (pair ctx ctx') := by
  constructor
  · intro i
    rw [pair]
    split_ifs with hi hi'
    · exact iff_of_true rfl (hi ▸ by decide)
    · exact iff_of_true rfl (hi' ▸ by decide)
    -- no other slot is taken
    · have hzero : (i : ℕ) ≠ 0 := fun heq => hi (Fin.ext heq)
      have hone : (i : ℕ) ≠ 1 := fun heq => hi' (Fin.ext heq)
      exact iff_of_false (by simp) (by omega)
  · intro i ctx₀ hctx
    rw [pair] at hctx
    split_ifs at hctx with hi hi'
    · obtain rfl := Option.some.inj hctx
      rw [h, hi]
      rfl
    · obtain rfl := Option.some.inj hctx
      rw [h', hi']
      rfl

theorem wellFormed_pair {ctx ctx' : KthreadContext} (h : ctx.krunqueue.WellFormed uthreads)
    (h' : ctx'.krunqueue.WellFormed uthreads) : WellFormed uthreads (pair ctx ctx') := by
  intro i ctx₀ hctx
  rw [pair] at hctx
  split_ifs at hctx
  · exact Option.some.inj hctx ▸ h
  · exact Option.some.inj hctx ▸ h'

theorem vacant_unloaded {cpuid : ℕ} (hctx : kthreadCpuMap k = some (unloaded cpuid)) :
    Vacant kthreadCpuMap k .active := by
  have hempty : Represents plainUthreads (unloaded cpuid).krunqueue.activeRunq [] :=
    Represents.initRunqueue
  exact (vacant_active_iff hctx hempty).mpr rfl

/-- The idle kthread is at slot 1, and the one with work at slot 0. -/
theorem idle_steals_pair :
    Steals ⟨true, true, true⟩ plainUthreads (pair (loaded 0 7) (unloaded 1)) 1 :=
  (idle_steals_iff ⟨true, true, true⟩ plainUthreads (pair (loaded 0 7) (unloaded 1)) 2 1 rfl rfl
    (registered_pair rfl rfl) (wellFormed_pair (wellFormed_loaded 0 7) (wellFormed_unloaded 1))
    (by decide) (vacant_unloaded rfl)).mpr
      ⟨rfl, 0, by decide, _, rfl, rfl, 7, holds_loaded 0 7⟩

/-- The idle kthread is at slot 0, and the one with work at slot 1: nothing is stolen. -/
theorem first_kthread_does_not_steal :
    Registered 2 (pair (unloaded 0) (loaded 1 7)) ∧
      WellFormed plainUthreads (pair (unloaded 0) (loaded 1 7)) ∧
      Vacant (pair (unloaded 0) (loaded 1 7)) 0 .active ∧
      Stealable (pair (unloaded 0) (loaded 1 7)) 1 ∧
      (∃ kthreadCpuMap', schedFindBestUthread ⟨true, true, true⟩ plainUthreads
        (pair (unloaded 0) (loaded 1 7)) 0 = some (none, kthreadCpuMap')) ∧
      ¬ Steals ⟨true, true, true⟩ plainUthreads (pair (unloaded 0) (loaded 1 7)) 0 := by
  have hnull : schedFindBestUthread ⟨true, true, true⟩ plainUthreads
      (pair (unloaded 0) (loaded 1 7)) 0 = some (none, _) :=
    schedFindBestUthread_exchange rfl Represents.initRunqueue rfl
  refine ⟨registered_pair rfl rfl, wellFormed_pair (wellFormed_unloaded 0) (wellFormed_loaded 1 7),
    vacant_unloaded rfl, ⟨_, rfl, rfl, 7, holds_loaded 1 7⟩, ⟨_, hnull⟩, ?_⟩
  rintro ⟨u, i, kthreadCpuMap', hsched, -⟩
  exact absurd (hnull.symm.trans hsched) (by simp)

end Idle

end GTThreads

end OSLab
