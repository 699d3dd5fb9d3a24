import Mathlib.Data.Finset.Card
import Mathlib.Data.Finset.Range
import AdvancedOSLab.GTThreads.Schedule

/-!
# No uthread is lost or duplicated

Every path through `uthread_schedule` moves uthreads between structures: the current uthread goes
to a runqueue or to the zombies, the next one comes out of a runqueue, possibly one of another
kthread, and the two runqueues may change their roles. The result of this module is that whatever
the order of creations and scheduling steps, on whatever kthreads and in whatever mode, a uthread
that was created is always in exactly one `Place`, and the global counter of live uthreads is the
number of those that are not on a list of zombies.

## The argument

The places are looked at through one relation, `At kthreadCpuMap u place`. All paths but one move a
single uthread: afterwards that uthread is at one given place and every other uthread is where it
was (`Moved`). Creation has the same form, with a uthread that was nowhere before. The exception is
the exchange of the two runqueues of a kthread, which renames two of the places (`exchange`).

* `Placed` is the part of the invariant that also holds between the two halves of a step: no
  uthread is at two places. The lemmas in its namespace say what the sections of the code move.
* `Conserved` is the invariant. `Conserved.moved` and `Conserved.exchange` preserve it.
* `Conserved.putAway` and `Conserved.found` are the two halves of `uthread_schedule`.
* `uthreads_conserved` is the result. It also says that no step of a run fails: the pointers that
  the scheduler follows are never null and its assertions hold.
-/

namespace OSLab

namespace GTThreads

open Runqueue

/-- The structures of a kthread that a uthread can be in. -/
inductive Slot where
  | active
  | expires
  | current
  | zombie
deriving DecidableEq, Repr

/-- A structure of the kthread at a slot of the cpu map. -/
structure Place where
  kthread : Fin gtMaxCores
  slot : Slot
deriving DecidableEq, Repr

/-- The uthread is in the given structure of a kthread. -/
def KthreadRunqueue.Holds (krunq : KthreadRunqueue) (u : ℕ) : Slot → Prop
  | .active => ∃ p g, u ∈ krunq.activeRunq.queue p g
  | .expires => ∃ p g, u ∈ krunq.expiresRunq.queue p g
  | .current => krunq.curUthread = some u
  | .zombie => u ∈ krunq.zombieUthreads

namespace Conservation

/-- The uthread is at the given place. -/
def At (kthreadCpuMap : KthreadCpuMap) (u : ℕ) (place : Place) : Prop :=
  ∃ ctx, kthreadCpuMap place.kthread = some ctx ∧ ctx.krunqueue.Holds u place.slot

/-- The uthreads on the lists of zombies. -/
def zombies (kthreadCpuMap : KthreadCpuMap) : List ℕ :=
  (List.finRange gtMaxCores).flatMap fun k =>
    (kthreadCpuMap k).elim [] fun ctx => ctx.krunqueue.zombieUthreads

/-- The uthreads that were created and are not on a list of zombies. -/
def live (s : State) : Finset ℕ :=
  {u ∈ Finset.range s.kthreadTotUthreads | u ∉ zombies s.kthreadCpuMap}

/-- The structures are well formed, no uthread is at two places, and one that was not created is
nowhere. -/
structure Placed (s : State) : Prop where
  wellFormed : WellFormed s.uthreads s.kthreadCpuMap
  eq_of_at : ∀ {u place place'}, At s.kthreadCpuMap u place → At s.kthreadCpuMap u place' →
    place' = place
  created : ∀ u place, At s.kthreadCpuMap u place → u < s.kthreadTotUthreads

/-- The invariant: the structures are well formed, every uthread that was created is at exactly one
place and no other is anywhere, and the counter of live uthreads is right. -/
structure Conserved (s : State) : Prop where
  wellFormed : WellFormed s.uthreads s.kthreadCpuMap
  existsUnique_place : ∀ u < s.kthreadTotUthreads, ∃! place, At s.kthreadCpuMap u place
  created : ∀ u place, At s.kthreadCpuMap u place → u < s.kthreadTotUthreads
  cur_eq : s.kthreadCurUthreads = (live s).card

variable {kthreadCpuMap kthreadCpuMap' : KthreadCpuMap} {k i : Fin gtMaxCores}
  {ctx ctx' : KthreadContext} {u v : ℕ} {place : Place} {s s' : State}

/-! ### Places -/

theorem mem_zombies : u ∈ zombies kthreadCpuMap ↔ ∃ k, At kthreadCpuMap u ⟨k, .zombie⟩ := by
  simp only [zombies, List.mem_flatMap, List.mem_finRange, true_and]
  refine exists_congr fun k => ?_
  cases h : kthreadCpuMap k with
  | none => simp [At, h]
  | some ctx => simp [At, h, KthreadRunqueue.Holds]

theorem mem_live : u ∈ live s ↔
    u < s.kthreadTotUthreads ∧ ∀ k, ¬ At s.kthreadCpuMap u ⟨k, .zombie⟩ := by
  simp only [live, Finset.mem_filter, Finset.mem_range, mem_zombies, not_exists]

theorem at_iff (hctx : kthreadCpuMap place.kthread = some ctx) :
    At kthreadCpuMap u place ↔ ctx.krunqueue.Holds u place.slot := by
  constructor
  · rintro ⟨ctx', hctx', hholds⟩
    obtain rfl := Option.some.inj (hctx.symm.trans hctx')
    exact hholds
  · exact fun hholds => ⟨ctx, hctx, hholds⟩

/-- Writing one entry of the cpu map changes the places of that kthread only. -/
theorem at_update : At (Function.update kthreadCpuMap k (some ctx)) u place ↔
    if place.kthread = k then ctx.krunqueue.Holds u place.slot else At kthreadCpuMap u place := by
  split
  · next hk => exact at_iff (by rw [hk, Function.update_self])
  · next hk => simp only [At, Function.update_of_ne hk]

/-- What is at a place is determined by the kthread runqueues. -/
theorem at_congr
    (h : ∀ k, (kthreadCpuMap' k).map KthreadContext.krunqueue =
      (kthreadCpuMap k).map KthreadContext.krunqueue) :
    At kthreadCpuMap' u place ↔ At kthreadCpuMap u place := by
  have hk := h place.kthread
  cases hctx : kthreadCpuMap place.kthread with
  | none =>
    rw [hctx, Option.map_none, Option.map_eq_none_iff] at hk
    simp [At, hctx, hk]
  | some ctx =>
    rw [hctx, Option.map_some, Option.map_eq_some_iff] at hk
    obtain ⟨ctx', hctx', heq⟩ := hk
    rw [at_iff hctx, at_iff hctx', heq]

/-! ### Moving one uthread -/

/-- Afterwards `u` is at `place` and nowhere else, and every other uthread is where it was. -/
def Moved (kthreadCpuMap kthreadCpuMap' : KthreadCpuMap) (u : ℕ) (place : Place) : Prop :=
  ∀ v place', At kthreadCpuMap' v place' ↔
    if v = u then place' = place else At kthreadCpuMap v place'

/-- Two moves of a uthread one after the other. -/
theorem Moved.trans {a b c : KthreadCpuMap} {place place' : Place} (h : Moved a b u place)
    (h' : Moved b c u place') : Moved a c u place' := by
  intro v p
  rw [h' v p]
  split
  · exact Iff.rfl
  · next hv => rw [h v p, if_neg hv]

/-- Rewriting the kthread that alone may hold `u`. -/
theorem moved_update {slot : Slot} (hctx : kthreadCpuMap k = some ctx)
    (honly : ∀ place, At kthreadCpuMap u place → place.kthread = k)
    (hholds : ∀ v slot', ctx'.krunqueue.Holds v slot' ↔
      if v = u then slot' = slot else ctx.krunqueue.Holds v slot') :
    Moved kthreadCpuMap (Function.update kthreadCpuMap k (some ctx')) u ⟨k, slot⟩ := by
  rintro v ⟨j, slot'⟩
  rw [at_update]
  by_cases hj : j = k
  · subst hj
    rw [if_pos rfl, hholds]
    by_cases hv : v = u
    · simp [hv]
    · rw [if_neg hv, if_neg hv, at_iff hctx]
  · rw [if_neg hj]
    by_cases hv : v = u
    · -- `u` is on no other kthread, neither before nor after
      subst hv
      rw [if_pos rfl]
      exact iff_of_false (fun hat => hj (honly _ hat)) fun heq => hj (congrArg Place.kthread heq)
    · rw [if_neg hv]

namespace Conserved

theorem eq_of_at {place' : Place} (h : Conserved s) (hat : At s.kthreadCpuMap u place)
    (hat' : At s.kthreadCpuMap u place') : place' = place :=
  (h.existsUnique_place u (h.created u place hat)).unique hat' hat

theorem placed (h : Conserved s) : Placed s := ⟨h.wellFormed, h.eq_of_at, h.created⟩

/-- The places after a move, or after a creation, when the new uthread was nowhere before. -/
theorem existsUnique_of_moved (h : Conserved s)
    (hmoved : Moved s.kthreadCpuMap kthreadCpuMap' u place)
    (hv : v = u ∨ v < s.kthreadTotUthreads) : ∃! place, At kthreadCpuMap' v place := by
  by_cases hvu : v = u
  · refine ⟨place, (hmoved v place).mpr (by rw [if_pos hvu]), fun place' hat => ?_⟩
    simpa [hvu] using (hmoved v place').mp hat
  · obtain ⟨place', hat, hunique⟩ := h.existsUnique_place v (hv.resolve_left hvu)
    refine ⟨place', (hmoved v place').mpr (by rwa [if_neg hvu]), fun place'' hat'' => ?_⟩
    exact hunique place'' (by simpa [hvu] using (hmoved v place'').mp hat'')

theorem created_of_moved (h : Conserved s)
    (hmoved : Moved s.kthreadCpuMap kthreadCpuMap' u place) {place' : Place}
    (hat : At kthreadCpuMap' v place') : v = u ∨ v < s.kthreadTotUthreads := by
  by_cases hvu : v = u
  · exact .inl hvu
  · exact .inr (h.created v place' (by simpa [hvu] using (hmoved v place').mp hat))

/-- A uthread that is not a zombie is moved. If it goes to the zombies, the counter goes down. -/
theorem moved {source : Place} (h : Conserved s) (hat : At s.kthreadCpuMap u source)
    (hsource : source.slot ≠ .zombie) (hmoved : Moved s.kthreadCpuMap s'.kthreadCpuMap u place)
    (hwf : WellFormed s'.uthreads s'.kthreadCpuMap)
    (htot : s'.kthreadTotUthreads = s.kthreadTotUthreads)
    (hcur : s'.kthreadCurUthreads =
      if place.slot = .zombie then s.kthreadCurUthreads - 1 else s.kthreadCurUthreads) :
    Conserved s' := by
  have hu : u < s.kthreadTotUthreads := h.created u source hat
  have hlive : u ∈ live s := mem_live.mpr
    ⟨hu, fun k hzombie => hsource (congrArg Place.slot (h.eq_of_at hzombie hat))⟩
  refine ⟨hwf, fun v hv => ?_, fun v place' hat' => ?_, ?_⟩
  · exact h.existsUnique_of_moved hmoved (.inr (htot ▸ hv))
  · rw [htot]
    exact (h.created_of_moved hmoved hat').elim (fun hvu => hvu ▸ hu) id
  · rw [hcur, h.cur_eq]
    split
    · next hzombie =>
      -- `u` is live no more; the others are what they were
      have herase : live s' = (live s).erase u := by
        ext v
        rw [Finset.mem_erase, mem_live, mem_live, htot]
        by_cases hvu : v = u
        · subst hvu
          simp only [ne_eq, not_true_eq_false, false_and, iff_false, not_and, not_forall, not_not]
          exact fun _ => ⟨place.kthread, (hmoved v _).mpr (by rw [if_pos rfl, ← hzombie])⟩
        · simp [hmoved v, hvu]
      rw [herase, Finset.card_erase_of_mem hlive]
    · next hzombie =>
      have hsame : live s' = live s := by
        ext v
        by_cases hvu : v = u
        · subst hvu
          refine iff_of_true (mem_live.mpr ⟨htot ▸ hu, fun k hat' => hzombie ?_⟩) hlive
          have heq := (hmoved v _).mp hat'
          rw [if_pos rfl] at heq
          rw [← heq]
        · simp [mem_live, htot, hmoved v, hvu]
      rw [hsame]

end Conserved

/-! ### The records of the uthreads -/

/-- The two tables agree on priorities and groups. -/
def SameKeys (uthreads' uthreads : ℕ → Uthread) : Prop :=
  ∀ u, (uthreads' u).uthreadPriority = (uthreads u).uthreadPriority ∧
    (uthreads' u).uthreadGid = (uthreads u).uthreadGid

variable {uthreads uthreads' : ℕ → Uthread} {uObj : Uthread} {krunq krunq' : KthreadRunqueue}

theorem sameKeys_update (hprio : uObj.uthreadPriority = (uthreads u).uthreadPriority)
    (hgid : uObj.uthreadGid = (uthreads u).uthreadGid) :
    SameKeys (Function.update uthreads u uObj) uthreads := by
  intro v
  rw [Function.update_apply]
  split
  · next hv => exact ⟨hv ▸ hprio, hv ▸ hgid⟩
  · exact ⟨rfl, rfl⟩

theorem chargeCredits_keys (flags : Flags) (stop : ℤ) (uObj : Uthread) :
    (chargeCredits flags stop uObj).uthreadPriority = uObj.uthreadPriority ∧
      (chargeCredits flags stop uObj).uthreadGid = uObj.uthreadGid := by
  unfold chargeCredits
  split <;> exact ⟨rfl, rfl⟩

theorem requeue_keys (flags : Flags) (uObj : Uthread) :
    (requeue flags uObj).2.uthreadPriority = uObj.uthreadPriority ∧
      (requeue flags uObj).2.uthreadGid = uObj.uthreadGid := by
  simp only [requeue]
  split
  · exact ⟨rfl, rfl⟩
  · split
    · split <;> exact ⟨rfl, rfl⟩
    · exact ⟨rfl, rfl⟩

theorem wellFormed_congr (h : krunq.WellFormed uthreads) (hkeys : SameKeys uthreads' uthreads) :
    krunq.WellFormed uthreads' := by
  obtain ⟨⟨actives, hactive⟩, ⟨expired, hexpires⟩, hzombies⟩ := h
  exact ⟨⟨actives, hactive.congr (fun u _ => (hkeys u).1) fun u _ => (hkeys u).2⟩,
    ⟨expired, hexpires.congr (fun u _ => (hkeys u).1) fun u _ => (hkeys u).2⟩, hzombies⟩

theorem wellFormed_update (h : WellFormed uthreads kthreadCpuMap)
    (hctx : ctx.krunqueue.WellFormed uthreads) :
    WellFormed uthreads (Function.update kthreadCpuMap k (some ctx)) := by
  intro j ctx' hctx'
  rw [Function.update_apply] at hctx'
  split at hctx'
  · obtain rfl := Option.some.inj hctx'
    exact hctx
  · exact h j ctx' hctx'

/-- Writing fields of uthreads other than priority and group keeps the invariant. -/
theorem Placed.of_uthreads (h : Placed s) (hkeys : SameKeys uthreads' s.uthreads) :
    Placed { s with uthreads := uthreads' } :=
  ⟨fun k ctx hctx => wellFormed_congr (h.wellFormed k ctx hctx) hkeys, h.eq_of_at, h.created⟩

theorem Conserved.of_uthreads (h : Conserved s) (hkeys : SameKeys uthreads' s.uthreads) :
    Conserved { s with uthreads := uthreads' } :=
  ⟨(h.placed.of_uthreads hkeys).wellFormed, h.existsUnique_place, h.created, h.cur_eq⟩

/-! ### Putting the current uthread away -/

/-- A uthread that is taken out of one structure of a kthread and put into another one. -/
theorem holds_of_move {source target : Slot}
    (honly : ∀ slot, krunq.Holds u slot → slot = source) (hne : source ≠ target)
    (hsource : ∀ v, krunq'.Holds v source ↔ v ≠ u ∧ krunq.Holds v source)
    (htarget : ∀ v, krunq'.Holds v target ↔ v = u ∨ krunq.Holds v target)
    (hother : ∀ slot, slot ≠ source → slot ≠ target →
      ∀ v, krunq'.Holds v slot ↔ krunq.Holds v slot) (v : ℕ) (slot : Slot) :
    krunq'.Holds v slot ↔ if v = u then slot = target else krunq.Holds v slot := by
  by_cases htgt : slot = target
  · subst htgt
    rw [htarget]
    by_cases hv : v = u <;> simp [hv]
  by_cases hsrc : slot = source
  · subst hsrc
    rw [hsource]
    by_cases hv : v = u <;> simp [hv, hne]
  -- a structure that is neither the source nor the target does not hold `u`
  rw [hother slot hsrc htgt]
  by_cases hv : v = u
  · subst hv
    rw [if_pos rfl]
    exact iff_of_false (fun hholds => hsrc (honly slot hholds)) htgt
  · rw [if_neg hv]

/-- The structure of the kthread that a runqueue side is. -/
def slotOf : Side → Slot
  | .active => .active
  | .expires => .expires

/-- With the current uthread cleared, nothing is current. -/
theorem holds_current_cleared (hcur : krunq.curUthread = some u)
    (hcleared : krunq'.curUthread = none) (v : ℕ) :
    krunq'.Holds v .current ↔ v ≠ u ∧ krunq.Holds v .current := by
  simp only [KthreadRunqueue.Holds, hcur, hcleared, Option.some.injEq]
  exact iff_of_false (by simp) fun h => h.1 h.2.symm

/-- The current uthread is put into one of the runqueues. -/
theorem holds_insert (h : krunq.WellFormed uthreads) (hcur : krunq.curUthread = some u)
    (honly : ∀ slot, krunq.Holds u slot → slot = .current) (side : Side) :
    (KthreadRunqueue.insert uthreads { krunq with curUthread := none } side u).WellFormed
        uthreads ∧
      ∀ v slot, (KthreadRunqueue.insert uthreads { krunq with curUthread := none } side u).Holds
        v slot ↔ if v = u then slot = slotOf side else krunq.Holds v slot := by
  obtain ⟨⟨actives, hactive⟩, ⟨expired, hexpires⟩, hzombies⟩ := h
  cases side with
  | active =>
    -- the current uthread is in no runqueue, so it may be inserted
    have hu : u ∉ actives := fun hmem =>
      absurd (honly .active (hactive.mem_iff.mpr hmem)) (by decide)
    have hadd := hactive.add hu
    refine ⟨⟨⟨_, hadd⟩, ⟨_, hexpires⟩, hzombies⟩, ?_⟩
    refine holds_of_move honly (by decide) (holds_current_cleared hcur rfl) (fun v => ?_) ?_
    · refine hadd.mem_iff.trans ?_
      rw [List.mem_append, List.mem_singleton, or_comm]
      exact or_congr_right hactive.mem_iff.symm
    · intro slot hsource htarget v
      cases slot <;> first | contradiction | exact Iff.rfl
  | expires =>
    have hu : u ∉ expired := fun hmem =>
      absurd (honly .expires (hexpires.mem_iff.mpr hmem)) (by decide)
    have hadd := hexpires.add hu
    refine ⟨⟨⟨_, hactive⟩, ⟨_, hadd⟩, hzombies⟩, ?_⟩
    refine holds_of_move honly (by decide) (holds_current_cleared hcur rfl) (fun v => ?_) ?_
    · refine hadd.mem_iff.trans ?_
      rw [List.mem_append, List.mem_singleton, or_comm]
      exact or_congr_right hexpires.mem_iff.symm
    · intro slot hsource htarget v
      cases slot <;> first | contradiction | exact Iff.rfl

/-- The current uthread is put on the list of zombies. -/
theorem holds_zombie (h : krunq.WellFormed uthreads) (hcur : krunq.curUthread = some u)
    (honly : ∀ slot, krunq.Holds u slot → slot = .current)
    (hkrunq' : krunq' = { krunq with
      curUthread := none, zombieUthreads := krunq.zombieUthreads ++ [u] }) :
    krunq'.WellFormed uthreads ∧
      ∀ v slot, krunq'.Holds v slot ↔ if v = u then slot = .zombie else krunq.Holds v slot := by
  subst hkrunq'
  have hu : u ∉ krunq.zombieUthreads := fun hmem => absurd (honly .zombie hmem) (by decide)
  refine ⟨⟨h.active, h.expires, ?_⟩, ?_⟩
  · exact List.nodup_append.mpr
      ⟨h.zombies, List.nodup_singleton u, fun a ha b hb hab => hu (by simp_all)⟩
  refine holds_of_move honly (by decide) (holds_current_cleared hcur rfl) (fun v => ?_) ?_
  · simp only [KthreadRunqueue.Holds, List.mem_append, List.mem_singleton]
    exact or_comm
  · intro slot hsource htarget v
    cases slot <;> first | contradiction | exact Iff.rfl

/-- A kthread holds a uthread in at most one of its structures. -/
theorem Placed.only_slot {source : Slot} (h : Placed s) (hctx : s.kthreadCpuMap k = some ctx)
    (hsource : ctx.krunqueue.Holds u source) (slot : Slot)
    (hholds : ctx.krunqueue.Holds u slot) : slot = source := by
  have hat : At s.kthreadCpuMap u ⟨k, source⟩ := ⟨ctx, hctx, hsource⟩
  have hat' : At s.kthreadCpuMap u ⟨k, slot⟩ := ⟨ctx, hctx, hholds⟩
  exact congrArg Place.slot (h.eq_of_at hat hat')

/-- Putting the current uthread away moves it to a runqueue, or to the zombies if it has ended. -/
theorem Placed.retireCurrent (h : Placed s) (hctx : s.kthreadCpuMap k = some ctx)
    (hcur : ctx.krunqueue.curUthread = some u) (flags : Flags) (stop : ℤ) :
    ∃ slot, slot ≠ .current ∧
      (slot = .zombie ↔ (chargeCredits flags stop (s.uthreads u)).ended = true) ∧
      WellFormed (retireCurrent flags k ctx u stop s).uthreads
        (retireCurrent flags k ctx u stop s).kthreadCpuMap ∧
      Moved s.kthreadCpuMap (retireCurrent flags k ctx u stop s).kthreadCpuMap u ⟨k, slot⟩ := by
  have hat : At s.kthreadCpuMap u ⟨k, .current⟩ := ⟨ctx, hctx, hcur⟩
  have honly : ∀ slot, ctx.krunqueue.Holds u slot → slot = .current := h.only_slot hctx hcur
  have hkthread : ∀ place, At s.kthreadCpuMap u place → place.kthread = k := fun place hat' =>
    congrArg Place.kthread (h.eq_of_at hat hat')
  -- what is charged does not matter here, only that priority and group stay
  obtain ⟨hprio, hgid⟩ := chargeCredits_keys flags stop (s.uthreads u)
  simp only [GTThreads.retireCurrent]
  generalize chargeCredits flags stop (s.uthreads u) = uObj at hprio hgid ⊢
  split
  · -- the uthread has ended; only its times are written
    have hkeys : SameKeys (Function.update s.uthreads u
        (if flags.isCreditScheduler then
          { uObj with runTimeTotal := uObj.totalRunningTimeEnd - uObj.totalRunningTimeStart }
        else uObj)) s.uthreads := by
      refine sameKeys_update ?_ ?_ <;> split <;> assumption
    have hwf : WellFormed _ s.kthreadCpuMap := fun j ctx' hctx' =>
      wellFormed_congr (h.wellFormed j ctx' hctx') hkeys
    obtain ⟨hwf', hholds⟩ := holds_zombie (hwf k ctx hctx) hcur honly rfl
    exact ⟨.zombie, by decide, by simpa, wellFormed_update hwf hwf',
      moved_update hctx hkthread hholds⟩
  · next hended =>
    -- it is runnable, and goes to the side that `requeue` says
    have hkeys : SameKeys (Function.update s.uthreads u (requeue flags uObj).2) s.uthreads :=
      sameKeys_update ((requeue_keys flags uObj).1.trans hprio)
        ((requeue_keys flags uObj).2.trans hgid)
    have hwf : WellFormed _ s.kthreadCpuMap := fun j ctx' hctx' =>
      wellFormed_congr (h.wellFormed j ctx' hctx') hkeys
    obtain ⟨hwf', hholds⟩ := holds_insert (hwf k ctx hctx) hcur honly (requeue flags uObj).1
    refine ⟨slotOf (requeue flags uObj).1, ?_, ?_, wellFormed_update hwf hwf',
      moved_update hctx hkthread hholds⟩
    · cases (requeue flags uObj).1 <;> decide
    · refine iff_of_false ?_ hended
      cases (requeue flags uObj).1 <;> decide

theorem Conserved.retireCurrent (h : Conserved s) (hctx : s.kthreadCpuMap k = some ctx)
    (hcur : ctx.krunqueue.curUthread = some u) (flags : Flags) (stop : ℤ) :
    Conserved (retireCurrent flags k ctx u stop s) := by
  have hat : At s.kthreadCpuMap u ⟨k, .current⟩ := ⟨ctx, hctx, hcur⟩
  obtain ⟨slot, -, hzombie, hwf, hmoved⟩ := h.placed.retireCurrent hctx hcur flags stop
  refine h.moved hat (by simp) hmoved hwf ?_ ?_
  · simp only [GTThreads.retireCurrent]
    split <;> rfl
  · simp only [GTThreads.retireCurrent, hzombie]
    split <;> rfl

theorem Conserved.putAway (h : Conserved s) (hctx : s.kthreadCpuMap k = some ctx) (flags : Flags)
    (stop : ℤ) : Conserved (putAway flags k ctx stop s) := by
  rw [GTThreads.putAway]
  split
  · next hcur => exact h.retireCurrent hctx hcur flags stop
  · exact h

theorem insert_curUthread (side : Side) :
    (krunq.insert uthreads side u).curUthread = krunq.curUthread := by
  cases side <;> rfl

/-- Afterwards the kthread has no current uthread, and the other kthreads are what they were. -/
theorem putAway_kthreadCpuMap (hctx : s.kthreadCpuMap k = some ctx) (flags : Flags) (stop : ℤ) :
    ∃ ctx', (putAway flags k ctx stop s).kthreadCpuMap =
        Function.update s.kthreadCpuMap k (some ctx') ∧
      ctx'.krunqueue.curUthread = none ∧ ctx'.cpuid = ctx.cpuid ∧
      ctx'.kthreadDone = ctx.kthreadDone := by
  rw [putAway]
  split
  · simp only [retireCurrent]
    split
    · exact ⟨_, rfl, rfl, rfl, rfl⟩
    · exact ⟨_, rfl, insert_curUthread _, rfl, rfl⟩
  · next hcur => exact ⟨ctx, by rw [← hctx, Function.update_eq_self], hcur, rfl, rfl⟩

/-! ### Dispatching the next uthread -/

/-- A uthread of its own active runqueue becomes the current one of a kthread. -/
theorem holds_dispatch_own {members : List ℕ} {runq : Runqueue} (h : krunq.WellFormed uthreads)
    (hidle : krunq.curUthread = none) (hmembers : Represents uthreads krunq.activeRunq members)
    (hleft : Represents uthreads runq (members.erase u))
    (honly : ∀ slot, krunq.Holds u slot → slot = .active)
    (hkrunq' : krunq' = { krunq with activeRunq := runq, curUthread := some u }) :
    krunq'.WellFormed uthreads ∧
      ∀ v slot, krunq'.Holds v slot ↔ if v = u then slot = .current else krunq.Holds v slot := by
  subst hkrunq'
  refine ⟨⟨⟨_, hleft⟩, h.expires, h.zombies⟩, ?_⟩
  refine holds_of_move honly (by decide) (fun v => ?_) (fun v => ?_) ?_
  · refine hleft.mem_iff.trans (hmembers.nodup.mem_erase_iff.trans ?_)
    exact and_congr_right fun _ => hmembers.mem_iff.symm
  · simp only [KthreadRunqueue.Holds, hidle, Option.some.injEq, reduceCtorEq, or_false]
    exact eq_comm
  · intro slot hsource htarget v
    cases slot <;> first | contradiction | exact Iff.rfl

/-- A uthread that is taken out of an active runqueue is nowhere, and the others are where they
were. -/
theorem at_taken {runq : Runqueue} {members : List ℕ} {v : ℕ} (hctx : kthreadCpuMap i = some ctx)
    (hmembers : Represents uthreads ctx.krunqueue.activeRunq members)
    (hleft : Represents uthreads runq (members.erase u))
    (honly : ∀ place, At kthreadCpuMap u place → place = ⟨i, .active⟩) :
    At (Function.update kthreadCpuMap i (some (ctx.setActive runq))) v place ↔
      v ≠ u ∧ At kthreadCpuMap v place := by
  have herase : (∃ p g, v ∈ runq.queue p g) ↔ v ≠ u ∧ ctx.krunqueue.Holds v .active :=
    hleft.mem_iff.trans (hmembers.nodup.mem_erase_iff.trans
      (and_congr_right fun _ => hmembers.mem_iff.symm))
  -- the uthread was nowhere else, so in the other places nothing changes
  have hne : place ≠ ⟨i, .active⟩ → At kthreadCpuMap v place → v ≠ u := by
    rintro hplace hat rfl
    exact hplace (honly place hat)
  obtain ⟨j, slot⟩ := place
  rw [at_update]
  by_cases hj : j = i
  · subst hj
    rw [if_pos rfl, at_iff hctx]
    rw [at_iff hctx] at hne
    cases slot with
    | active => exact herase
    | expires => exact ⟨fun hv => ⟨hne (by simp) hv, hv⟩, fun hv => hv.2⟩
    | current => exact ⟨fun hv => ⟨hne (by simp) hv, hv⟩, fun hv => hv.2⟩
    | zombie => exact ⟨fun hv => ⟨hne (by simp) hv, hv⟩, fun hv => hv.2⟩
  · rw [if_neg hj]
    exact ⟨fun hv => ⟨hne (by simp [hj]) hv, hv⟩, fun hv => hv.2⟩

/-- A uthread taken out of the active runqueue of one kthread becomes the current one of another,
whose own active runqueue stays empty. -/
theorem moved_stolen {other : KthreadContext} {members : List ℕ} {otherRunq runq : Runqueue}
    (hctx : kthreadCpuMap k = some ctx) (hidle : ctx.krunqueue.curUthread = none)
    (hempty : Represents uthreads ctx.krunqueue.activeRunq [])
    (hi : i ≠ k) (hother : kthreadCpuMap i = some other)
    (hmembers : Represents uthreads other.krunqueue.activeRunq members)
    (hleft : Represents uthreads otherRunq (members.erase u))
    (hrunq : Represents uthreads runq [])
    (honly : ∀ place, At kthreadCpuMap u place → place = ⟨i, .active⟩)
    (hctx' : ctx'.krunqueue =
      { ctx.krunqueue with activeRunq := runq, curUthread := some u }) :
    Moved kthreadCpuMap
      (Function.update (Function.update kthreadCpuMap i (some (other.setActive otherRunq)))
        k (some ctx')) u ⟨k, .current⟩ := by
  rintro v ⟨j, slot⟩
  rw [at_update]
  by_cases hj : j = k
  · -- on the thief, only the current uthread changes
    subst hj
    rw [if_pos rfl, at_iff hctx, hctx']
    have hnot : ¬ ctx.krunqueue.Holds u slot := fun hholds =>
      hi (congrArg Place.kthread (honly ⟨j, slot⟩ ⟨ctx, hctx, hholds⟩)).symm
    have hsame : ctx.krunqueue.Holds v .active ↔ (∃ p g, v ∈ runq.queue p g) :=
      hempty.mem_iff.trans hrunq.mem_iff.symm
    by_cases hv : v = u
    · subst hv
      cases slot <;> simp_all [KthreadRunqueue.Holds]
    · cases slot <;> simp_all [KthreadRunqueue.Holds, eq_comm]
  · -- elsewhere it is gone
    rw [if_neg hj, at_taken hother hmembers hleft honly]
    by_cases hv : v = u
    · rw [if_pos hv]
      exact iff_of_false (fun hat => hat.1 hv) fun heq => hj (congrArg Place.kthread heq)
    · rw [if_neg hv]
      exact and_iff_right hv

/-- The places with the two runqueues of the kthread at `k` exchanged. -/
def exchange (k : Fin gtMaxCores) (place : Place) : Place :=
  if place.kthread = k then
    match place.slot with
    | .active => ⟨k, .expires⟩
    | .expires => ⟨k, .active⟩
    | slot => ⟨k, slot⟩
  else place

theorem exchange_exchange (k : Fin gtMaxCores) (place : Place) :
    exchange k (exchange k place) = place := by
  obtain ⟨j, slot⟩ := place
  by_cases hj : j = k
  · cases slot <;> simp [exchange, hj]
  · simp [exchange, hj]

theorem at_exchanged (hctx : kthreadCpuMap k = some ctx) :
    At (Function.update kthreadCpuMap k (some ctx.exchanged)) u place ↔
      At kthreadCpuMap u (exchange k place) := by
  obtain ⟨j, slot⟩ := place
  rw [at_update]
  by_cases hj : j = k
  · subst hj
    have hiff : ∀ slot', At kthreadCpuMap u ⟨j, slot'⟩ ↔ ctx.krunqueue.Holds u slot' :=
      fun _ => at_iff hctx
    cases slot <;> simp only [exchange, if_pos, hiff] <;> exact Iff.rfl
  · simp only [exchange, if_neg hj]

/-- Exchanging the runqueues of a kthread renames places. -/
theorem Placed.exchange (h : Placed s) (hctx : s.kthreadCpuMap k = some ctx) :
    Placed { s with
      kthreadCpuMap := Function.update s.kthreadCpuMap k (some ctx.exchanged) } := by
  have hwf := h.wellFormed k ctx hctx
  refine ⟨wellFormed_update h.wellFormed ⟨hwf.expires, hwf.active, hwf.zombies⟩,
    @fun u place₁ place₂ h₁ h₂ => ?_, fun u place hat => ?_⟩
  · have heq := h.eq_of_at ((at_exchanged hctx).mp h₁) ((at_exchanged hctx).mp h₂)
    rw [← exchange_exchange k place₂, heq, exchange_exchange]
  · exact h.created u _ ((at_exchanged hctx).mp hat)

/-- Renaming the places keeps the invariant, as long as the zombies keep theirs. -/
theorem Conserved.exchange (h : Conserved s) (hctx : s.kthreadCpuMap k = some ctx) :
    Conserved { s with
      kthreadCpuMap := Function.update s.kthreadCpuMap k (some ctx.exchanged) } := by
  have hat : ∀ {u place}, At _ u place ↔ At _ u _ := at_exchanged hctx
  have hplaced := h.placed.exchange hctx
  refine ⟨hplaced.wellFormed, ?_, hplaced.created, ?_⟩
  · -- the renaming of places is its own inverse
    intro u hu
    obtain ⟨place, hplace, hunique⟩ := h.existsUnique_place u hu
    refine ⟨Conservation.exchange k place, hat.mpr (by rwa [exchange_exchange]), ?_⟩
    intro place' hplace'
    rw [← hunique _ (hat.mp hplace'), exchange_exchange]
  · have hlive : live { s with
        kthreadCpuMap := Function.update s.kthreadCpuMap k (some ctx.exchanged) } = live s := by
      ext u
      rw [mem_live, mem_live]
      refine and_congr_right fun _ => forall_congr' fun j => not_congr (hat.trans ?_)
      by_cases hj : j = k <;> simp [Conservation.exchange, hj]
    rw [hlive]
    exact h.cur_eq

/-- The test at the end of an idle scheduling step writes a flag, and no kthread runqueue. -/
theorem quitTest_krunqueue (k j : Fin gtMaxCores) (s : State) :
    ((quitTest k s).kthreadCpuMap j).map KthreadContext.krunqueue =
      (s.kthreadCpuMap j).map KthreadContext.krunqueue := by
  rw [quitTest]
  split
  · dsimp only
    rw [Function.update_apply]
    split
    · next hj => rw [hj, Option.map_map]; rfl
    · rfl
  · rfl

theorem at_quitTest (k : Fin gtMaxCores) (s : State) :
    At (quitTest k s).kthreadCpuMap u place ↔ At s.kthreadCpuMap u place :=
  at_congr fun j => quitTest_krunqueue k j s

theorem quitTest_counters (k : Fin gtMaxCores) (s : State) :
    (quitTest k s).uthreads = s.uthreads ∧
      (quitTest k s).kthreadTotUthreads = s.kthreadTotUthreads ∧
      (quitTest k s).kthreadCurUthreads = s.kthreadCurUthreads := by
  rw [quitTest]
  split <;> exact ⟨rfl, rfl, rfl⟩

theorem wellFormed_quitTest (h : WellFormed s.uthreads s.kthreadCpuMap) (k : Fin gtMaxCores) :
    WellFormed (quitTest k s).uthreads (quitTest k s).kthreadCpuMap := by
  intro j ctx hctx
  obtain ⟨ctx', hctx', heq⟩ := Option.map_eq_some_iff.mp
    ((quitTest_krunqueue k j s).symm.trans (congrArg (Option.map KthreadContext.krunqueue) hctx))
  rw [(quitTest_counters k s).1, ← heq]
  exact h j ctx' hctx'

theorem Conserved.quitTest (h : Conserved s) (k : Fin gtMaxCores) : Conserved (quitTest k s) := by
  obtain ⟨-, htot, hcur⟩ := quitTest_counters k s
  refine ⟨wellFormed_quitTest h.wellFormed k, fun u hu => ?_, fun u place hplace => ?_, ?_⟩
  · rw [htot] at hu
    simpa only [at_quitTest] using h.existsUnique_place u hu
  · rw [htot]
    exact h.created u place ((at_quitTest k s).mp hplace)
  · refine hcur.trans (h.cur_eq.trans (congrArg Finset.card ?_))
    ext u
    simp only [mem_live, htot, at_quitTest]

/-- After a move, or after a creation, no uthread is at two places. -/
theorem Placed.of_moved (h : Placed s) (hwf : WellFormed s'.uthreads s'.kthreadCpuMap)
    (hmoved : Moved s.kthreadCpuMap s'.kthreadCpuMap u place) (hu : u < s'.kthreadTotUthreads)
    (htot : s.kthreadTotUthreads ≤ s'.kthreadTotUthreads) : Placed s' := by
  refine ⟨hwf, @fun v place₁ place₂ h₁ h₂ => ?_, fun v place' hat => ?_⟩
  · rw [hmoved] at h₁ h₂
    split at h₁
    · next hv =>
      rw [if_pos hv] at h₂
      rw [h₁, h₂]
    · next hv =>
      rw [if_neg hv] at h₂
      exact h.eq_of_at h₁ h₂
  · rw [hmoved] at hat
    split at hat
    · next hv => exact hv ▸ hu
    · exact (h.created v place' hat).trans_le htot

/-- Dispatching a uthread of the own active runqueue makes it the current one. -/
theorem Placed.dispatch {members : List ℕ} {runq : Runqueue} (h : Placed s)
    (hctx : s.kthreadCpuMap k = some ctx) (hidle : ctx.krunqueue.curUthread = none)
    (hmembers : Represents s.uthreads ctx.krunqueue.activeRunq members) (hu : u ∈ members)
    (hleft : Represents s.uthreads runq (members.erase u)) (start : ℤ) :
    WellFormed
        (dispatch k u start { s with
          kthreadCpuMap := Function.update s.kthreadCpuMap k (some (ctx.setActive runq)) }).uthreads
        (dispatch k u start { s with
          kthreadCpuMap :=
            Function.update s.kthreadCpuMap k (some (ctx.setActive runq)) }).kthreadCpuMap ∧
      Moved s.kthreadCpuMap
        (dispatch k u start { s with
          kthreadCpuMap :=
            Function.update s.kthreadCpuMap k (some (ctx.setActive runq)) }).kthreadCpuMap
        u ⟨k, .current⟩ := by
  have hat : At s.kthreadCpuMap u ⟨k, .active⟩ := ⟨ctx, hctx, hmembers.mem_iff.mpr hu⟩
  have hkeys : SameKeys (Function.update s.uthreads u
      { s.uthreads u with uthreadState := .running, startRunningTimeStep := start }) s.uthreads :=
    sameKeys_update rfl rfl
  obtain ⟨hwf', hholds⟩ := holds_dispatch_own (h.wellFormed k ctx hctx) hidle hmembers hleft
    (h.only_slot hctx (hmembers.mem_iff.mpr hu)) rfl
  simp only [GTThreads.dispatch, Function.update_self, Option.map_some, Function.update_idem]
  refine ⟨wellFormed_update (fun j ctx' hctx' => ?_) (wellFormed_congr hwf' hkeys),
    moved_update hctx ?_ hholds⟩
  · exact wellFormed_congr (h.wellFormed j ctx' hctx') hkeys
  · exact fun place hplace => congrArg Place.kthread (h.eq_of_at hat hplace)

/-- Dispatching the uthread that was found, or finding none. -/
theorem Conserved.found {uObj : Option ℕ} (h : Conserved s) (hctx : s.kthreadCpuMap k = some ctx)
    (hidle : ctx.krunqueue.curUthread = none) (start : ℤ)
    (hfound : Found s.uthreads s.kthreadCpuMap k uObj kthreadCpuMap') :
    Conserved (resume k uObj start { s with kthreadCpuMap := kthreadCpuMap' }) := by
  cases hfound with
  | nothing hctx' hempty =>
    -- the runqueues are exchanged, also when the kthread then quits
    obtain rfl := Option.some.inj (hctx.symm.trans hctx')
    exact (h.exchange hctx).quitTest k
  | @own ctx' members u runq hctx' hmembers hu hbest hleft =>
    obtain rfl := Option.some.inj (hctx.symm.trans hctx')
    have hat : At s.kthreadCpuMap u ⟨k, .active⟩ := ⟨ctx, hctx, hmembers.mem_iff.mpr hu⟩
    obtain ⟨hwf, hmoved⟩ := h.placed.dispatch hctx hidle hmembers hu hleft start
    exact h.moved hat (by simp) hmoved hwf rfl rfl
  | @stolen ctx' i other members u otherRunq runq hctx' hempty hi hother hmembers hu hleft hrunq =>
    obtain rfl := Option.some.inj (hctx.symm.trans hctx')
    have hat : At s.kthreadCpuMap u ⟨i, .active⟩ := ⟨other, hother, hmembers.mem_iff.mpr hu⟩
    have hkeys : SameKeys (Function.update s.uthreads u
        { s.uthreads u with uthreadState := .running, startRunningTimeStep := start }) s.uthreads :=
      sameKeys_update rfl rfl
    have hwf := h.wellFormed k ctx hctx
    have hwfother := h.wellFormed i other hother
    simp only [resume, dispatch, Function.update_self, Option.map_some, Function.update_idem]
    refine (h.of_uthreads hkeys).moved hat (by simp) (moved_stolen hctx hidle hempty hi hother
      hmembers hleft hrunq (fun place hplace => h.eq_of_at hat hplace) rfl) ?_ rfl rfl
    refine wellFormed_update (wellFormed_update (h.of_uthreads hkeys).wellFormed ?_) ?_
    · exact wellFormed_congr ⟨⟨_, hleft⟩, hwfother.expires, hwfother.zombies⟩ hkeys
    · exact wellFormed_congr ⟨⟨_, hrunq⟩, hwf.expires, hwf.zombies⟩ hkeys

/-! ### Creating a uthread -/

/-- The next thread id is nowhere yet. -/
theorem Placed.not_at_tot (h : Placed s) (place : Place) :
    ¬ At s.kthreadCpuMap s.kthreadTotUthreads place :=
  fun hat => absurd (h.created _ place hat) (lt_irrefl _)

/-- The record of the new uthread is not that of a member of any runqueue. -/
theorem Placed.wellFormed_new (h : Placed s) (uNew : Uthread) :
    WellFormed (Function.update s.uthreads s.kthreadTotUthreads uNew) s.kthreadCpuMap := by
  intro k ctx hctx
  -- the table changes at the new thread id only, which no structure holds
  have hold : ∀ u slot, ctx.krunqueue.Holds u slot →
      Function.update s.uthreads s.kthreadTotUthreads uNew u = s.uthreads u := by
    intro u slot hholds
    refine Function.update_of_ne (fun heq => ?_) _ _
    exact h.not_at_tot ⟨k, slot⟩ ⟨ctx, hctx, heq ▸ hholds⟩
  obtain ⟨⟨actives, hactive⟩, ⟨expired, hexpires⟩, hzombies⟩ := h.wellFormed k ctx hctx
  refine ⟨⟨actives, hactive.congr (fun u hu => ?_) fun u hu => ?_⟩,
    ⟨expired, hexpires.congr (fun u hu => ?_) fun u hu => ?_⟩, hzombies⟩
  · rw [hold u .active (hactive.mem_iff.mpr hu)]
  · rw [hold u .active (hactive.mem_iff.mpr hu)]
  · rw [hold u .expires (hexpires.mem_iff.mpr hu)]
  · rw [hold u .expires (hexpires.mem_iff.mpr hu)]

/-- Inserting a uthread that is nowhere puts it into the active runqueue of the kthread. -/
theorem moved_insert {runq : Runqueue} {actives : List ℕ}
    (hnew : ∀ place, ¬ At kthreadCpuMap u place) (hctx : kthreadCpuMap k = some ctx)
    (hactive : Represents uthreads ctx.krunqueue.activeRunq actives)
    (hrunq : Represents uthreads runq (actives ++ [u])) :
    Moved kthreadCpuMap (Function.update kthreadCpuMap k (some (ctx.setActive runq))) u
      ⟨k, .active⟩ := by
  refine moved_update hctx (fun place hat => absurd hat (hnew place)) fun v slot => ?_
  have hnot : ¬ ctx.krunqueue.Holds u slot := fun hholds => hnew ⟨k, slot⟩ ⟨ctx, hctx, hholds⟩
  have hholds : (∃ p g, v ∈ runq.queue p g) ↔ ctx.krunqueue.Holds v .active ∨ v = u := by
    rw [hrunq.mem_iff, List.mem_append, List.mem_singleton]
    exact or_congr_left hactive.mem_iff.symm
  by_cases hv : v = u
  · subst hv
    cases slot <;> simp_all [KthreadRunqueue.Holds, KthreadContext.setActive]
  · cases slot <;> simp_all [KthreadRunqueue.Holds, KthreadContext.setActive]

/-- The new uthread is live. -/
theorem live_of_new (htot : s'.kthreadTotUthreads = s.kthreadTotUthreads + 1)
    (hmoved : Moved s.kthreadCpuMap s'.kthreadCpuMap s.kthreadTotUthreads ⟨k, .active⟩) :
    live s' = insert s.kthreadTotUthreads (live s) := by
  ext v
  rw [Finset.mem_insert, mem_live, mem_live, htot, Nat.lt_succ_iff_lt_or_eq]
  by_cases hv : v = s.kthreadTotUthreads
  · simp [hv, hmoved s.kthreadTotUthreads]
  · simp [hv, hmoved v]

/-- A new uthread is in its initial state, in the active runqueue of some kthread. -/
theorem Placed.uthreadCreate {uGid : Fin maxUthreadGroups} {credits now : ℤ} (h : Placed s)
    (hs' : uthreadCreate uGid credits now s = some s') :
    ∃ target uNew, uNew.uthreadState = .init ∧
      s'.uthreads = Function.update s.uthreads s.kthreadTotUthreads uNew ∧
      s'.kthreadTotUthreads = s.kthreadTotUthreads + 1 ∧
      s'.kthreadCurUthreads = s.kthreadCurUthreads + 1 ∧
      WellFormed s'.uthreads s'.kthreadCpuMap ∧
      Moved s.kthreadCpuMap s'.kthreadCpuMap s.kthreadTotUthreads ⟨target, .active⟩ := by
  obtain ⟨target, -, hs'⟩ := Option.bind_eq_some_iff.mp hs'
  obtain ⟨ctx, hctx, hs'⟩ := Option.bind_eq_some_iff.mp hs'
  have hwf := h.wellFormed_new (newUthread s.kthreadTotUthreads uGid credits now ctx.cpuid)
  obtain ⟨⟨actives, hactive⟩, hexpires, hzombies⟩ := hwf target ctx hctx
  have hadd := hactive.add fun hu =>
    h.not_at_tot ⟨target, .active⟩ ⟨ctx, hctx, hactive.mem_iff.mpr hu⟩
  obtain rfl := Option.some.inj hs'
  exact ⟨target, _, rfl, rfl, rfl, rfl, wellFormed_update hwf ⟨⟨_, hadd⟩, hexpires, hzombies⟩,
    moved_insert h.not_at_tot hctx hactive hadd⟩

theorem Conserved.uthreadCreate {uGid : Fin maxUthreadGroups} {credits now : ℤ} (h : Conserved s)
    (hs' : uthreadCreate uGid credits now s = some s') : Conserved s' := by
  obtain ⟨target, uNew, -, -, htot, hcur, hwf, hmoved⟩ := h.placed.uthreadCreate hs'
  refine ⟨hwf, fun v hv => ?_, fun v place hat => ?_, ?_⟩
  · rw [htot] at hv
    exact h.existsUnique_of_moved hmoved (Nat.lt_succ_iff_lt_or_eq.mp hv).symm
  · rw [htot]
    exact Nat.lt_succ_iff_lt_or_eq.mpr (h.created_of_moved hmoved hat).symm
  · rw [live_of_new htot hmoved, Finset.card_insert_of_notMem, hcur, h.cur_eq]
    exact fun hmem => lt_irrefl _ (mem_live.mp hmem).1

/-! ### The registered kthreads stay -/

variable {flags : Flags}

/-- The same slots are registered, for kthreads of the same numbers. -/
def SameCpuids (kthreadCpuMap' kthreadCpuMap : KthreadCpuMap) : Prop :=
  ∀ k, (kthreadCpuMap' k).map KthreadContext.cpuid = (kthreadCpuMap k).map KthreadContext.cpuid

theorem sameCpuids_update (hctx : kthreadCpuMap k = some ctx) (hcpuid : ctx'.cpuid = ctx.cpuid) :
    SameCpuids (Function.update kthreadCpuMap k (some ctx')) kthreadCpuMap := by
  intro j
  rw [Function.update_apply]
  split
  · next hj => rw [hj, hctx, Option.map_some, Option.map_some, hcpuid]
  · rfl

theorem sameCpuids_setActive (hctx : kthreadCpuMap k = some ctx) (runq : Runqueue) :
    SameCpuids (Function.update kthreadCpuMap k (some (ctx.setActive runq))) kthreadCpuMap :=
  sameCpuids_update hctx rfl

theorem sameCpuids_update_map {f : KthreadContext → KthreadContext}
    (hf : ∀ ctx, (f ctx).cpuid = ctx.cpuid) :
    SameCpuids (Function.update kthreadCpuMap k ((kthreadCpuMap k).map f)) kthreadCpuMap := by
  intro j
  rw [Function.update_apply]
  split
  · next hj =>
    rw [hj, Option.map_map]
    exact congrFun (congrArg Option.map (funext hf)) _
  · rfl

/-- Whatever is in the runqueues, the scheduler only writes kthreads that are registered. -/
theorem sameCpuids_schedFindBestUthread {uObj : Option ℕ}
    (h : schedFindBestUthread flags uthreads kthreadCpuMap k = some (uObj, kthreadCpuMap')) :
    SameCpuids kthreadCpuMap' kthreadCpuMap := by
  obtain ⟨ctx, hctx, h⟩ := Option.bind_eq_some_iff.mp h
  dsimp only at h
  split at h
  · obtain ⟨⟨u, runq⟩, -, h⟩ := Option.bind_eq_some_iff.mp h
    obtain ⟨-, rfl⟩ := Prod.mk.inj (Option.some.inj h)
    exact sameCpuids_setActive hctx runq
  · next hmask =>
    split at h
    · exact absurd h (by simp)
    · obtain ⟨victim, hvictim, h⟩ := Option.bind_eq_some_iff.mp h
      cases victim with
      | some victim =>
        obtain ⟨i, other⟩ := victim
        obtain ⟨⟨u, otherRunq⟩, -, h⟩ := Option.bind_eq_some_iff.mp h
        obtain ⟨runq, -, h⟩ := Option.bind_eq_some_iff.mp h
        obtain ⟨-, rfl⟩ := Prod.mk.inj (Option.some.inj h)
        obtain ⟨hother, hothermask⟩ := findVictim_eq_some hvictim
        have hk : k ≠ i := by
          rintro rfl
          obtain rfl := Option.some.inj (hctx.symm.trans hother)
          exact hmask hothermask
        have hctx' : Function.update kthreadCpuMap i (some (other.setActive otherRunq)) k =
            some ctx := (Function.update_of_ne hk _ _).trans hctx
        -- the victim's entry is written first, then the thief's
        exact fun j =>
          (sameCpuids_setActive hctx' runq j).trans (sameCpuids_setActive hother otherRunq j)
      | none =>
        dsimp only at h
        split at h
        · split at h
          · exact absurd h (by simp)
          · obtain ⟨-, rfl⟩ := Prod.mk.inj (Option.some.inj h)
            exact sameCpuids_update hctx rfl
        · obtain ⟨⟨u, runq⟩, -, h⟩ := Option.bind_eq_some_iff.mp h
          obtain ⟨-, rfl⟩ := Prod.mk.inj (Option.some.inj h)
          exact sameCpuids_update hctx rfl

theorem sameCpuids_resume (uObj : Option ℕ) (start : ℤ) (s : State) :
    SameCpuids (resume k uObj start s).kthreadCpuMap s.kthreadCpuMap := by
  cases uObj with
  | some u => exact sameCpuids_update_map fun _ => rfl
  | none =>
    simp only [resume, quitTest]
    split
    · exact sameCpuids_update_map fun _ => rfl
    · exact fun _ => rfl

theorem sameCpuids_uthreadSchedule {clock : Clock}
    (h : uthreadSchedule flags k clock s = some s') :
    SameCpuids s'.kthreadCpuMap s.kthreadCpuMap := by
  obtain ⟨ctx, hctx, h⟩ := Option.bind_eq_some_iff.mp h
  obtain ⟨ctx', hmap, -, hcpuid, -⟩ := putAway_kthreadCpuMap hctx flags clock.stop
  obtain ⟨⟨uObj, kthreadCpuMap'⟩, hsched, h⟩ := Option.bind_eq_some_iff.mp h
  obtain rfl := Option.some.inj h
  rw [hmap] at hsched
  intro j
  calc ((resume k uObj clock.start _).kthreadCpuMap j).map KthreadContext.cpuid
      = (kthreadCpuMap' j).map KthreadContext.cpuid := sameCpuids_resume uObj clock.start _ j
    _ = (Function.update s.kthreadCpuMap k (some ctx') j).map KthreadContext.cpuid :=
      sameCpuids_schedFindBestUthread hsched j
    _ = (s.kthreadCpuMap j).map KthreadContext.cpuid := sameCpuids_update hctx hcpuid j

/-! ### A scheduling step -/

/-- A call of `uthread_schedule` keeps the invariant; it fails only where its steal loop does. -/
theorem Conserved.uthreadSchedule (h : Conserved s) (hctx : s.kthreadCpuMap k = some ctx)
    (flags : Flags) (clock : Clock) :
    (∃ s', uthreadSchedule flags k clock s = some s' ∧ Conserved s' ∧
        SameCpuids s'.kthreadCpuMap s.kthreadCpuMap) ∨
      (uthreadSchedule flags k clock s = none ∧
        ∃ kthreadCpuMap', SameCpuids kthreadCpuMap' s.kthreadCpuMap ∧
          findVictim flags kthreadCpuMap' ctx.cpuid = none) := by
  have h₁ := h.putAway hctx flags clock.stop
  obtain ⟨ctx₁, hmap, hidle, hcpuid, -⟩ := putAway_kthreadCpuMap hctx flags clock.stop
  generalize hs₁ : GTThreads.putAway flags k ctx clock.stop s = s₁ at h₁ hmap
  have hctx₁ : s₁.kthreadCpuMap k = some ctx₁ := by rw [hmap, Function.update_self]
  have hsame₁ : SameCpuids s₁.kthreadCpuMap s.kthreadCpuMap :=
    hmap ▸ sameCpuids_update hctx hcpuid
  -- the search finds a uthread, or nothing, or runs into an empty slot
  obtain ⟨uObj, kthreadCpuMap', hsched, hfound⟩ | ⟨hvictim, hsched⟩ :=
    schedFindBestUthread_spec flags h₁.wellFormed hctx₁
  · left
    have hs' : GTThreads.uthreadSchedule flags k clock s =
        some (resume k uObj clock.start { s₁ with kthreadCpuMap := kthreadCpuMap' }) := by
      simp [GTThreads.uthreadSchedule, hctx, hs₁, hsched]
    exact ⟨_, hs', h₁.found hctx₁ hidle clock.start hfound, sameCpuids_uthreadSchedule hs'⟩
  · right
    refine ⟨by simp [GTThreads.uthreadSchedule, hctx, hs₁, hsched], _, hsame₁, ?_⟩
    rwa [hcpuid] at hvictim

/-- A call of `uthread_schedule` that returns has put the current uthread away and then done one
of the things of `Found`. -/
theorem Conserved.found_of_uthreadSchedule {clock : Clock} (h : Conserved s)
    (hctx : s.kthreadCpuMap k = some ctx)
    (hs' : GTThreads.uthreadSchedule flags k clock s = some s') :
    ∃ s₁ uObj kthreadCpuMap', s₁ = GTThreads.putAway flags k ctx clock.stop s ∧ Conserved s₁ ∧
      Found s₁.uthreads s₁.kthreadCpuMap k uObj kthreadCpuMap' ∧
      s' = resume k uObj clock.start { s₁ with kthreadCpuMap := kthreadCpuMap' } := by
  have h₁ := h.putAway hctx flags clock.stop
  obtain ⟨ctx₁, hmap, -⟩ := putAway_kthreadCpuMap hctx flags clock.stop
  have hctx₁ : (GTThreads.putAway flags k ctx clock.stop s).kthreadCpuMap k = some ctx₁ := by
    rw [hmap, Function.update_self]
  obtain ⟨uObj, kthreadCpuMap', hsched, hfound⟩ | ⟨-, hsched⟩ :=
    schedFindBestUthread_spec flags h₁.wellFormed hctx₁
  · refine ⟨_, uObj, kthreadCpuMap', rfl, h₁, hfound, ?_⟩
    simpa [GTThreads.uthreadSchedule, hctx, hsched] using hs'.symm
  · simp [GTThreads.uthreadSchedule, hctx, hsched] at hs'

/-- Before it enters the scheduler, the current uthread writes fields of its own. -/
theorem beforeSchedule_spec {ending : Ending} {finish : ℤ}
    (hs' : beforeSchedule k ending finish s = some s') :
    ∃ uthreads', s' = { s with uthreads := uthreads' } ∧ SameKeys uthreads' s.uthreads ∧
      ∀ u, ¬ At s.kthreadCpuMap u ⟨k, .current⟩ → uthreads' u = s.uthreads u := by
  have hcurrent : ∀ {u}, (s.kthreadCpuMap k).bind (fun ctx => ctx.krunqueue.curUthread) = some u →
      At s.kthreadCpuMap u ⟨k, .current⟩ := Option.bind_eq_some_iff.mp
  cases ending with
  | preempted =>
    obtain rfl := Option.some.inj hs'
    exact ⟨s.uthreads, rfl, fun _ => ⟨rfl, rfl⟩, fun _ _ => rfl⟩
  -- `uthread_context_func` and `gt_yield` write into the current uthread
  | finished =>
    obtain ⟨u, hu, hs'⟩ := Option.bind_eq_some_iff.mp hs'
    obtain rfl := Option.some.inj hs'
    refine ⟨_, rfl, sameKeys_update rfl rfl, fun v hv => Function.update_of_ne ?_ _ _⟩
    exact fun heq => hv (heq ▸ hcurrent hu)
  | yielded =>
    obtain ⟨u, hu, hs'⟩ := Option.bind_eq_some_iff.mp hs'
    obtain rfl := Option.some.inj hs'
    refine ⟨_, rfl, sameKeys_update rfl rfl, fun v hv => Function.update_of_ne ?_ _ _⟩
    exact fun heq => hv (heq ▸ hcurrent hu)

theorem Conserved.beforeSchedule {ending : Ending} {finish : ℤ} (h : Conserved s)
    (hs' : beforeSchedule k ending finish s = some s') :
    Conserved s' ∧ s'.kthreadCpuMap = s.kthreadCpuMap := by
  obtain ⟨uthreads', rfl, hkeys, -⟩ := beforeSchedule_spec hs'
  exact ⟨h.of_uthreads hkeys, rfl⟩

/-! ### All runs -/

theorem conserved_initial (cpuids : Fin gtMaxCores → Option ℕ) : Conserved (initial cpuids) := by
  have hctx : ∀ {k ctx}, (initial cpuids).kthreadCpuMap k = some ctx →
      ctx.krunqueue = kthreadInitRunqueue := by
    intro k ctx hctx
    obtain ⟨cpuid, -, rfl⟩ := Option.map_eq_some_iff.mp hctx
    rfl
  have hnot : ∀ u place, ¬ At (initial cpuids).kthreadCpuMap u place := by
    rintro u ⟨k, slot⟩ ⟨ctx, hk, hholds⟩
    rw [hctx hk] at hholds
    cases slot <;> simp [KthreadRunqueue.Holds, kthreadInitRunqueue, initRunqueue, queue] at hholds
  refine ⟨fun k ctx hk => ?_, fun u hu => absurd hu (Nat.not_lt_zero u),
    fun u place hat => absurd hat (hnot u place), rfl⟩
  rw [hctx hk]
  exact ⟨⟨_, .initRunqueue⟩, ⟨_, .initRunqueue⟩, List.nodup_nil⟩

/-- The invariant of a run: conservation, and the kthreads that were registered at the start. -/
structure Sound (cpuids : Fin gtMaxCores → Option ℕ) (s : State) : Prop where
  conserved : Conserved s
  registered : ∀ k, (s.kthreadCpuMap k).map KthreadContext.cpuid = cpuids k

theorem sound_initial (cpuids : Fin gtMaxCores → Option ℕ) : Sound cpuids (initial cpuids) := by
  refine ⟨conserved_initial cpuids, fun k => ?_⟩
  show ((cpuids k).map _).map _ = cpuids k
  rw [Option.map_map]
  exact congrFun Option.map_id _

variable {cpuids : Fin gtMaxCores → Option ℕ}

theorem Sound.step (h : Sound cpuids s) {l : Label}
    (hstep : (gtthreads flags cpuids).step s l = some s') : Sound cpuids s' := by
  cases l with
  | create uGid credits now =>
    refine ⟨h.conserved.uthreadCreate hstep, fun k => ?_⟩
    obtain ⟨target, -, hs'⟩ := Option.bind_eq_some_iff.mp hstep
    obtain ⟨ctx, hctx, hs'⟩ := Option.bind_eq_some_iff.mp hs'
    obtain rfl := Option.some.inj hs'
    exact (sameCpuids_setActive hctx _ k).trans (h.registered k)
  | schedule k ending clock =>
    obtain ⟨s₁, hs₁, hs'⟩ := Option.bind_eq_some_iff.mp hstep
    obtain ⟨h₁, hmap⟩ := h.conserved.beforeSchedule hs₁
    obtain ⟨ctx, hctx, -⟩ := Option.bind_eq_some_iff.mp hs'
    obtain ⟨s₂, hs₂, h₂, hsame⟩ | ⟨hnone, -⟩ := h₁.uthreadSchedule hctx flags clock
    · -- the scheduler is a function, so the result is the one that is known to be sound
      obtain rfl := Option.some.inj (hs₂.symm.trans hs')
      exact ⟨h₂, fun j => (hsame j).trans (hmap ▸ h.registered j)⟩
    · exact absurd (hnone.symm.trans hs') (by simp)

theorem sound_of_reachable {G : State → Label → Prop}
    (hr : (gtthreads flags cpuids).Reachable G s) : Sound cpuids s :=
  hr.invariant (sound_initial cpuids) fun _ _ _ _ h _ hstep => h.step hstep

theorem Sound.isSome_of_registered (h : Sound cpuids s) (hk : (cpuids k).isSome) :
    (s.kthreadCpuMap k).isSome := by
  rw [← h.registered k, Option.isSome_map] at hk
  exact hk

/-- What a step needs of the program that uses the library. Some kthread is registered when a
uthread is created. The scheduler runs on a registered kthread; a uthread that finishes or yields
is the current one; and if kthreads steal, those below the number of this one are registered. -/
def Enabled (flags : Flags) (cpuids : Fin gtMaxCores → Option ℕ) (s : State) : Label → Prop
  | .create _ _ _ => ∃ k, (cpuids k).isSome
  | .schedule k ending _ => ∃ cpuid, cpuids k = some cpuid ∧
      (ending ≠ .preempted → ∃ u, At s.kthreadCpuMap u ⟨k, .current⟩) ∧
      (flags.steals → ∀ i : Fin gtMaxCores, i < cpuid → (cpuids i).isSome)

theorem beforeSchedule_isSome {ending : Ending} (finish : ℤ)
    (h : ending ≠ .preempted → ∃ u, At s.kthreadCpuMap u ⟨k, .current⟩) :
    (beforeSchedule k ending finish s).isSome := by
  cases ending with
  | preempted => rfl
  | finished =>
    obtain ⟨u, ctx, hctx, hcur⟩ := h (by decide)
    replace hcur : ctx.krunqueue.curUthread = some u := hcur
    simp [beforeSchedule, hctx, hcur]
  | yielded =>
    obtain ⟨u, ctx, hctx, hcur⟩ := h (by decide)
    replace hcur : ctx.krunqueue.curUthread = some u := hcur
    simp [beforeSchedule, hctx, hcur]

/-- No enabled step fails. -/
theorem Sound.step_isSome (h : Sound cpuids s) {l : Label} (hl : Enabled flags cpuids s l) :
    ((gtthreads flags cpuids).step s l).isSome := by
  cases l with
  | create uGid credits now =>
    obtain ⟨k, hk⟩ := hl
    obtain ⟨target, htarget⟩ := Option.isSome_iff_exists.mp
      (kschedFindTarget_isSome (h.isSome_of_registered hk) (s.lastUgroupKthread uGid))
    obtain ⟨ctx, hctx⟩ := Option.isSome_iff_exists.mp (isSome_of_kschedFindTarget htarget)
    simp [gtthreads, uthreadCreate, htarget, hctx]
  | schedule k ending clock =>
    obtain ⟨cpuid, hk, hcurrent, hslots⟩ := hl
    obtain ⟨s₁, hs₁⟩ := Option.isSome_iff_exists.mp (beforeSchedule_isSome clock.finish hcurrent)
    obtain ⟨h₁, hmap⟩ := h.conserved.beforeSchedule hs₁
    obtain ⟨ctx, hctx⟩ := Option.isSome_iff_exists.mp
      (h.isSome_of_registered (Option.isSome_iff_exists.mpr ⟨cpuid, hk⟩))
    have hcpuid : ctx.cpuid = cpuid := by
      have hreg := h.registered k
      rw [hctx, hk, Option.map_some] at hreg
      exact Option.some.inj hreg
    obtain ⟨s₂, hs₂, -⟩ | ⟨-, map', hsame, hvictim⟩ :=
      h₁.uthreadSchedule (hmap ▸ hctx) flags clock
    · simp [gtthreads, hs₁, hs₂]
    · -- the steal loop finds every slot that it visits registered
      have hfind : (findVictim flags map' ctx.cpuid).isSome := by
        refine findVictim_isSome fun hsteals i hi => ?_
        have hi' := hslots hsteals i (hcpuid ▸ hi)
        rwa [← h.registered i, ← hmap, ← hsame i, Option.isSome_map] at hi'
      simp [hvictim] at hfind

/-- In every state of a run, whatever the order of creations and scheduling steps, every uthread
that was created is at exactly one place, nothing else is anywhere, no uthread is linked twice, and
`kthread_cur_uthreads` is the number of uthreads that are not zombies. No step of a run fails. -/
theorem uthreads_conserved (flags : Flags) (cpuids : Fin gtMaxCores → Option ℕ)
    (hr : (gtthreads flags cpuids).Reachable System.anyStep s) :
    Conserved s ∧ ∀ l, Enabled flags cpuids s l → ((gtthreads flags cpuids).step s l).isSome := by
  have h : Sound cpuids s := sound_of_reachable hr
  exact ⟨h.conserved, fun l hl => h.step_isSome hl⟩

/-- Two kthreads, in credit mode with load balancing. -/
def pairCpuids (k : Fin gtMaxCores) : Option ℕ := if k < 2 then some k else none

/-- Four uthreads on two kthreads: two finish, one yields, and one is stolen and preempted. -/
theorem uthreads_conserved_pair :
    ∃ s, (gtthreads ⟨true, true, true⟩ pairCpuids).Reachable System.anyStep s ∧
      s.kthreadTotUthreads = 4 ∧ s.kthreadCurUthreads = 2 ∧ Conserved s := by
  have hrun : ((gtthreads ⟨true, true, true⟩ pairCpuids).guardedRun System.anyStep
      (gtthreads ⟨true, true, true⟩ pairCpuids).init
      [.create 0 100 0, .create 0 100 0, .create 0 100 0, .create 0 100 0,
        .schedule 1 .preempted ⟨0, 0, 5⟩, .schedule 1 .finished ⟨9, 9, 9⟩,
        -- the second kthread has run out of uthreads and steals one from the first
        .schedule 1 .finished ⟨19, 19, 19⟩, .schedule 0 .preempted ⟨0, 0, 20⟩,
        .schedule 0 .yielded ⟨0, 5000, 5000⟩, .schedule 1 .preempted ⟨0, 9000, 9000⟩]).any
      (fun s => decide (s.kthreadTotUthreads = 4 ∧ s.kthreadCurUthreads = 2 ∧
        (s.kthreadCpuMap 1).bind (fun ctx => ctx.krunqueue.curUthread) = some 1)) = true := by
    decide +kernel
  obtain ⟨s, hr, hs⟩ := System.Reachable.of_any hrun
  obtain ⟨htot, hcur, -⟩ : s.kthreadTotUthreads = 4 ∧ s.kthreadCurUthreads = 2 ∧
      (s.kthreadCpuMap 1).bind (fun ctx => ctx.krunqueue.curUthread) = some 1 :=
    of_decide_eq_true hs
  exact ⟨s, hr, htot, hcur, (uthreads_conserved _ _ hr).1⟩

end Conservation

end GTThreads

end OSLab
