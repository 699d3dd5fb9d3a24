import Mathlib.Algebra.Order.BigOperators.Group.Finset
import AdvancedOSLab.Framework.Response
import AdvancedOSLab.GTThreads.Credits

/-!
# Every uthread that waits is dispatched

The scheduler has no queue in which a uthread simply moves forward. In its runqueue a uthread of a
higher priority or a lower group goes first; in credit mode one that was preempted goes back to the
runqueue in which the others wait; the expires runqueue waits for an exchange, and with load
balancing a kthread that has run out of uthreads steals one instead of exchanging its runqueues.
This module shows that all of this puts a uthread off only for a bounded time: in every run, with
any number of kthreads and in both modes, a uthread that waits is dispatched before the scheduler of
its kthread has been called more often than a bound that is known when the waiting starts.

* `schedule_effect` says once what a scheduling step does, as places of uthreads and as credits: the
  current uthread is put away (`Retired`), and then a uthread is picked or the runqueues are
  exchanged (`Picked`).
* The steal loop of a kthread ends at its own number, so a uthread only goes to kthreads of higher
  numbers (`migrates_upwards`). This is why stealing cannot go on for ever, although a stolen
  uthread goes before those in the expires runqueue.
* `delay` bounds the calls that the uthread still has to wait for. The uthreads of the active
  runqueue, and the current one, count with the slices that they have left; those of the kthreads
  below, which may be stolen, with the slices that they may have then (`share`). A uthread in the
  expires runqueue also waits for an exchange and, after it, for all others.

`waiting_uthread_dispatched` is the result.
-/

namespace OSLab

namespace GTThreads

namespace Starvation

open Runqueue Conservation Credits

/-! ### Slices -/

/-- The slices that the uthread can get before it leaves the active runqueue. In priority mode it
leaves it after every slice. -/
def slicesLeft (flags : Flags) (uObj : Uthread) : ℕ :=
  if flags.isCreditScheduler then slices uObj.credits else 1

/-- The slices that the uthread can have left at any later time: its credits only go down, or are
set to the initial ones. -/
def share (flags : Flags) (uObj : Uthread) : ℕ :=
  if flags.isCreditScheduler then slices (max uObj.credits uObj.initialCredits) else 1

/-- The two records have the same credits. -/
def SameCredits (uObj' uObj : Uthread) : Prop :=
  uObj'.credits = uObj.credits ∧ uObj'.initialCredits = uObj.initialCredits

variable {flags : Flags} {uObj uObj' : Uthread}

theorem slices_mono {a b : ℤ} (h : a ≤ b) : slices a ≤ slices b := by
  simp only [slices, Nat.ceilDiv_eq_add_pred_div]
  omega

theorem one_le_slicesLeft (flags : Flags) (uObj : Uthread) : 1 ≤ slicesLeft flags uObj := by
  unfold slicesLeft
  split
  · exact one_le_slices _
  · exact le_rfl

theorem slicesLeft_le_share (flags : Flags) (uObj : Uthread) :
    slicesLeft flags uObj ≤ share flags uObj := by
  unfold slicesLeft share
  split
  · exact slices_mono (le_max_left _ _)
  · exact le_rfl

theorem SameCredits.share_eq (h : SameCredits uObj' uObj) :
    share flags uObj' = share flags uObj := by
  rw [share, share, h.1, h.2]

theorem SameCredits.slicesLeft_eq (h : SameCredits uObj' uObj) :
    slicesLeft flags uObj' = slicesLeft flags uObj := by
  rw [slicesLeft, slicesLeft, h.1]

theorem chargeCredits_initialCredits (flags : Flags) (stop : ℤ) (uObj : Uthread) :
    (chargeCredits flags stop uObj).initialCredits = uObj.initialCredits := by
  unfold chargeCredits
  split <;> rfl

theorem requeue_initialCredits (flags : Flags) (uObj : Uthread) :
    (requeue flags uObj).2.initialCredits = uObj.initialCredits := by
  simp only [requeue]
  split
  · rfl
  · split
    · split <;> rfl
    · rfl

/-- A uthread that is put into a runqueue has at most the credits it had, or the initial ones. -/
theorem requeue_credits_le (flags : Flags) (uObj : Uthread) :
    (requeue flags uObj).2.credits ≤ max uObj.credits uObj.initialCredits := by
  simp only [requeue]
  split
  · exact le_max_left _ _
  · split
    · split
      · exact le_max_left _ _
      · exact (sub_le_self _ (by decide)).trans (le_max_left _ _)
    · exact le_max_right _ _

/-- A slice of a non-negative length leaves the share of a uthread as it is, or makes it smaller. -/
theorem share_requeue_le {stop : ℤ}
    (htime : flags.isCreditScheduler = true → uObj.startRunningTimeStep ≤ stop) :
    share flags (requeue flags (chargeCredits flags stop uObj)).2 ≤ share flags uObj := by
  unfold share
  split
  · next hcredit =>
    have hcharge := chargeCredits_credits_le flags (htime hcredit)
    have hcredits := requeue_credits_le flags (chargeCredits flags stop uObj)
    rw [requeue_initialCredits]
    rw [chargeCredits_initialCredits] at hcredits ⊢
    refine slices_mono (max_le (hcredits.trans ?_) (le_max_right _ _))
    exact max_le_max hcharge le_rfl
  · exact le_rfl

/-- A uthread that goes back to the active runqueue has fewer slices left. In priority mode it never
goes there. -/
theorem slicesLeft_requeue_lt {stop : ℤ}
    (htime : flags.isCreditScheduler = true → uObj.startRunningTimeStep ≤ stop)
    (hside : (requeue flags (chargeCredits flags stop uObj)).1 = .active) :
    slicesLeft flags (requeue flags (chargeCredits flags stop uObj)).2 < slicesLeft flags uObj := by
  cases hcredit : flags.isCreditScheduler with
  | false =>
    simp only [requeue, hcredit, Bool.not_false, if_true] at hside
    exact absurd hside (by decide)
  | true =>
    obtain ⟨hpos, hcredits⟩ := requeue_active hcredit hside
    simp only [slicesLeft, hcredit, if_true, hcredits]
    exact slices_sub_lt hpos (chargeCredits_credits_le flags (htime hcredit))

/-! ### What a scheduling step does -/

variable {k j i : Fin gtMaxCores} {s s₂ s' : State} {ctx : KthreadContext} {u v c : ℕ}

/-- The current uthread of the kthread at slot `j`, if there is one, is put away. What is said about
its slices needs that the last one did not have a negative length (`OnTime`). -/
inductive Retired (flags : Flags) (OnTime : Prop) (j : Fin gtMaxCores) (s s₂ : State) : Prop
  | idle (hidle : ∀ c, ¬ At s.kthreadCpuMap c ⟨j, .current⟩)
      (hplaces : ∀ v place, At s₂.kthreadCpuMap v place ↔ At s.kthreadCpuMap v place)
      (hcredits : ∀ v, SameCredits (s₂.uthreads v) (s.uthreads v))
  | away {c : ℕ} {slot : Slot} (hcur : At s.kthreadCpuMap c ⟨j, .current⟩)
      (hslot : slot ≠ .current) (hmoved : Moved s.kthreadCpuMap s₂.kthreadCpuMap c ⟨j, slot⟩)
      (hothers : ∀ v, v ≠ c → SameCredits (s₂.uthreads v) (s.uthreads v))
      (hshare : OnTime → slot ≠ .zombie →
        share flags (s₂.uthreads c) ≤ share flags (s.uthreads c))
      (hleft : OnTime → slot = .active →
        slicesLeft flags (s₂.uthreads c) < slicesLeft flags (s.uthreads c))

/-- The kthread at slot `j` takes a uthread of its own active runqueue or of another one, or its
active runqueue is empty and the two are exchanged. If the kthreads are at their own slots (`Own`),
the other one is at a lower slot. -/
inductive Picked (Own : Prop) (j : Fin gtMaxCores) (s s' : State) : Prop
  | dispatched {v : ℕ} {i : Fin gtMaxCores} (hfrom : At s.kthreadCpuMap v ⟨i, .active⟩)
      (hi : Own → i ≤ j) (hmoved : Moved s.kthreadCpuMap s'.kthreadCpuMap v ⟨j, .current⟩)
  | exchanged (hempty : ∀ v, ¬ At s.kthreadCpuMap v ⟨j, .active⟩)
      (hplaces : ∀ v place,
        At s'.kthreadCpuMap v place ↔ At s.kthreadCpuMap v (exchange j place))

/-- A uthread that was inserted on one side is there. -/
theorem holds_insert_self {uthreads : ℕ → Uthread} (krunq : KthreadRunqueue) (side : Side) (u : ℕ) :
    (krunq.insert uthreads side u).Holds u (slotOf side) := by
  have hqueue : ∀ runq : Runqueue, u ∈ (addToRunqueue uthreads runq u).queue
      (uthreads u).uthreadPriority (uthreads u).uthreadGid := by
    intro runq
    simp [queue, addToRunqueue]
  cases side with
  | active => exact ⟨_, _, hqueue krunq.activeRunq⟩
  | expires => exact ⟨_, _, hqueue krunq.expiresRunq⟩

/-- Putting the current uthread away. -/
theorem retired_away (h : Conserved s) (hctx : s.kthreadCpuMap j = some ctx)
    (hcur : ctx.krunqueue.curUthread = some c) (flags : Flags) (stop : ℤ) :
    Retired flags (flags.isCreditScheduler = true → (s.uthreads c).startRunningTimeStep ≤ stop)
      j s (retireCurrent flags j ctx c stop s) := by
  obtain ⟨slot, hslot, hzombie, -, hmoved⟩ := h.placed.retireCurrent hctx hcur flags stop
  have hat : At s.kthreadCpuMap c ⟨j, .current⟩ := ⟨ctx, hctx, hcur⟩
  -- the record of no other uthread is written
  have hothers : ∀ v, v ≠ c → SameCredits ((retireCurrent flags j ctx c stop s).uthreads v)
      (s.uthreads v) := by
    intro v hv
    simp only [retireCurrent]
    split <;> simp only [Function.update_of_ne hv] <;> exact ⟨rfl, rfl⟩
  by_cases hended : (chargeCredits flags stop (s.uthreads c)).ended = true
  · have hslot' : slot = .zombie := hzombie.mpr hended
    refine .away hat hslot hmoved hothers (fun _ hne => absurd hslot' hne) ?_
    rw [hslot']
    exact fun _ heq => absurd heq (by decide)
  · -- it is on the side that `requeue` says
    have hside : slot = slotOf (requeue flags (chargeCredits flags stop (s.uthreads c))).1 := by
      have hthere : At (retireCurrent flags j ctx c stop s).kthreadCpuMap c
          ⟨j, slotOf (requeue flags (chargeCredits flags stop (s.uthreads c))).1⟩ := by
        simp only [retireCurrent, if_neg hended]
        exact ⟨_, Function.update_self .., holds_insert_self _ _ c⟩
      have heq := (hmoved c _).mp hthere
      rw [if_pos rfl] at heq
      exact (congrArg Place.slot heq).symm
    have hrecord : (retireCurrent flags j ctx c stop s).uthreads c =
        (requeue flags (chargeCredits flags stop (s.uthreads c))).2 := by
      simp only [retireCurrent, if_neg hended, Function.update_self]
    refine .away hat hslot hmoved hothers (fun htime _ => ?_) (fun htime hactive => ?_)
    · rw [hrecord]
      exact share_requeue_le htime
    · rw [hrecord]
      refine slicesLeft_requeue_lt htime ?_
      cases hrequeue : (requeue flags (chargeCredits flags stop (s.uthreads c))).1 with
      | active => rfl
      | expires =>
        rw [hrequeue] at hside
        exact absurd (hactive.symm.trans hside) (by decide)

/-- A victim is one of the slots that the loop visits. -/
theorem mem_of_stealVictim {kthreadCpuMap : KthreadCpuMap} {slots : List (Fin gtMaxCores)}
    {other : KthreadContext} (h : stealVictim kthreadCpuMap slots = some (some (i, other))) :
    i ∈ slots := by
  induction slots with
  | nil => exact absurd h (by simp [stealVictim])
  | cons j slots ih =>
    rw [stealVictim_cons] at h
    obtain ⟨ctx, -, h⟩ := Option.bind_eq_some_iff.mp h
    split at h
    · exact List.mem_cons_of_mem j (ih h)
    · split at h
      · obtain ⟨rfl, -⟩ := Prod.mk.inj (Option.some.inj (Option.some.inj h))
        exact List.mem_cons_self
      · exact List.mem_cons_of_mem j (ih h)

/-- A kthread steals only from slots below its own number. -/
theorem lt_of_findVictim {kthreadCpuMap : KthreadCpuMap} {cpuid : ℕ} {other : KthreadContext}
    (h : findVictim flags kthreadCpuMap cpuid = some (some (i, other))) : (i : ℕ) < cpuid := by
  rw [findVictim] at h
  split at h
  · exact lt_of_mem_stealSlots (mem_of_stealVictim h)
  · exact absurd h (by simp)

/-- The uthread that the scheduler finds becomes the current one. -/
theorem moved_of_found {kthreadCpuMap' : KthreadCpuMap} (h : Conserved s)
    (hctx : s.kthreadCpuMap j = some ctx) (hidle : ctx.krunqueue.curUthread = none) (start : ℤ)
    (hfound : Found s.uthreads s.kthreadCpuMap j (some v) kthreadCpuMap') :
    Moved s.kthreadCpuMap
      (resume j (some v) start { s with kthreadCpuMap := kthreadCpuMap' }).kthreadCpuMap
      v ⟨j, .current⟩ := by
  cases hfound with
  | own hctx' hmembers hv hbest hleft =>
    obtain rfl := Option.some.inj (hctx.symm.trans hctx')
    exact (h.placed.dispatch hctx hidle hmembers hv hleft start).2
  | @stolen ctx' i other members _ otherRunq runq hctx' hempty hi hother hmembers hv hleft hrunq =>
    obtain rfl := Option.some.inj (hctx.symm.trans hctx')
    have hat : At s.kthreadCpuMap v ⟨i, .active⟩ := ⟨other, hother, hmembers.mem_iff.mpr hv⟩
    simp only [resume, dispatch, Function.update_self, Option.map_some, Function.update_idem]
    exact moved_stolen hctx hidle hempty hi hother hmembers hleft hrunq
      (fun place hplace => h.eq_of_at hat hplace) rfl

/-- The choice of the next uthread. -/
theorem picked_of_schedFindBestUthread {uObj : Option ℕ} {kthreadCpuMap' : KthreadCpuMap}
    (h : Conserved s) (hctx : s.kthreadCpuMap j = some ctx)
    (hidle : ctx.krunqueue.curUthread = none) (start : ℤ)
    (hsched : schedFindBestUthread flags s.uthreads s.kthreadCpuMap j =
      some (uObj, kthreadCpuMap')) :
    Picked (ctx.cpuid ≤ j) j s
      (resume j uObj start { s with kthreadCpuMap := kthreadCpuMap' }) := by
  obtain ⟨members, hmembers⟩ := (h.wellFormed j ctx hctx).active
  by_cases hne : members = []
  · subst hne
    have hempty : ∀ v, ¬ At s.kthreadCpuMap v ⟨j, .active⟩ := by
      intro v hat
      rw [at_iff hctx] at hat
      exact absurd (hmembers.mem_iff.mp hat) (by simp)
    have hmask := hmembers.uthreadMask_eq_zero_iff.mpr rfl
    cases hvictim : findVictim flags s.kthreadCpuMap ctx.cpuid with
    | none => simp [schedFindBestUthread, hctx, hmask, hvictim] at hsched
    | some victim =>
      cases victim with
      | none =>
        -- nobody to steal from
        rw [schedFindBestUthread_exchange hctx hmembers hvictim] at hsched
        obtain ⟨rfl, rfl⟩ := Prod.mk.inj (Option.some.inj hsched)
        refine .exchanged hempty ?_
        intro v place
        exact (at_quitTest j _).trans (at_exchanged hctx)
      | some victim =>
        obtain ⟨i, other⟩ := victim
        have hlt := lt_of_findVictim hvictim
        obtain ⟨v, otherRunq, runq, others, hsched', hi, hother, hothers, hv, hleft, hrunq⟩ :=
          schedFindBestUthread_stolen h.wellFormed hctx hmembers hvictim
        obtain ⟨rfl, rfl⟩ := Prod.mk.inj (Option.some.inj (hsched'.symm.trans hsched))
        have hfound := Found.stolen hctx hmembers hi hother hothers hv hleft hrunq
        refine .dispatched ⟨other, hother, hothers.mem_iff.mpr hv⟩ ?_
          (moved_of_found h hctx hidle start hfound)
        intro hown
        exact Fin.le_def.mpr (hlt.le.trans hown)
  · obtain ⟨v, runq, hsched', hv, hbest, hleft⟩ := schedFindBestUthread_own flags hctx hmembers hne
    obtain ⟨rfl, rfl⟩ := Prod.mk.inj (Option.some.inj (hsched'.symm.trans hsched))
    exact .dispatched ⟨ctx, hctx, hmembers.mem_iff.mpr hv⟩ (fun _ => le_rfl)
      (moved_of_found h hctx hidle start (.own hctx hmembers hv hbest hleft))

theorem Picked.imp {Own Own' : Prop} (h : Picked Own j s s') (himp : Own' → Own) :
    Picked Own' j s s' := by
  cases h with
  | dispatched hfrom hi hmoved => exact .dispatched hfrom (fun hown => hi (himp hown)) hmoved
  | exchanged hempty hplaces => exact .exchanged hempty hplaces

/-- Dispatching a uthread, or going back to the loop, leaves the credits alone. -/
theorem sameCredits_resume (uObj : Option ℕ) (start : ℤ) (s : State) (v : ℕ) :
    SameCredits ((resume j uObj start s).uthreads v) (s.uthreads v) := by
  cases uObj with
  | none =>
    rw [resume, (quitTest_counters j s).1]
    exact ⟨rfl, rfl⟩
  | some u =>
    simp only [resume, dispatch, Function.update_apply]
    split
    · next hv => rw [hv]; exact ⟨rfl, rfl⟩
    · exact ⟨rfl, rfl⟩

/-- In credit mode no slice has a negative length. -/
def timely (flags : Flags) (s : State) : Label → Prop
  | .create _ _ _ => True
  | .schedule j _ clock => flags.isCreditScheduler = true → ∀ ctx ∈ s.kthreadCpuMap j,
      ∀ c ∈ ctx.krunqueue.curUthread, (s.uthreads c).startRunningTimeStep ≤ clock.stop

instance (flags : Flags) (s : State) (l : Label) : Decidable (timely flags s l) :=
  match l with
  | .create _ _ _ => .isTrue trivial
  | .schedule j _ clock => inferInstanceAs (Decidable (flags.isCreditScheduler = true →
      ∀ ctx ∈ s.kthreadCpuMap j, ∀ c ∈ ctx.krunqueue.curUthread,
        (s.uthreads c).startRunningTimeStep ≤ clock.stop))

/-- What the current uthread writes before it enters the scheduler is not its credits. -/
theorem sameCredits_beforeSchedule {ending : Ending} {finish : ℤ}
    (hs' : beforeSchedule j ending finish s = some s') (v : ℕ) :
    SameCredits (s'.uthreads v) (s.uthreads v) := by
  cases ending with
  | preempted =>
    obtain rfl := Option.some.inj hs'
    exact ⟨rfl, rfl⟩
  | finished | yielded =>
    obtain ⟨u, -, hs'⟩ := Option.bind_eq_some_iff.mp hs'
    obtain rfl := Option.some.inj hs'
    simp only [Function.update_apply]
    split
    · next hv => rw [hv]; exact ⟨rfl, rfl⟩
    · exact ⟨rfl, rfl⟩

/-- Only the places and the credits before matter. -/
theorem Retired.congr {OnTime OnTime' : Prop} {s₁ : State} (h : Retired flags OnTime j s₁ s₂)
    (hmap : s₁.kthreadCpuMap = s.kthreadCpuMap)
    (hcredits : ∀ v, SameCredits (s₁.uthreads v) (s.uthreads v)) (htime : OnTime' → OnTime) :
    Retired flags OnTime' j s s₂ := by
  have htrans : ∀ {v}, SameCredits (s₂.uthreads v) (s₁.uthreads v) →
      SameCredits (s₂.uthreads v) (s.uthreads v) := by
    intro v hv
    exact ⟨hv.1.trans (hcredits v).1, hv.2.trans (hcredits v).2⟩
  cases h with
  | idle hidle hplaces hsame =>
    rw [hmap] at hidle hplaces
    exact .idle hidle hplaces fun v => htrans (hsame v)
  | @away c slot hcur hslot hmoved hothers hshare hleft =>
    rw [hmap] at hcur hmoved
    rw [(hcredits c).share_eq] at hshare
    rw [(hcredits c).slicesLeft_eq] at hleft
    exact .away hcur hslot hmoved (fun v hv => htrans (hothers v hv))
      (fun ht => hshare (htime ht)) fun ht => hleft (htime ht)

variable {cpuids : Fin gtMaxCores → Option ℕ}

/-- No kthread has a number above its slot. With every kthread pinned to its cpu the two are the
same. -/
def OwnSlots (cpuids : Fin gtMaxCores → Option ℕ) : Prop :=
  ∀ j cpuid, cpuids j = some cpuid → cpuid ≤ j

/-- **A scheduling step**: what happens to the places and to the credits. -/
theorem schedule_effect (h : Sound cpuids s) {ending : Ending} {clock : Clock}
    (hstep : (gtthreads flags cpuids).step s (.schedule j ending clock) = some s') :
    ∃ s₂, Conserved s₂ ∧ Retired flags (timely flags s (.schedule j ending clock)) j s s₂ ∧
      Picked (OwnSlots cpuids) j s₂ s' ∧ ∀ v, SameCredits (s'.uthreads v) (s₂.uthreads v) := by
  obtain ⟨s₁, hs₁, hs'⟩ := Option.bind_eq_some_iff.mp hstep
  obtain ⟨h₁, hmap⟩ := h.conserved.beforeSchedule hs₁
  obtain ⟨-, -, hfields⟩ := beforeSchedule_frame hs₁
  obtain ⟨ctx, hctx, hs'⟩ := Option.bind_eq_some_iff.mp hs'
  obtain ⟨⟨uObj, map'⟩, hsched, hs'⟩ := Option.bind_eq_some_iff.mp hs'
  obtain rfl := Option.some.inj hs'
  have hcredits := sameCredits_beforeSchedule hs₁
  -- the current uthread is put away
  have hretired : Retired flags (timely flags s (.schedule j ending clock)) j s
      (putAway flags j ctx clock.stop s₁) := by
    rw [putAway]
    cases hcur : ctx.krunqueue.curUthread with
    | none =>
      have hidle : ∀ c, ¬ At s₁.kthreadCpuMap c ⟨j, .current⟩ := by
        intro c hat
        rw [at_iff hctx] at hat
        exact absurd (hcur.symm.trans hat) (by simp)
      rw [hmap] at hidle
      exact .idle hidle (fun _ _ => by rw [hmap]) hcredits
    | some c =>
      refine (retired_away h₁ hctx hcur flags clock.stop).congr hmap hcredits ?_
      intro htime hcredit
      rw [(hfields c).2]
      exact htime hcredit ctx (hmap ▸ hctx) c hcur
  -- and the next one is chosen
  have h₂ := h₁.putAway hctx flags clock.stop
  obtain ⟨ctx₂, hmap₂, hidle₂, hcpuid₂, -⟩ := putAway_kthreadCpuMap hctx flags clock.stop
  have hctx₂ : (putAway flags j ctx clock.stop s₁).kthreadCpuMap j = some ctx₂ := by
    rw [hmap₂, Function.update_self]
  have hcpuid : cpuids j = some ctx.cpuid := by
    rw [← h.registered j, ← hmap, hctx, Option.map_some]
  refine ⟨_, h₂, hretired, ?_, ?_⟩
  · refine (picked_of_schedFindBestUthread h₂ hctx₂ hidle₂ clock.start hsched).imp ?_
    intro hown
    rw [hcpuid₂]
    exact hown j ctx.cpuid hcpuid
  · intro v
    exact sameCredits_resume uObj clock.start _ v

/-! ### Uthreads go upwards -/

/-- Putting the current uthread away moves nothing to another kthread. -/
theorem Retired.exists_at {OnTime : Prop} (h : Retired flags OnTime j s s₂) (hs : Conserved s)
    {place : Place} (hat : At s.kthreadCpuMap v place) :
    ∃ place', At s₂.kthreadCpuMap v place' ∧ place'.kthread = place.kthread := by
  cases h with
  | idle _ hplaces _ => exact ⟨place, (hplaces v place).mpr hat, rfl⟩
  | @away c slot hcur _ hmoved =>
    by_cases hv : v = c
    · subst hv
      refine ⟨⟨j, slot⟩, (hmoved v _).mpr (by rw [if_pos rfl]), ?_⟩
      rw [hs.eq_of_at hcur hat]
    · exact ⟨place, (hmoved v place).mpr (by rwa [if_neg hv]), rfl⟩

theorem exchange_kthread (j : Fin gtMaxCores) (place : Place) :
    (exchange j place).kthread = place.kthread := by
  rw [exchange]
  split
  · next hj =>
    rw [hj]
    cases place.slot <;> rfl
  · rfl

theorem Picked.exists_at {Own : Prop} (h : Picked Own j s s') (hown : Own) (hs : Conserved s)
    {place : Place} (hat : At s.kthreadCpuMap v place) :
    ∃ place', At s'.kthreadCpuMap v place' ∧ place.kthread ≤ place'.kthread := by
  cases h with
  | @dispatched w i hfrom hi hmoved =>
    by_cases hv : v = w
    · subst hv
      refine ⟨⟨j, .current⟩, (hmoved v _).mpr (by rw [if_pos rfl]), ?_⟩
      rw [hs.eq_of_at hfrom hat]
      exact hi hown
    · exact ⟨place, (hmoved v place).mpr (by rwa [if_neg hv]), le_rfl⟩
  | exchanged _ hplaces =>
    refine ⟨exchange j place, (hplaces v _).mpr (by rwa [exchange_exchange]), ?_⟩
    rw [exchange_kthread]

/-- After a step a uthread is on the same kthread, or on one at a higher slot. -/
theorem kthread_le_of_step {l : Label} {place : Place} (hown : OwnSlots cpuids)
    (h : Sound cpuids s) (hat : At s.kthreadCpuMap u place)
    (hstep : (gtthreads flags cpuids).step s l = some s') :
    ∃ place', At s'.kthreadCpuMap u place' ∧ place.kthread ≤ place'.kthread := by
  cases l with
  | create uGid credits now =>
    have hu := h.conserved.created u place hat
    obtain ⟨target, uNew, -, -, -, -, -, hmoved⟩ := h.conserved.placed.uthreadCreate hstep
    exact ⟨place, (hmoved u place).mpr (by rwa [if_neg hu.ne]), le_rfl⟩
  | schedule j ending clock =>
    obtain ⟨s₂, h₂, hretired, hpicked, -⟩ := schedule_effect h hstep
    obtain ⟨place₂, hat₂, heq⟩ := hretired.exists_at h.conserved hat
    obtain ⟨place', hat', hle⟩ := hpicked.exists_at hown h₂ hat₂
    exact ⟨place', hat', heq ▸ hle⟩

/-- The two kthreads of `pairCpuids` are at the slots of their numbers. -/
theorem ownSlots_pairCpuids : OwnSlots pairCpuids := by
  intro j cpuid hj
  rw [pairCpuids] at hj
  split at hj
  · exact (Option.some.inj hj).ge
  · exact absurd hj (by simp)

/-- **Uthreads only go to kthreads at higher slots.** Load balancing never brings a uthread back: if
in some state of a run it belongs to one kthread, it never again belongs to one at a lower slot. -/
theorem migrates_upwards (flags : Flags) (cpuids : Fin gtMaxCores → Option ℕ)
    (hown : OwnSlots cpuids) (s : State)
    (hr : (gtthreads flags cpuids).Reachable System.anyStep s) (ls : List Label) (s' : State)
    (hrun : (gtthreads flags cpuids).guardedRun System.anyStep s ls = some s') (u : ℕ)
    (place place' : Place) (hat : At s.kthreadCpuMap u place)
    (hat' : At s'.kthreadCpuMap u place') : place.kthread ≤ place'.kthread := by
  -- on the run, with the place in the state that it starts from
  induction ls generalizing s place with
  | nil =>
    obtain rfl := Option.some.inj hrun
    rw [(sound_of_reachable hr).conserved.eq_of_at hat hat']
  | cons l ls ih =>
    obtain ⟨-, s₁, hs₁, hrest⟩ := System.guardedRun_cons_eq_some.mp hrun
    have h := sound_of_reachable hr
    obtain ⟨place₁, hat₁, hle⟩ := kthread_le_of_step hown h hat hs₁
    exact hle.trans (ih s₁ (.step hr trivial hs₁) hrest place₁ hat₁)

/-- With two kthreads, the uthread that the second one steals is on the first one before. -/
theorem migrates_upwards_pair :
    ∃ s s', (gtthreads ⟨true, true, true⟩ pairCpuids).Reachable System.anyStep s ∧
      (gtthreads ⟨true, true, true⟩ pairCpuids).guardedRun System.anyStep s
        [.schedule 1 .preempted ⟨0, 0, 5⟩, .schedule 1 .finished ⟨9, 9, 9⟩] = some s' ∧
      At s.kthreadCpuMap 1 ⟨0, .active⟩ ∧ At s'.kthreadCpuMap 1 ⟨1, .current⟩ ∧
      (0 : Fin gtMaxCores) ≤ 1 := by
  have hrun : ((gtthreads ⟨true, true, true⟩ pairCpuids).guardedRun System.anyStep
      (gtthreads ⟨true, true, true⟩ pairCpuids).init [.create 0 100 0, .create 0 100 0]).any
      (fun s => (s.kthreadCpuMap 0).any (fun ctx =>
          decide (1 ∈ ctx.krunqueue.activeRunq.queue defaultUthreadPriority 0)) &&
        ((gtthreads ⟨true, true, true⟩ pairCpuids).guardedRun System.anyStep s
          [.schedule 1 .preempted ⟨0, 0, 5⟩, .schedule 1 .finished ⟨9, 9, 9⟩]).any fun s' =>
          (s'.kthreadCpuMap 1).any fun ctx => ctx.krunqueue.curUthread == some 1) = true := by
    decide +kernel
  obtain ⟨s, hr, hs⟩ := System.Reachable.of_any hrun
  obtain ⟨hqueue, hstolen⟩ := Bool.and_eq_true_iff.mp hs
  obtain ⟨ctx, hctx, hmem⟩ := (Option.any_eq_true _ _).mp hqueue
  obtain ⟨s', hrun', hcur⟩ := (Option.any_eq_true _ _).mp hstolen
  obtain ⟨ctx', hctx', hcur⟩ := (Option.any_eq_true _ _).mp hcur
  -- where the uthread is before the steal and after it
  have hat : At s.kthreadCpuMap 1 ⟨0, .active⟩ := ⟨ctx, hctx, _, _, of_decide_eq_true hmem⟩
  have hat' : At s'.kthreadCpuMap 1 ⟨1, .current⟩ := ⟨ctx', hctx', beq_iff_eq.mp hcur⟩
  exact ⟨s, s', hr, hrun', hat, hat',
    migrates_upwards _ _ ownSlots_pairCpuids s hr _ s' hrun' 1 _ _ hat hat'⟩

/-! ### What a uthread waits for -/

instance Place.nonempty : Nonempty Place := ⟨⟨0, .active⟩⟩

/-- Where the uthread is. -/
noncomputable def placeOf (kthreadCpuMap : KthreadCpuMap) (u : ℕ) : Place :=
  Classical.epsilon (At kthreadCpuMap u)

/-- How much a uthread at the given place can hold up those that wait on the kthread at slot `k`. -/
def burden (flags : Flags) (k : Fin gtMaxCores) (uObj : Uthread) (place : Place) : ℕ :=
  if place.kthread = k then if place.slot = .expires then 0 else slicesLeft flags uObj
  else if place.kthread < k then share flags uObj
  else 0

/-- The burden of all uthreads. -/
noncomputable def ahead (flags : Flags) (k : Fin gtMaxCores) (s : State) : ℕ :=
  ∑ v ∈ live s, burden flags k (s.uthreads v) (placeOf s.kthreadCpuMap v)

/-- The shares of all uthreads. -/
def shares (flags : Flags) (s : State) : ℕ := ∑ v ∈ live s, share flags (s.uthreads v)

open Classical in
/-- A kthread without a current uthread needs one more call to get one. -/
noncomputable def idling (k : Fin gtMaxCores) (s : State) : ℕ :=
  if ∃ c, At s.kthreadCpuMap c ⟨k, .current⟩ then 0 else 1

/-- A bound on the calls of the scheduler on the kthread at slot `k` that a uthread in one of its
runqueues has to wait for. -/
noncomputable def delay (flags : Flags) (k : Fin gtMaxCores) (side : Side) (s : State) : ℕ :=
  match side with
  | .active => ahead flags k s + idling k s
  -- until the exchange, and then for all uthreads
  | .expires => ahead flags k s + idling k s + (shares flags s + 1)

theorem placeOf_eq {place : Place} (h : Conserved s) (hat : At s.kthreadCpuMap u place) :
    placeOf s.kthreadCpuMap u = place :=
  h.eq_of_at hat (Classical.epsilon_spec ⟨place, hat⟩)

theorem mem_live_iff (h : Conserved s) :
    u ∈ live s ↔ ∃ place, At s.kthreadCpuMap u place ∧ place.slot ≠ .zombie := by
  rw [mem_live]
  constructor
  · rintro ⟨hu, hzombie⟩
    obtain ⟨place, hat, -⟩ := h.existsUnique_place u hu
    refine ⟨place, hat, ?_⟩
    intro hslot
    refine hzombie place.kthread ?_
    rw [← hslot]
    exact hat
  · rintro ⟨place, hat, hslot⟩
    refine ⟨h.created u place hat, ?_⟩
    intro k hzombie
    exact hslot (by rw [h.eq_of_at hzombie hat])

theorem burden_le_share (flags : Flags) (k : Fin gtMaxCores) (uObj : Uthread) (place : Place) :
    burden flags k uObj place ≤ share flags uObj := by
  unfold burden
  split
  · split
    · exact Nat.zero_le _
    · exact slicesLeft_le_share flags uObj
  · split
    · exact le_rfl
    · exact Nat.zero_le _

theorem ahead_le_shares (flags : Flags) (k : Fin gtMaxCores) (s : State) :
    ahead flags k s ≤ shares flags s :=
  Finset.sum_le_sum fun _ _ => burden_le_share flags k _ _

theorem idling_le_one (k : Fin gtMaxCores) (s : State) : idling k s ≤ 1 := by
  unfold idling
  split
  · exact Nat.zero_le _
  · exact le_rfl

/-- The burden depends on the place and on the credits. -/
theorem SameCredits.burden_eq (h : SameCredits uObj' uObj) (place : Place) :
    burden flags k uObj' place = burden flags k uObj place := by
  rw [burden, burden, h.share_eq, h.slicesLeft_eq]

/-! ### Steps that add nothing -/

/-- No uthread has a greater share than before. -/
structure Shrinks (flags : Flags) (s s' : State) : Prop where
  live : live s' ⊆ live s
  share : ∀ v ∈ Conservation.live s', share flags (s'.uthreads v) ≤ share flags (s.uthreads v)

/-- Moreover, none holds up others more than before. -/
structure Declines (flags : Flags) (k : Fin gtMaxCores) (s s' : State) : Prop
    extends Shrinks flags s s' where
  burden : ∀ v ∈ Conservation.live s',
    burden flags k (s'.uthreads v) (placeOf s'.kthreadCpuMap v) ≤
      burden flags k (s.uthreads v) (placeOf s.kthreadCpuMap v)

theorem Shrinks.shares_le (h : Shrinks flags s s') : shares flags s' ≤ shares flags s :=
  (Finset.sum_le_sum h.share).trans (Finset.sum_le_sum_of_subset h.live)

theorem Declines.ahead_le (h : Declines flags k s s') : ahead flags k s' ≤ ahead flags k s :=
  (Finset.sum_le_sum h.burden).trans (Finset.sum_le_sum_of_subset h.live)

/-- If one uthread has ended, or holds up the others less, then they wait for less. -/
theorem Declines.ahead_lt (h : Declines flags k s s') (hc : c ∈ Conservation.live s)
    (hpos : 0 < Starvation.burden flags k (s.uthreads c) (placeOf s.kthreadCpuMap c))
    (hlt : c ∈ Conservation.live s' →
      Starvation.burden flags k (s'.uthreads c) (placeOf s'.kthreadCpuMap c) <
        Starvation.burden flags k (s.uthreads c) (placeOf s.kthreadCpuMap c)) :
    ahead flags k s' < ahead flags k s := by
  by_cases hc' : c ∈ Conservation.live s'
  · exact (Finset.sum_lt_sum h.burden ⟨c, hc', hlt hc'⟩).trans_le
      (Finset.sum_le_sum_of_subset h.live)
  · exact (Finset.sum_le_sum h.burden).trans_lt
      (Finset.sum_lt_sum_of_subset h.live hc hc' hpos fun _ _ _ => Nat.zero_le _)

/-- Moving a uthread that is not a zombie. -/
theorem live_subset_of_moved {place place' : Place} (hs : Conserved s) (hs' : Conserved s')
    (hat : At s.kthreadCpuMap c place) (hslot : place.slot ≠ .zombie)
    (hmoved : Moved s.kthreadCpuMap s'.kthreadCpuMap c place') : live s' ⊆ live s := by
  intro v hv
  obtain ⟨p, hp, hpslot⟩ := (mem_live_iff hs').mp hv
  rw [hmoved] at hp
  rw [mem_live_iff hs]
  split at hp
  · next hvc => exact ⟨place, hvc ▸ hat, hslot⟩
  · exact ⟨p, hp, hpslot⟩

/-- Moving one uthread, whose share does not become greater. -/
theorem Shrinks.of_moved {place place' : Place} (hs : Conserved s) (hs' : Conserved s')
    (hat : At s.kthreadCpuMap c place) (hslot : place.slot ≠ .zombie)
    (hmoved : Moved s.kthreadCpuMap s'.kthreadCpuMap c place')
    (hothers : ∀ v, v ≠ c → SameCredits (s'.uthreads v) (s.uthreads v))
    (hc : place'.slot ≠ .zombie → Starvation.share flags (s'.uthreads c) ≤
      Starvation.share flags (s.uthreads c)) : Shrinks flags s s' := by
  refine ⟨live_subset_of_moved hs hs' hat hslot hmoved, ?_⟩
  intro v hv
  by_cases hvc : v = c
  · obtain ⟨p, hp, hpslot⟩ := (mem_live_iff hs').mp hv
    have hplace := (hmoved v p).mp hp
    rw [if_pos hvc] at hplace
    rw [hvc]
    exact hc (hplace ▸ hpslot)
  · exact (hothers v hvc).share_eq.le

/-- Moving one uthread, which gets no more slices and holds up the others no more than before. -/
theorem Declines.of_moved {place place' : Place} (hs : Conserved s) (hs' : Conserved s')
    (hat : At s.kthreadCpuMap c place) (hslot : place.slot ≠ .zombie)
    (hmoved : Moved s.kthreadCpuMap s'.kthreadCpuMap c place')
    (hothers : ∀ v, v ≠ c → SameCredits (s'.uthreads v) (s.uthreads v))
    (hc : place'.slot ≠ .zombie → Starvation.share flags (s'.uthreads c) ≤
        Starvation.share flags (s.uthreads c) ∧
      Starvation.burden flags k (s'.uthreads c) place' ≤
        Starvation.burden flags k (s.uthreads c) place) : Declines flags k s s' := by
  refine ⟨.of_moved hs hs' hat hslot hmoved hothers fun hz => (hc hz).1, ?_⟩
  intro v hv
  obtain ⟨p, hp, hpslot⟩ := (mem_live_iff hs').mp hv
  have hold := (hmoved v p).mp hp
  -- it is where it was, or it is the one that is moved
  by_cases hvc : v = c
  · rw [if_pos hvc] at hold
    subst hvc hold
    rw [placeOf_eq hs' hp, placeOf_eq hs hat]
    exact (hc hpslot).2
  · rw [if_neg hvc] at hold
    rw [placeOf_eq hs hold, placeOf_eq hs' hp, (hothers v hvc).burden_eq]

/-- Renaming places. -/
theorem Shrinks.of_renamed {f : Place → Place} (hs : Conserved s) (hs' : Conserved s')
    (hplaces : ∀ v place, At s'.kthreadCpuMap v place ↔ At s.kthreadCpuMap v (f place))
    (hcredits : ∀ v, SameCredits (s'.uthreads v) (s.uthreads v))
    (hzombie : ∀ place, place.slot ≠ .zombie → (f place).slot ≠ .zombie) :
    Shrinks flags s s' := by
  refine ⟨?_, fun v _ => (hcredits v).share_eq.le⟩
  intro v hv
  obtain ⟨place, hat, hslot⟩ := (mem_live_iff hs').mp hv
  exact (mem_live_iff hs).mpr ⟨f place, (hplaces v place).mp hat, hzombie place hslot⟩

/-- Renaming places, none of which becomes a greater burden. -/
theorem Declines.of_renamed {f : Place → Place} (hs : Conserved s) (hs' : Conserved s')
    (hplaces : ∀ v place, At s'.kthreadCpuMap v place ↔ At s.kthreadCpuMap v (f place))
    (hcredits : ∀ v, SameCredits (s'.uthreads v) (s.uthreads v))
    (hzombie : ∀ place, place.slot ≠ .zombie → (f place).slot ≠ .zombie)
    (hburden : ∀ uObj place, Starvation.burden flags k uObj place ≤
      Starvation.burden flags k uObj (f place)) : Declines flags k s s' := by
  refine ⟨.of_renamed hs hs' hplaces hcredits hzombie, ?_⟩
  intro v hv
  obtain ⟨place, hat, -⟩ := (mem_live_iff hs').mp hv
  rw [placeOf_eq hs' hat, placeOf_eq hs ((hplaces v place).mp hat), (hcredits v).burden_eq]
  exact hburden _ place

/-! ### The current uthread is put away -/

section Retire

variable {OnTime : Prop}

/-- A uthread that is put away holds up the others less on its own kthread, and not more on those
above. -/
theorem burden_away {slot : Slot} (hslot : slot ≠ .current) (hzombie : slot ≠ .zombie)
    (hshare : share flags uObj' ≤ share flags uObj)
    (hleft : slot = .active → slicesLeft flags uObj' < slicesLeft flags uObj) :
    burden flags k uObj' ⟨j, slot⟩ ≤ burden flags k uObj ⟨j, .current⟩ ∧
      (j = k → burden flags k uObj' ⟨j, slot⟩ < burden flags k uObj ⟨j, .current⟩) := by
  have hpos : 0 < slicesLeft flags uObj := one_le_slicesLeft flags uObj
  by_cases hj : j = k
  · subst hj
    have hlt : burden flags j uObj' ⟨j, slot⟩ < burden flags j uObj ⟨j, .current⟩ := by
      cases slot with
      | active => simpa [burden] using hleft rfl
      | expires => simpa [burden] using hpos
      | current => exact absurd rfl hslot
      | zombie => exact absurd rfl hzombie
    exact ⟨hlt.le, fun _ => hlt⟩
  · refine ⟨?_, fun heq => absurd heq hj⟩
    simp only [burden, if_neg hj]
    split
    · exact hshare
    · exact le_rfl

theorem Retired.declines (h : Retired flags OnTime j s s₂) (hs : Conserved s) (hs₂ : Conserved s₂)
    (htime : OnTime) (k : Fin gtMaxCores) : Declines flags k s s₂ := by
  cases h with
  | idle _ hplaces hcredits =>
    exact .of_renamed (f := id) hs hs₂ hplaces hcredits (fun _ h => h) fun _ _ => le_rfl
  | away hcur hslot hmoved hothers hshare hleft =>
    refine .of_moved hs hs₂ hcur (by simp) hmoved hothers ?_
    intro hzombie
    exact ⟨hshare htime hzombie,
      (burden_away hslot hzombie (hshare htime hzombie) (hleft htime)).1⟩

/-- Afterwards nothing is current. -/
theorem Retired.not_current (h : Retired flags OnTime j s s₂) (c : ℕ) :
    ¬ At s₂.kthreadCpuMap c ⟨j, .current⟩ := by
  cases h with
  | idle hidle hplaces _ =>
    rw [hplaces]
    exact hidle c
  | @away d slot hcur hslot hmoved =>
    rw [hmoved]
    split
    · simpa using hslot.symm
    · next hne =>
      -- there was only one current uthread
      intro hat
      obtain ⟨ctx, hctx, hd⟩ := hcur
      rw [at_iff hctx] at hat
      exact hne (Option.some.inj (hat.symm.trans hd))

/-- On its own kthread the slice that ends is used up. -/
theorem Retired.ahead_add_one_le (h : Retired flags OnTime k s s₂) (hs : Conserved s)
    (hs₂ : Conserved s₂) (htime : OnTime) :
    ahead flags k s₂ + 1 ≤ ahead flags k s + idling k s := by
  have hdecl := h.declines hs hs₂ htime k
  cases h with
  -- a kthread without a current uthread uses up the call it had to spare
  | idle hidle =>
    have hone : idling k s = 1 := if_neg (by simpa using hidle)
    have hle := hdecl.ahead_le
    omega
  | @away c slot hcur hslot hmoved hothers hshare hleft =>
    -- the current uthread had a slice left, and has one less now
    have hlt : ahead flags k s₂ < ahead flags k s := by
      refine hdecl.ahead_lt (c := c) ((mem_live_iff hs).mpr ⟨_, hcur, by simp⟩) ?_ ?_
      · rw [placeOf_eq hs hcur]
        have hpos : 0 < slicesLeft flags (s.uthreads c) := one_le_slicesLeft flags _
        simpa [burden] using hpos
      · intro hc
        have hat : At s₂.kthreadCpuMap c ⟨k, slot⟩ := (hmoved c _).mpr (by rw [if_pos rfl])
        have hzombie : slot ≠ .zombie := by
          obtain ⟨place, hplace, hz⟩ := (mem_live_iff hs₂).mp hc
          rwa [hs₂.eq_of_at hat hplace] at hz
        rw [placeOf_eq hs₂ hat, placeOf_eq hs hcur]
        exact (burden_away hslot hzombie (hshare htime hzombie) (hleft htime)).2 rfl
    omega

/-- A uthread that is not current stays where it is. -/
theorem Retired.stays (h : Retired flags OnTime j s s₂) (hs : Conserved s) {place : Place}
    (hat : At s.kthreadCpuMap u place) (hslot : place.slot ≠ .current) :
    At s₂.kthreadCpuMap u place := by
  cases h with
  | idle _ hplaces _ => exact (hplaces u place).mpr hat
  | @away c slot hcur _ hmoved =>
    have hne : u ≠ c := by
      rintro rfl
      exact hslot (by rw [hs.eq_of_at hcur hat])
    exact (hmoved u place).mpr (by rwa [if_neg hne])

/-- The current uthreads of the other kthreads stay. -/
theorem Retired.current_iff (h : Retired flags OnTime j s s₂) (hs : Conserved s) (hk : k ≠ j)
    (c : ℕ) : At s₂.kthreadCpuMap c ⟨k, .current⟩ ↔ At s.kthreadCpuMap c ⟨k, .current⟩ := by
  cases h with
  | idle _ hplaces _ => exact hplaces c _
  | @away d slot hcur _ hmoved =>
    rw [hmoved]
    split
    · next hc =>
      subst hc
      refine iff_of_false (fun heq => hk (congrArg Place.kthread heq)) fun hat => ?_
      exact hk (congrArg Place.kthread (hs.eq_of_at hcur hat))
    · exact Iff.rfl

end Retire

/-! ### The next one is picked -/

section Pick

variable {Own : Prop}

/-- A uthread that is dispatched holds up the others no more than in the runqueue that it comes
from. -/
theorem burden_dispatched (hi : i ≤ j) (hcredits : SameCredits uObj' uObj) :
    burden flags k uObj' ⟨j, .current⟩ ≤ burden flags k uObj ⟨i, .active⟩ := by
  rw [hcredits.burden_eq]
  have hle := slicesLeft_le_share flags uObj
  simp only [burden]
  by_cases hj : j = k
  · subst hj
    by_cases hij : i = j
    · simp [hij]
    · -- it was stolen from a kthread below
      simpa [hij, lt_of_le_of_ne hi hij] using hle
  · by_cases hjk : j < k
    · have hik : i < k := hi.trans_lt hjk
      simp [hj, hjk, hik, hik.ne]
    · simp [hj, hjk]

/-- The exchange of the runqueues of another kthread changes no burden. -/
theorem burden_exchange (hk : k ≠ j) (uObj : Uthread) (place : Place) :
    burden flags k uObj place ≤ burden flags k uObj (exchange j place) := by
  simp only [burden, exchange_kthread]
  by_cases hplace : place.kthread = k
  · have hsame : exchange j place = place := by
      rw [exchange, if_neg (by rw [hplace]; exact hk)]
    rw [hsame]
  · simp [hplace]

theorem exchange_zombie {place : Place} (h : place.slot ≠ .zombie) :
    (exchange j place).slot ≠ .zombie := by
  rw [exchange]
  split
  · cases hslot : place.slot with
    | zombie => exact absurd hslot h
    | _ => simp
  · exact h

/-- No share changes. -/
theorem Picked.shrinks (h : Picked Own j s s') (hs : Conserved s) (hs' : Conserved s')
    (hcredits : ∀ v, SameCredits (s'.uthreads v) (s.uthreads v)) : Shrinks flags s s' := by
  cases h with
  | @dispatched v i hfrom hi hmoved =>
    exact .of_moved hs hs' hfrom (by simp) hmoved (fun w _ => hcredits w)
      fun _ => (hcredits v).share_eq.le
  | exchanged _ hplaces =>
    exact .of_renamed hs hs' hplaces hcredits fun _ hz => exchange_zombie hz

/-- Nobody has to wait for more, unless the runqueues of its own kthread are exchanged. -/
theorem Picked.declines (h : Picked Own j s s') (hown : Own) (hs : Conserved s)
    (hs' : Conserved s') (hcredits : ∀ v, SameCredits (s'.uthreads v) (s.uthreads v))
    (hk : k = j → ∃ c, At s'.kthreadCpuMap c ⟨j, .current⟩)
    (hidle : ∀ c, ¬ At s.kthreadCpuMap c ⟨j, .current⟩) : Declines flags k s s' := by
  cases h with
  | @dispatched v i hfrom hi hmoved =>
    refine .of_moved hs hs' hfrom (by simp) hmoved (fun w _ => hcredits w) ?_
    intro _
    exact ⟨(hcredits v).share_eq.le, burden_dispatched (hi hown) (hcredits v)⟩
  | exchanged _ hplaces =>
    have hne : k ≠ j := by
      intro heq
      obtain ⟨c, hc⟩ := hk heq
      rw [hplaces] at hc
      refine hidle c ?_
      simpa only [exchange, if_true] using hc
    exact .of_renamed (f := exchange j) hs hs' hplaces hcredits (fun _ hz => exchange_zombie hz)
      fun uObj place => burden_exchange hne uObj place

/-- The current uthreads of the other kthreads stay. -/
theorem Picked.current_iff (h : Picked Own j s s') (hs : Conserved s) (hk : k ≠ j) (c : ℕ) :
    At s'.kthreadCpuMap c ⟨k, .current⟩ ↔ At s.kthreadCpuMap c ⟨k, .current⟩ := by
  cases h with
  | @dispatched v i hfrom hi hmoved =>
    rw [hmoved]
    split
    · next hc =>
      subst hc
      refine iff_of_false (fun heq => hk (congrArg Place.kthread heq)) fun hat => ?_
      exact absurd (congrArg Place.slot (hs.eq_of_at hfrom hat)) (by simp)
    · exact Iff.rfl
  | exchanged _ hplaces => rw [hplaces, exchange, if_neg hk]

/-- A uthread that waits is dispatched, or waits in the same runqueue, which is called the other one
if the runqueues were exchanged. -/
theorem Picked.waiting (h : Picked Own j s s') {side : Side}
    (hat : At s.kthreadCpuMap u ⟨k, slotOf side⟩) :
    At s'.kthreadCpuMap u ⟨j, .current⟩ ∨
      ((k = j → ∃ c, At s'.kthreadCpuMap c ⟨j, .current⟩) ∧
        At s'.kthreadCpuMap u ⟨k, slotOf side⟩) ∨
      (k = j ∧ side = .expires ∧ At s'.kthreadCpuMap u ⟨k, .active⟩) := by
  cases h with
  | @dispatched v i hfrom hi hmoved =>
    have hcur : At s'.kthreadCpuMap v ⟨j, .current⟩ := (hmoved v _).mpr (by rw [if_pos rfl])
    by_cases hu : u = v
    · exact .inl (hu ▸ hcur)
    · exact .inr (.inl ⟨fun _ => ⟨v, hcur⟩, (hmoved u _).mpr (by rwa [if_neg hu])⟩)
  -- the active runqueue was empty, so the uthread is in the other one
  | exchanged hempty hplaces =>
    by_cases hk : k = j
    · subst hk
      cases side with
      | active => exact absurd hat (hempty u)
      | expires =>
        refine .inr (.inr ⟨rfl, rfl, (hplaces u _).mpr ?_⟩)
        simpa only [exchange, if_true, slotOf] using hat
    · refine .inr (.inl ⟨fun heq => absurd heq hk, (hplaces u _).mpr ?_⟩)
      rwa [exchange, if_neg hk]

end Pick

/-! ### All runs -/

/-- The calls of the scheduler on the kthread at slot `k`. -/
def call (k : Fin gtMaxCores) : Label → ℕ
  | .create _ _ _ => 0
  | .schedule j _ _ => if j = k then 1 else 0

/-- The share of a uthread that is created. -/
def granted (flags : Flags) : Label → ℕ
  | .create _ credits _ => if flags.isCreditScheduler then slices credits else 1
  | .schedule _ _ _ => 0

theorem idling_eq_of_current {s s' : State}
    (h : ∀ c, At s'.kthreadCpuMap c ⟨k, .current⟩ ↔ At s.kthreadCpuMap c ⟨k, .current⟩) :
    idling k s' = idling k s := by
  rw [idling, idling, propext (exists_congr h)]

/-- The delay of a uthread that stays in its runqueue while nobody gets more slices. -/
theorem delay_add_le (side : Side) {n : ℕ}
    (hahead : ahead flags k s' + idling k s' + n ≤ ahead flags k s + idling k s)
    (hshares : shares flags s' ≤ shares flags s) :
    delay flags k side s' + n ≤ delay flags k side s := by
  cases side with
  | active => exact hahead
  | expires =>
    simp only [delay]
    omega

/-- A scheduling step dispatches the uthread that waits, or its delay gets smaller if it is one on
its own kthread, and not greater if it is one on another. -/
theorem delay_schedule (hown : OwnSlots cpuids) (h : Sound cpuids s) {ending : Ending}
    {clock : Clock} {side : Side} (hat : At s.kthreadCpuMap u ⟨k, slotOf side⟩)
    (htime : timely flags s (.schedule j ending clock))
    (hstep : (gtthreads flags cpuids).step s (.schedule j ending clock) = some s') :
    At s'.kthreadCpuMap u ⟨j, .current⟩ ∨ ∃ side', At s'.kthreadCpuMap u ⟨k, slotOf side'⟩ ∧
      delay flags k side' s' + (if j = k then 1 else 0) ≤ delay flags k side s := by
  have h' := (h.step hstep).conserved
  obtain ⟨s₂, h₂, hretired, hpicked, hcredits⟩ := schedule_effect h hstep
  have hdecl₂ := hretired.declines h.conserved h₂ htime k
  have hshares : shares flags s' ≤ shares flags s :=
    (hpicked.shrinks h₂ h' hcredits).shares_le.trans hdecl₂.shares_le
  have hat₂ : At s₂.kthreadCpuMap u ⟨k, slotOf side⟩ :=
    hretired.stays h.conserved hat (by cases side <;> simp [slotOf])
  rcases hpicked.waiting hat₂ with hcur | ⟨hrun, hat'⟩ | ⟨rfl, rfl, hat'⟩
  · exact .inl hcur
  · right
    refine ⟨side, hat', ?_⟩
    refine delay_add_le side ?_ hshares
    have hdecl : Declines flags k s₂ s' :=
      hpicked.declines hown h₂ h' hcredits hrun hretired.not_current
    have hahead := hdecl.ahead_le
    by_cases hj : j = k
    · -- the slice of the old current uthread is used up, and there is a new one
      subst hj
      have hzero : idling j s' = 0 := if_pos (hrun rfl)
      have hused := hretired.ahead_add_one_le h.conserved h₂ htime
      rw [if_pos rfl]
      omega
    · have hsame : idling k s' = idling k s := idling_eq_of_current fun c =>
        (hpicked.current_iff h₂ (Ne.symm hj) c).trans
          (hretired.current_iff h.conserved (Ne.symm hj) c)
      have hahead₂ := hdecl₂.ahead_le
      rw [if_neg hj]
      omega
  · -- the runqueues are exchanged; from now on it waits for at most the shares of all
    right
    refine ⟨.active, hat', ?_⟩
    have hused := hretired.ahead_add_one_le h.conserved h₂ htime
    have hidling := idling_le_one k s'
    have hahead := ahead_le_shares flags k s'
    simp only [delay, if_true]
    omega

/-- A new uthread adds at most its share, once for the active runqueue and once for the time after
the exchange. -/
theorem delay_create (h : Sound cpuids s) {uGid : Fin maxUthreadGroups} {credits now : ℤ}
    (side : Side) (hstep : uthreadCreate uGid credits now s = some s') :
    delay flags k side s' ≤ delay flags k side s +
      2 * granted flags (.create uGid credits now) := by
  have h' : Conserved s' := h.conserved.uthreadCreate hstep
  obtain ⟨target, uNew, -, hrecords, htot, -, -, hmoved⟩ := h.conserved.placed.uthreadCreate hstep
  have hlive := live_of_new htot hmoved
  have hnot : s.kthreadTotUthreads ∉ live s := fun hmem => lt_irrefl _ (mem_live.mp hmem).1
  have hnew : share flags (s'.uthreads s.kthreadTotUthreads) =
      granted flags (.create uGid credits now) := by
    obtain ⟨slot, -, hs'⟩ := Option.bind_eq_some_iff.mp hstep
    obtain ⟨ctx, -, hs'⟩ := Option.bind_eq_some_iff.mp hs'
    obtain rfl := Option.some.inj hs'
    simp only [Function.update_self, share, granted, newUthread, max_self]
  -- the old uthreads are what and where they were
  have hold : ∀ v ∈ live s, s'.uthreads v = s.uthreads v ∧
      placeOf s'.kthreadCpuMap v = placeOf s.kthreadCpuMap v := by
    intro v hv
    have hne : v ≠ s.kthreadTotUthreads := (mem_live.mp hv).1.ne
    obtain ⟨place, hat, -⟩ := (mem_live_iff h.conserved).mp hv
    refine ⟨by rw [hrecords, Function.update_of_ne hne], ?_⟩
    rw [placeOf_eq h.conserved hat, placeOf_eq h' ((hmoved v place).mpr (by rwa [if_neg hne]))]
  have hshares : shares flags s' = granted flags (.create uGid credits now) + shares flags s := by
    rw [shares, hlive, Finset.sum_insert hnot, hnew, shares]
    exact congrArg _ (Finset.sum_congr rfl fun v hv => by rw [(hold v hv).1])
  have hahead : ahead flags k s' ≤ granted flags (.create uGid credits now) + ahead flags k s := by
    rw [ahead, hlive, Finset.sum_insert hnot, ahead, ← hnew]
    refine Nat.add_le_add (burden_le_share flags k _ _) (Finset.sum_le_sum fun v hv => ?_)
    rw [(hold v hv).1, (hold v hv).2]
  have hidling : idling k s' = idling k s := by
    refine idling_eq_of_current fun c => ?_
    rw [hmoved]
    split
    · next hc =>
      subst hc
      refine iff_of_false (fun heq => ?_) (h.conserved.placed.not_at_tot _)
      exact absurd (congrArg Place.slot heq) (by simp)
    · exact Iff.rfl
  cases side with
  | active =>
    simp only [delay]
    omega
  | expires =>
    simp only [delay]
    omega

/-- The uthread waits on the kthread at slot `k`, for at most `n` calls of its scheduler. -/
def Waits (flags : Flags) (cpuids : Fin gtMaxCores → Option ℕ) (k : Fin gtMaxCores) (u n : ℕ)
    (s : State) : Prop :=
  Sound cpuids s ∧ ∃ side, At s.kthreadCpuMap u ⟨k, slotOf side⟩ ∧ n = delay flags k side s

theorem Waits.step {n : ℕ} {l : Label} (hown : OwnSlots cpuids) (h : Waits flags cpuids k u n s)
    (htime : timely flags s l) (hstep : (gtthreads flags cpuids).step s l = some s') :
    (∃ j, At s'.kthreadCpuMap u ⟨j, .current⟩) ∨
      ∃ m, Waits flags cpuids k u m s' ∧ m + call k l ≤ n + 2 * granted flags l := by
  obtain ⟨hs, side, hat, rfl⟩ := h
  have hs' := hs.step hstep
  cases l with
  | create uGid credits now =>
    obtain ⟨target, uNew, -, -, -, -, -, hmoved⟩ := hs.conserved.placed.uthreadCreate hstep
    have hne : u ≠ s.kthreadTotUthreads := (hs.conserved.created u _ hat).ne
    refine .inr ⟨_, ⟨hs', side, (hmoved u _).mpr (by rwa [if_neg hne]), rfl⟩, ?_⟩
    exact delay_create hs side hstep
  | schedule j ending clock =>
    rcases delay_schedule hown hs hat htime hstep with hcur | ⟨side', hat', hle⟩
    · exact .inl ⟨j, hcur⟩
    · exact .inr ⟨_, ⟨hs', side', hat', rfl⟩, hle⟩

/-- **Nobody starves.** Take any state of a run, in either mode and with or without load balancing,
and a uthread that waits in a runqueue of a kthread. Whatever the steps of all kthreads from then
on, and whichever uthreads are created meanwhile: when the scheduler of the kthread has been called
more often than twice the shares of all live and new uthreads, and two, then the uthread has been
dispatched, by this kthread or by one that has stolen it. In priority mode every share is one. -/
theorem waiting_uthread_dispatched (flags : Flags) (cpuids : Fin gtMaxCores → Option ℕ)
    (hown : OwnSlots cpuids) (s : State)
    (hr : (gtthreads flags cpuids).Reachable System.anyStep s) (k : Fin gtMaxCores) (u : ℕ)
    (side : Side) (hat : At s.kthreadCpuMap u ⟨k, slotOf side⟩) (ls : List Label) (s' : State)
    (hrun : (gtthreads flags cpuids).guardedRun (timely flags) s ls = some s')
    (hcalls : 2 * (shares flags s + System.total (granted flags) ls) + 2 <
      System.total (call k) ls) :
    ∃ ls₁ ls₂ s₁ j, ls = ls₁ ++ ls₂ ∧
      (gtthreads flags cpuids).guardedRun (timely flags) s ls₁ = some s₁ ∧
      At s₁.kthreadCpuMap u ⟨j, .current⟩ := by
  have hwaits : Waits flags cpuids k u (delay flags k side s) s :=
    ⟨sound_of_reachable hr, side, hat, rfl⟩
  -- the delay at the beginning is what the shares allow
  have hdelay : delay flags k side s ≤ 2 * shares flags s + 2 := by
    have hahead := ahead_le_shares flags k s
    have hidling := idling_le_one k s
    cases side with
    | active =>
      simp only [delay]
      omega
    | expires =>
      simp only [delay]
      omega
  have hcost : delay flags k side s + System.total (fun l => 2 * granted flags l) ls <
      System.total (call k) ls := by
    rw [System.total_two_mul]
    omega
  -- every call costs one, and only a creation gives something back
  obtain ⟨ls₁, ls₂, s₁, hls, hrun₁, j, hcur⟩ := System.exists_of_budget
    (fun n s l s' h htime hstep => h.step hown htime hstep) hwaits hrun hcost
  exact ⟨ls₁, ls₂, s₁, j, hls, hrun₁, hcur⟩

/-- In credit mode, with two kthreads and four uthreads. On the first kthread a uthread waits behind
one of a lower group, which goes back to the active runqueue when it is preempted. Nineteen calls
are enough. -/
theorem waiting_uthread_dispatched_pair :
    ∃ s, (gtthreads ⟨true, true, true⟩ pairCpuids).Reachable System.anyStep s ∧
      At s.kthreadCpuMap 3 ⟨0, slotOf .active⟩ ∧ shares ⟨true, true, true⟩ s = 8 ∧
      ∃ ls₁ s₁ j, (gtthreads ⟨true, true, true⟩ pairCpuids).guardedRun (timely ⟨true, true, true⟩)
          s ls₁ = some s₁ ∧ ls₁.length ≤ 19 ∧ At s₁.kthreadCpuMap 3 ⟨j, .current⟩ := by
  have hrun : ((gtthreads ⟨true, true, true⟩ pairCpuids).guardedRun System.anyStep
      (gtthreads ⟨true, true, true⟩ pairCpuids).init
      [.create 0 10 0, .create 0 10 0, .create 1 10 0, .create 1 10 0]).any
      (fun s => (s.kthreadCpuMap 0).any (fun ctx =>
          decide (3 ∈ ctx.krunqueue.activeRunq.queue defaultUthreadPriority 1)) &&
        decide (shares ⟨true, true, true⟩ s = 8) &&
        ((gtthreads ⟨true, true, true⟩ pairCpuids).guardedRun (timely ⟨true, true, true⟩) s
          (List.replicate 19 (.schedule 0 .preempted ⟨0, 0, 0⟩))).isSome) = true := by
    decide +kernel
  obtain ⟨s, hr, hs⟩ := System.Reachable.of_any hrun
  obtain ⟨hs, hcalls⟩ := Bool.and_eq_true_iff.mp hs
  obtain ⟨hqueue, hshares⟩ := Bool.and_eq_true_iff.mp hs
  obtain ⟨ctx, hctx, hmem⟩ := (Option.any_eq_true _ _).mp hqueue
  obtain ⟨s', hcalls⟩ := Option.isSome_iff_exists.mp hcalls
  have hat : At s.kthreadCpuMap 3 ⟨0, slotOf .active⟩ := ⟨ctx, hctx, _, _, of_decide_eq_true hmem⟩
  replace hshares := of_decide_eq_true hshares
  obtain ⟨ls₁, ls₂, s₁, j, hls, hrun₁, hcur⟩ := waiting_uthread_dispatched _ _ ownSlots_pairCpuids s
    hr 0 3 .active hat _ s' hcalls (by rw [hshares]; decide)
  refine ⟨s, hr, hat, hshares, ls₁, s₁, j, hrun₁, ?_, hcur⟩
  have hlength := congrArg List.length hls
  rw [List.length_replicate, List.length_append] at hlength
  omega

end Starvation

end GTThreads

end OSLab
