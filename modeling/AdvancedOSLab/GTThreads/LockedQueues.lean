import AdvancedOSLab.GTThreads.Linked
import AdvancedOSLab.GTThreads.Spinlock

/-!
# The queues of a kthread under its lock

`kthread_runqlock` protects the two runqueues and the zombie queue of a kthread. Other kthreads put
uthreads into these queues (`uthread_create`) and take them out (the steal loop), so their sections
may overlap with those of the owner. This module has the sections statement by statement, on the
linked queues of `LinkedSchedule.lean`, executed by threads under the spin lock of `Spinlock.lean`.

* `addBody`, `remStmts` are the statements of `__add_to_runqueue` and `__rem_from_runqueue`.
  `runBody_addBody` and `runBody_remStmts` say that without interruption they are the functions of
  `LinkedSchedule.lean`.
* A `Job` is what a thread does in one section: `add_to_runqueue`, the insertion into the zombie
  queue, the section in which a kthread takes the best uthread out of a runqueue, and the section in
  which a thief puts the uthread that it has stolen into its own runqueue and takes it out again.
  `take` looks at the mask again after it has the lock, and does nothing if the runqueue is empty.
* Every thread has the uthreads that it has created or taken out, and not put into a queue yet
  (`hand`). This is not part of the program. A thread puts a uthread into a queue only if it has it.

`queues_kept_under_lock` is the result: for any number of threads, and whatever the interleaving of
their statements, no statement fails, and whenever the lock is free the queues are well linked, the
masks and counters of the runqueues are exact, and every uthread is in one place.
-/

namespace OSLab

namespace GTThreads

namespace LockedQueues

open BitMask TailQueue Linked Spinlock

/-! ### The statements -/

/-- A statement on the masks and counters of a runqueue. -/
def onRunq (runq : RunqPtr) (f : Runq → Runq) (q : Queues) : Option Queues :=
  some { q with runqs := Function.update q.runqs runq (f (q.runqs runq)) }

def setLinks (q : Queues) (links : Links Head ℕ) : Queues := { q with links := links }

/-- A section on the links. -/
def onLinks (body : Body (Links Head ℕ)) : Body Queues := onPart Queues.links setLinks body

theorem runBody_onLinks (body : Body (Links Head ℕ)) (q : Queues) :
    runBody (onLinks body) q = (runBody body q.links).map (setLinks q) :=
  runBody_onPart Queues.links setLinks (fun _ _ => rfl) (fun _ _ _ => rfl) (fun _ => rfl) body q

section Statements

variable (uthreads : ℕ → Uthread) (runq : RunqPtr)

/-- The statements of `__add_to_runqueue`. -/
def addBody (uElem : ℕ) : Body Queues :=
  let uprio := (uthreads uElem).uthreadPriority
  let ugroup := (uthreads uElem).uthreadGid
  onLinks (Links.insertTailBody (.group runq uprio ugroup) uElem) ++
    [onRunq runq fun r => { r with
        groupMask := Function.update r.groupMask uprio
          (if isBitSet (r.groupMask uprio) ugroup then r.groupMask uprio
            else setBit (r.groupMask uprio) ugroup) },
      onRunq runq fun r => { r with uthreadTot := r.uthreadTot + 1 },
      onRunq runq fun r => { r with
        uthreadPrioTot := Function.update r.uthreadPrioTot uprio (r.uthreadPrioTot uprio + 1) },
      onRunq runq fun r => { r with
        uthreadMask :=
          if isBitSet r.uthreadMask uprio then r.uthreadMask else setBit r.uthreadMask uprio },
      onRunq runq fun r => { r with
        uthreadGroupTot :=
          Function.update r.uthreadGroupTot ugroup (r.uthreadGroupTot ugroup + 1) },
      onRunq runq fun r => { r with
        uthreadGroupMask := Function.update r.uthreadGroupMask ugroup
          (if isBitSet (r.uthreadGroupMask ugroup) uprio then r.uthreadGroupMask ugroup
            else setBit (r.uthreadGroupMask ugroup) uprio) }]

theorem runBody_addBody (q : Queues) (uElem : ℕ) :
    runBody (addBody uthreads runq uElem) q = some (q.addToRunqueue uthreads runq uElem) := by
  simp only [addBody, runBody_append, runBody_onLinks, Links.runBody_insertTailBody,
    Option.map_some, Option.bind_some, runBody_cons, runBody_nil, onRunq, setLinks,
    Function.update_self, Function.update_idem]
  rfl

/-- The last statement of `__rem_from_runqueue`, with its assertion. -/
def decGroupTot (uElem : ℕ) (q : Queues) : Option Queues :=
  let uprio := (uthreads uElem).uthreadPriority
  let ugroup := (uthreads uElem).uthreadGid
  let groupTot := (q.runqs runq).uthreadGroupTot ugroup - 1
  if groupTot = 0 ∧ ¬ q.links.isEmpty (.group runq uprio ugroup) then none
  else onRunq runq (fun r => { r with
    uthreadGroupTot := Function.update r.uthreadGroupTot ugroup groupTot
    uthreadGroupMask := Function.update r.uthreadGroupMask ugroup
      (if groupTot = 0 then resetBit (r.uthreadGroupMask ugroup) uprio
        else r.uthreadGroupMask ugroup) }) q

/-- The statements of `__rem_from_runqueue`, for the uthread in a variable. -/
def remStmts : List (ℕ → Queues → Option Queues) :=
  [fun uElem q => some { q with
      links := q.links.bypassPrev
        (.group runq (uthreads uElem).uthreadPriority (uthreads uElem).uthreadGid) uElem },
    fun uElem q => some { q with links := q.links.bypassNext uElem },
    fun uElem q =>
      let uprio := (uthreads uElem).uthreadPriority
      let ugroup := (uthreads uElem).uthreadGid
      onRunq runq (fun r => { r with
        groupMask := Function.update r.groupMask uprio
          (if q.links.isEmpty (.group runq uprio ugroup) then resetBit (r.groupMask uprio) ugroup
            else r.groupMask uprio) }) q,
    fun _ => onRunq runq fun r => { r with uthreadTot := r.uthreadTot - 1 },
    fun uElem =>
      let uprio := (uthreads uElem).uthreadPriority
      onRunq runq fun r => { r with
        uthreadPrioTot := Function.update r.uthreadPrioTot uprio (r.uthreadPrioTot uprio - 1)
        uthreadMask := if r.uthreadPrioTot uprio - 1 = 0 then resetBit r.uthreadMask uprio
          else r.uthreadMask },
    decGroupTot uthreads runq]

theorem runBody_remStmts (q : Queues) (uElem : ℕ) :
    runBody ((remStmts uthreads runq).map fun stmt => stmt uElem) q =
      q.remFromRunqueue uthreads runq uElem := by
  simp only [remStmts, List.map_cons, List.map_nil, runBody_cons, runBody_nil, Option.bind_some,
    Links.bypassNext_bypassPrev, onRunq, Function.update_self, Function.update_idem, decGroupTot,
    Queues.remFromRunqueue]
  split
  · rfl
  · rfl

end Statements

/-! ### The sections -/

variable {ι : Type} [DecidableEq ι]

/-- The queues, what each thread has chosen in its section (`u_obj`), and the uthreads that it
has. -/
structure Shared (ι : Type) where
  queues : Queues
  uObj : ι → Option ℕ
  hand : ι → List ℕ

/-- What a thread does in one section. -/
inductive Job where
  /-- `add_to_runqueue` -/
  | add (index : Bool) (u : ℕ)
  /-- `TAILQ_INSERT_TAIL` into the zombie queue -/
  | bury (u : ℕ)
  /-- the best uthread is taken out of a runqueue, if there is one -/
  | take (index : Bool)
  /-- `__add_to_runqueue` and `__rem_from_runqueue` of a stolen uthread -/
  | pass (index : Bool) (u : ℕ)

def Shared.setQueues (m : Shared ι) (queues : Queues) : Shared ι := { m with queues := queues }

/-- A section on the queues. -/
def onQueues (body : Body Queues) : Body (Shared ι) := onPart Shared.queues Shared.setQueues body

/-- A statement on the queues for the uthread that was chosen. -/
def onChosen (t : ι) (stmt : ℕ → Queues → Option Queues) (m : Shared ι) : Option (Shared ι) :=
  match m.uObj t with
  | none => some m
  | some u => (stmt u m.queues).map m.setQueues

/-- Look at the mask, and if it is not empty scan the runqueue for the best uthread. -/
def choose (t : ι) (runq : RunqPtr) (m : Shared ι) : Option (Shared ι) :=
  if (m.queues.runqs runq).uthreadMask = 0 then
    some { m with uObj := Function.update m.uObj t none }
  else
    (m.queues.bestUthread runq).map fun u => { m with uObj := Function.update m.uObj t (some u) }

/-- The uthread is not the thread's any more. -/
def release (t : ι) (u : ℕ) (m : Shared ι) : Option (Shared ι) :=
  some { m with hand := Function.update m.hand t ((m.hand t).erase u) }

/-- The uthread is the thread's again. -/
def regain (t : ι) (u : ℕ) (m : Shared ι) : Option (Shared ι) :=
  some { m with hand := Function.update m.hand t (u :: m.hand t) }

/-- The uthread that was chosen is the thread's. -/
def pocket (t : ι) (m : Shared ι) : Option (Shared ι) :=
  some { m with hand := Function.update m.hand t ((m.uObj t).toList ++ m.hand t) }

/-- The sections on the queues of the kthread at slot `k`, executed by thread `t`. -/
def Job.body (uthreads : ℕ → Uthread) (k : Fin gtMaxCores) (t : ι) : Job → Body (Shared ι)
  | .add index u => onQueues (addBody uthreads ⟨k, index⟩ u) ++ [release t u]
  | .bury u => onQueues (onLinks (Links.insertTailBody (.zombies k) u)) ++ [release t u]
  | .take index =>
    choose t ⟨k, index⟩ :: ((remStmts uthreads ⟨k, index⟩).map (onChosen t) ++ [pocket t])
  | .pass index u =>
    -- `goto find_active_obj` keeps the lock of the thief over both calls
    (onQueues (addBody uthreads ⟨k, index⟩ u) ++ [release t u]) ++
      (onQueues ((remStmts uthreads ⟨k, index⟩).map fun stmt => stmt u) ++ [regain t u])

/-- A thread puts a uthread into a queue only if it has it. -/
def Job.Ready (t : ι) (m : Shared ι) : Job → Prop
  | .add _ u | .bury u | .pass _ u => u ∈ m.hand t
  | .take _ => True

section Run

variable (uthreads : ℕ → Uthread) (t : ι)

omit [DecidableEq ι] in
theorem runBody_onQueues (body : Body Queues) (m : Shared ι) :
    runBody (onQueues body) m = (runBody body m.queues).map m.setQueues :=
  runBody_onPart Shared.queues Shared.setQueues (fun _ _ => rfl) (fun _ _ _ => rfl) (fun _ => rfl)
    body m

omit [DecidableEq ι] in
theorem runBody_onChosen {m : Shared ι} {u : ℕ} (hu : m.uObj t = some u)
    (stmts : List (ℕ → Queues → Option Queues)) :
    runBody (stmts.map (onChosen t)) m =
      (runBody (stmts.map fun stmt => stmt u) m.queues).map m.setQueues := by
  induction stmts generalizing m with
  | nil => rfl
  | cons stmt stmts ih =>
    rw [List.map_cons, runBody_cons, List.map_cons, runBody_cons]
    simp only [onChosen, hu]
    cases hstmt : stmt u m.queues with
    | none => rfl
    | some queues =>
      rw [Option.map_some, Option.bind_some, Option.bind_some]
      exact ih hu

omit [DecidableEq ι] in
/-- Without a choice nothing is done. -/
theorem runBody_onChosen_none {m : Shared ι} (hnone : m.uObj t = none)
    (stmts : List (ℕ → Queues → Option Queues)) :
    runBody (stmts.map (onChosen t)) m = some m := by
  induction stmts with
  | nil => rfl
  | cons stmt stmts ih =>
    rw [List.map_cons, runBody_cons]
    simp only [onChosen, hnone]
    exact ih

/-- What `add_to_runqueue` does. -/
theorem runBody_add (k : Fin gtMaxCores) (index : Bool) (u : ℕ) (m : Shared ι) :
    runBody (Job.body uthreads k t (.add index u)) m = some
      { m with
        queues := m.queues.addToRunqueue uthreads ⟨k, index⟩ u
        hand := Function.update m.hand t ((m.hand t).erase u) } := by
  simp only [Job.body, runBody_append, runBody_onQueues, runBody_addBody, Option.map_some,
    Option.bind_some, runBody_cons, runBody_nil, release, Shared.setQueues]

/-- What the insertion into the zombie queue does. -/
theorem runBody_bury (k : Fin gtMaxCores) (u : ℕ) (m : Shared ι) :
    runBody (Job.body uthreads k t (.bury u)) m = some
      { m with
        queues := { m.queues with links := m.queues.links.insertTail (.zombies k) u }
        hand := Function.update m.hand t ((m.hand t).erase u) } := by
  simp only [Job.body, runBody_append, runBody_onQueues, runBody_onLinks,
    Links.runBody_insertTailBody, Option.map_some, Option.bind_some, runBody_cons, runBody_nil,
    release, setLinks, Shared.setQueues]

/-- What taking from an empty runqueue does. -/
theorem runBody_take_empty {k : Fin gtMaxCores} {index : Bool} {m : Shared ι}
    (hempty : (m.queues.runqs ⟨k, index⟩).uthreadMask = 0) :
    runBody (Job.body uthreads k t (.take index)) m =
      some { m with uObj := Function.update m.uObj t none } := by
  rw [Job.body, runBody_cons, choose, if_pos hempty, Option.bind_some, runBody_append,
    runBody_onChosen_none t (Function.update_self ..), Option.bind_some, runBody_cons]
  simp [pocket]

/-- What taking the best uthread does. -/
theorem runBody_take {k : Fin gtMaxCores} {index : Bool} {m : Shared ι} {u : ℕ} {queues : Queues}
    (hmask : (m.queues.runqs ⟨k, index⟩).uthreadMask ≠ 0)
    (htake : m.queues.takeBest uthreads ⟨k, index⟩ = some (u, queues)) :
    runBody (Job.body uthreads k t (.take index)) m = some
      { queues := queues
        uObj := Function.update m.uObj t (some u)
        hand := Function.update m.hand t (u :: m.hand t) } := by
  obtain ⟨v, hbest, hrem⟩ := Option.bind_eq_some_iff.mp htake
  obtain ⟨queues', hqueues, hpair⟩ := Option.bind_eq_some_iff.mp hrem
  obtain ⟨rfl, rfl⟩ := Prod.mk.inj (Option.some.inj hpair)
  rw [Job.body, runBody_cons, choose, if_neg hmask, hbest, Option.map_some, Option.bind_some,
    runBody_append, runBody_onChosen t (Function.update_self ..), runBody_remStmts, hqueues,
    Option.map_some, Option.bind_some, runBody_cons]
  simp [pocket, Shared.setQueues]

/-- What the section of a thief does after its insertion. -/
theorem runBody_pass {k : Fin gtMaxCores} {index : Bool} {u : ℕ} {m m' : Shared ι}
    {queues : Queues} (hadd : runBody (Job.body uthreads k t (.add index u)) m = some m')
    (hrem : m'.queues.remFromRunqueue uthreads ⟨k, index⟩ u = some queues) :
    runBody (Job.body uthreads k t (.pass index u)) m = some
      { m' with
        queues := queues
        hand := Function.update m'.hand t (u :: m'.hand t) } := by
  rw [Job.body] at hadd
  rw [Job.body, runBody_append, hadd, Option.bind_some, runBody_append, runBody_onQueues,
    runBody_remStmts, hrem, Option.map_some, Option.bind_some, runBody_cons]
  rfl

end Run

/-! ### What the sections keep -/

/-- The queues are linked as `lists`, the runqueues of the kthread know their members, and each of
the uthreads is in one queue or in one hand. -/
structure Kept (uthreads : ℕ → Uthread) (k : Fin gtMaxCores) (all : ℕ → Prop) (m : Shared ι)
    (lists : Head → List ℕ) : Prop where
  linked : Represents m.queues.links lists
  books : ∀ index, ∃ members,
    Runqueue.Represents uthreads (m.queues.runqueue lists ⟨k, index⟩) members
  handNodup : ∀ t, (m.hand t).Nodup
  handUnique : ∀ t t' u, u ∈ m.hand t → u ∈ m.hand t' → t = t'
  handQueue : ∀ t u, u ∈ m.hand t → ∀ head, u ∉ lists head
  complete : ∀ u, all u ↔ (∃ head, u ∈ lists head) ∨ ∃ t, u ∈ m.hand t

section Places

variable {uthreads : ℕ → Uthread} {runq : RunqPtr} {q q' : Queues} {lists lists' : Head → List ℕ}
  {members members' : List ℕ} {v : ℕ}

/-- The uthread is in a queue that does not belong to the runqueue. -/
def Elsewhere (runq : RunqPtr) (lists : Head → List ℕ) (v : ℕ) : Prop :=
  (∃ r p g, r ≠ runq ∧ v ∈ lists (.group r p g)) ∨ ∃ k, v ∈ lists (.zombies k)

/-- A uthread in a queue is a member of the runqueue, or elsewhere. -/
theorem exists_mem_iff (h : Runqueue.Represents uthreads (q.runqueue lists runq) members) :
    (∃ head, v ∈ lists head) ↔ v ∈ members ∨ Elsewhere runq lists v := by
  constructor
  · rintro ⟨head, hv⟩
    cases head with
    | group r p g =>
      by_cases hr : r = runq
      · subst hr
        exact .inl (h.mem_iff.mp ⟨p, g, hv⟩)
      · exact .inr (.inl ⟨r, p, g, hr, hv⟩)
    | zombies k => exact .inr (.inr ⟨k, hv⟩)
  · rintro (hv | ⟨r, p, g, -, hv⟩ | ⟨k, hv⟩)
    · obtain ⟨p, g, hv⟩ := h.mem_iff.mpr hv
      exact ⟨.group runq p g, hv⟩
    · exact ⟨_, hv⟩
    · exact ⟨_, hv⟩

theorem elsewhere_iff (h : OnlyRunq runq q lists q' lists') :
    Elsewhere runq lists' v ↔ Elsewhere runq lists v := by
  unfold Elsewhere
  constructor
  · rintro (⟨r, p, g, hr, hv⟩ | ⟨k, hv⟩)
    · exact .inl ⟨r, p, g, hr, h.group r p g hr ▸ hv⟩
    · exact .inr ⟨k, h.zombies k ▸ hv⟩
  · rintro (⟨r, p, g, hr, hv⟩ | ⟨k, hv⟩)
    · exact .inl ⟨r, p, g, hr, (h.group r p g hr).symm ▸ hv⟩
    · exact .inr ⟨k, (h.zombies k).symm ▸ hv⟩

end Places

namespace Kept

variable {uthreads : ℕ → Uthread} {k : Fin gtMaxCores} {all : ℕ → Prop} {m : Shared ι}
  {lists lists' : Head → List ℕ} {t : ι} {u : ℕ} {q' : Queues}

/-- A uthread goes from the hand of a thread into a queue. -/
theorem put (h : Kept uthreads k all m lists) (hu : u ∈ m.hand t)
    (hlinked : Represents q'.links lists')
    (hbooks : ∀ index, ∃ members,
      Runqueue.Represents uthreads (q'.runqueue lists' ⟨k, index⟩) members)
    (hmem : ∀ v, (∃ head, v ∈ lists' head) ↔ (∃ head, v ∈ lists head) ∨ v = u) :
    Kept uthreads k all
      { m with queues := q', hand := Function.update m.hand t ((m.hand t).erase u) } lists' := by
  -- what a thread still has, it had before, and it is not the uthread
  have hhand : ∀ t' v, v ∈ Function.update m.hand t ((m.hand t).erase u) t' ↔
      v ∈ m.hand t' ∧ v ≠ u := by
    intro t' v
    by_cases ht : t' = t
    · subst ht
      rw [Function.update_self, (h.handNodup t').mem_erase_iff, and_comm]
    · rw [Function.update_of_ne ht]
      refine ⟨fun hv => ⟨hv, ?_⟩, And.left⟩
      rintro rfl
      exact ht (h.handUnique t' t v hv hu)
  refine ⟨hlinked, hbooks, ?_, ?_, ?_, ?_⟩
  · exact (Function.forall_update_iff m.hand fun _ hand => hand.Nodup).mpr
      ⟨(h.handNodup t).erase u, fun t' _ => h.handNodup t'⟩
  · intro t₁ t₂ v hv₁ hv₂
    exact h.handUnique t₁ t₂ v ((hhand t₁ v).mp hv₁).1 ((hhand t₂ v).mp hv₂).1
  · intro t' v hv head hhead
    obtain ⟨hold, hne⟩ := (hhand t' v).mp hv
    rcases (hmem v).mp ⟨head, hhead⟩ with ⟨head', hhead'⟩ | heq
    · exact h.handQueue t' v hold head' hhead'
    · exact hne heq
  · intro v
    rw [h.complete v, hmem v]
    constructor
    · rintro (hqueue | ⟨t', hv⟩)
      · exact .inl (.inl hqueue)
      · by_cases hvu : v = u
        · exact .inl (.inr hvu)
        · exact .inr ⟨t', (hhand t' v).mpr ⟨hv, hvu⟩⟩
    · rintro ((hqueue | rfl) | ⟨t', hv⟩)
      · exact .inl hqueue
      · exact .inr ⟨t, hu⟩
      · exact .inr ⟨t', ((hhand t' v).mp hv).1⟩

/-- A uthread goes from a queue into the hand of a thread. -/
theorem got (h : Kept uthreads k all m lists) (hu : ∃ head, u ∈ lists head)
    (hlinked : Represents q'.links lists')
    (hbooks : ∀ index, ∃ members,
      Runqueue.Represents uthreads (q'.runqueue lists' ⟨k, index⟩) members)
    (hmem : ∀ v, (∃ head, v ∈ lists' head) ↔ (∃ head, v ∈ lists head) ∧ v ≠ u)
    (uObj : ι → Option ℕ) :
    Kept uthreads k all
      { queues := q', uObj := uObj, hand := Function.update m.hand t (u :: m.hand t) } lists' := by
  -- nobody had the uthread
  have hnone : ∀ t', u ∉ m.hand t' := by
    intro t' hu'
    obtain ⟨head, hhead⟩ := hu
    exact h.handQueue t' u hu' head hhead
  have hhand : ∀ t' v, v ∈ Function.update m.hand t (u :: m.hand t) t' ↔
      v ∈ m.hand t' ∨ v = u ∧ t' = t := by
    intro t' v
    by_cases ht : t' = t
    · subst ht
      rw [Function.update_self, List.mem_cons, or_comm]
      simp
    · rw [Function.update_of_ne ht]
      simp [ht]
  refine ⟨hlinked, hbooks, ?_, ?_, ?_, ?_⟩
  · exact (Function.forall_update_iff m.hand fun _ hand => hand.Nodup).mpr
      ⟨List.nodup_cons.mpr ⟨hnone t, h.handNodup t⟩, fun t' _ => h.handNodup t'⟩
  · intro t₁ t₂ v hv₁ hv₂
    rcases (hhand t₁ v).mp hv₁ with hold₁ | ⟨rfl, rfl⟩
    · rcases (hhand t₂ v).mp hv₂ with hold₂ | ⟨rfl, -⟩
      · exact h.handUnique t₁ t₂ v hold₁ hold₂
      · exact absurd hold₁ (hnone t₁)
    · rcases (hhand t₂ v).mp hv₂ with hold₂ | ⟨-, rfl⟩
      · exact absurd hold₂ (hnone t₂)
      · rfl
  · intro t' v hv head hhead
    obtain ⟨⟨head', hhead'⟩, hne⟩ := (hmem v).mp ⟨head, hhead⟩
    rcases (hhand t' v).mp hv with hold | ⟨rfl, -⟩
    · exact h.handQueue t' v hold head' hhead'
    · exact hne rfl
  · intro v
    rw [h.complete v, hmem v]
    constructor
    · rintro (hqueue | ⟨t', hv⟩)
      · by_cases hvu : v = u
        · exact .inr ⟨t, (hhand t v).mpr (.inr ⟨hvu, rfl⟩)⟩
        · exact .inl ⟨hqueue, hvu⟩
      · exact .inr ⟨t', (hhand t' v).mpr (.inl hv)⟩
    · rintro (⟨hqueue, -⟩ | ⟨t', hv⟩)
      · exact .inl hqueue
      · rcases (hhand t' v).mp hv with hv | ⟨rfl, -⟩
        · exact .inr ⟨t', hv⟩
        · exact .inl hu

omit [DecidableEq ι] in
/-- A change of one runqueue of the kthread keeps the books of the other one. -/
theorem books_of_only (h : Kept uthreads k all m lists) {index : Bool} {members : List ℕ}
    (honly : OnlyRunq ⟨k, index⟩ m.queues lists q' lists')
    (hmembers : Runqueue.Represents uthreads (q'.runqueue lists' ⟨k, index⟩) members)
    (index' : Bool) :
    ∃ members, Runqueue.Represents uthreads (q'.runqueue lists' ⟨k, index'⟩) members := by
  by_cases hindex : index' = index
  · subst hindex
    exact ⟨members, hmembers⟩
  · rw [honly.runqueue (by simp [hindex])]
    exact h.books index'

/-- `add_to_runqueue` keeps the queues, and the uthread is in the runqueue. -/
theorem add (h : Kept uthreads k all m lists) (hu : u ∈ m.hand t) (index : Bool) :
    ∃ m' lists', runBody (Job.body uthreads k t (.add index u)) m = some m' ∧
      Kept uthreads k all m' lists' ∧ ∃ members,
        Runqueue.Represents uthreads (m'.queues.runqueue lists' ⟨k, index⟩) members ∧
          u ∈ members := by
  have hnew := h.handQueue t u hu
  obtain ⟨members, hmembers⟩ := h.books index
  obtain ⟨lists', hlinked, honly, hrunq⟩ := addToRunqueue_spec uthreads h.linked hnew ⟨k, index⟩
  -- a uthread in a hand is in no queue, so the insertion is a proper one
  have hmembers' : Runqueue.Represents uthreads
      ((m.queues.addToRunqueue uthreads ⟨k, index⟩ u).runqueue lists' ⟨k, index⟩)
      (members ++ [u]) := by
    rw [hrunq]
    refine hmembers.add ?_
    intro hmem
    obtain ⟨head, hhead⟩ := (exists_mem_iff hmembers).mpr (.inl hmem)
    exact hnew head hhead
  refine ⟨_, lists', runBody_add uthreads t k index u m,
    h.put hu hlinked (h.books_of_only honly hmembers') ?_, _, hmembers',
    List.mem_append_right _ (List.mem_singleton.mpr rfl)⟩
  intro v
  rw [exists_mem_iff hmembers', exists_mem_iff hmembers, elsewhere_iff honly, List.mem_append,
    List.mem_singleton, or_right_comm]

/-- The insertion into the zombie queue keeps the queues. -/
theorem bury (h : Kept uthreads k all m lists) (hu : u ∈ m.hand t) :
    ∃ m' lists', runBody (Job.body uthreads k t (.bury u)) m = some m' ∧
      Kept uthreads k all m' lists' := by
  have hnew := h.handQueue t u hu
  refine ⟨_, _, runBody_bury uthreads t k u m,
    h.put hu (h.linked.insertTail hnew (.zombies k)) ?_ ?_⟩
  · -- no list of a runqueue changes
    intro index
    obtain ⟨members, hmembers⟩ := h.books index
    exact ⟨members, hmembers⟩
  · intro v
    constructor
    · rintro ⟨head, hv⟩
      by_cases hhead : head = .zombies k
      · subst hhead
        rw [Function.update_self, List.mem_append, List.mem_singleton] at hv
        rcases hv with hv | rfl
        · exact .inl ⟨_, hv⟩
        · exact .inr rfl
      · rw [Function.update_of_ne hhead] at hv
        exact .inl ⟨head, hv⟩
    · rintro (⟨head, hv⟩ | rfl)
      · refine ⟨head, ?_⟩
        by_cases hhead : head = .zombies k
        · subst hhead
          rw [Function.update_self]
          exact List.mem_append_left _ hv
        · rwa [Function.update_of_ne hhead]
      · refine ⟨.zombies k, ?_⟩
        rw [Function.update_self]
        exact List.mem_append_right _ (List.mem_singleton.mpr rfl)

/-- Taking a member out of a runqueue of the kthread keeps the queues. -/
theorem rem (h : Kept uthreads k all m lists) {index : Bool} {members : List ℕ}
    (hmembers : Runqueue.Represents uthreads (m.queues.runqueue lists ⟨k, index⟩) members)
    (hu : u ∈ members) (t : ι) (uObj : ι → Option ℕ) :
    ∃ q' lists', m.queues.remFromRunqueue uthreads ⟨k, index⟩ u = some q' ∧
      Kept uthreads k all
        { queues := q', uObj := uObj, hand := Function.update m.hand t (u :: m.hand t) }
        lists' := by
  -- the list model says which members are left
  obtain ⟨runq', hrem, hmembers'⟩ := hmembers.rem hu
  obtain ⟨q', lists', hrem', hlinked, honly, hrunq, hgone⟩ :=
    remFromRunqueue_spec h.linked ((hmembers.mem_queue _ _).mpr ⟨hu, rfl, rfl⟩) hrem
  rw [← hrunq] at hmembers'
  refine ⟨q', lists', hrem', h.got ((exists_mem_iff hmembers).mpr (.inl hu)) hlinked
    (h.books_of_only honly hmembers') ?_ _⟩
  intro w
  constructor
  · rintro ⟨head, hw⟩
    have hne : w ≠ u := by
      rintro rfl
      exact hgone head hw
    rcases (exists_mem_iff hmembers').mp ⟨head, hw⟩ with hmem | helse
    · exact ⟨(exists_mem_iff hmembers).mpr (.inl (List.mem_of_mem_erase hmem)), hne⟩
    · exact ⟨(exists_mem_iff hmembers).mpr (.inr ((elsewhere_iff honly).mp helse)), hne⟩
  · rintro ⟨hw, hne⟩
    refine (exists_mem_iff hmembers').mpr ?_
    rcases (exists_mem_iff hmembers).mp hw with hmem | helse
    · exact .inl ((List.mem_erase_of_ne hne).mpr hmem)
    · exact .inr ((elsewhere_iff honly).mpr helse)

/-- Taking the best uthread, or finding that there is none, keeps the queues. -/
theorem take (h : Kept uthreads k all m lists) (t : ι) (index : Bool) :
    ∃ m' lists', runBody (Job.body uthreads k t (.take index)) m = some m' ∧
      Kept uthreads k all m' lists' := by
  obtain ⟨members, hmembers⟩ := h.books index
  have hzero : (m.queues.runqs ⟨k, index⟩).uthreadMask = 0 ↔ members = [] :=
    hmembers.uthreadMask_eq_zero_iff
  by_cases hempty : members = []
  · exact ⟨_, lists, runBody_take_empty uthreads t (hzero.mpr hempty), { h with }⟩
  · -- the scan finds a member
    obtain ⟨u, hu, hbest, -⟩ := hmembers.bestUthread hempty
    obtain ⟨q', lists', hrem, h'⟩ := h.rem hmembers hu t (Function.update m.uObj t (some u))
    have htake : m.queues.takeBest uthreads ⟨k, index⟩ = some (u, q') := by
      simp [Queues.takeBest, bestUthread_eq h.linked, hbest, hrem]
    exact ⟨_, lists', runBody_take uthreads t (fun hmask => hempty (hzero.mp hmask)) htake, h'⟩

/-- The section of a thief keeps the queues. -/
theorem pass (h : Kept uthreads k all m lists) (hu : u ∈ m.hand t) (index : Bool) :
    ∃ m' lists', runBody (Job.body uthreads k t (.pass index u)) m = some m' ∧
      Kept uthreads k all m' lists' := by
  obtain ⟨m₁, lists₁, hadd, h₁, members, hmembers, hmem⟩ := h.add hu index
  obtain ⟨q', lists', hrem, h'⟩ := h₁.rem hmembers hmem t m₁.uObj
  exact ⟨_, lists', runBody_pass uthreads t hadd hrem, h'⟩

end Kept

/-! ### Threads that share the queues -/

section Threads

variable (uthreads : ℕ → Uthread) (k : Fin gtMaxCores) (all : ℕ → Prop)

/-- A statement of a thread leaves the hands of the others alone. -/
theorem hand_of_stmt {t u : ι} {job : Job} {stmt : Shared ι → Option (Shared ι)}
    (hstmt : stmt ∈ job.body uthreads k t) (hne : u ≠ t) {m₁ m₂ : Shared ι}
    (h : stmt m₁ = some m₂) : m₂.hand u = m₁.hand u := by
  -- a section on the queues does not write the hands at all
  have hqueues : ∀ {body : Body Queues}, stmt ∈ onQueues body → m₂.hand u = m₁.hand u := by
    intro body hmem
    obtain ⟨stmt', -, rfl⟩ := List.mem_map.mp hmem
    obtain ⟨queues, -, rfl⟩ := Option.map_eq_some_iff.mp h
    rfl
  have hrelease : ∀ v, stmt = release t v → m₂.hand u = m₁.hand u := by
    rintro v rfl
    obtain rfl := Option.some.inj h
    exact Function.update_of_ne hne _ _
  cases job with
  | add index v =>
    rcases List.mem_append.mp hstmt with hmem | hlast
    · exact hqueues hmem
    · exact hrelease v (List.mem_singleton.mp hlast)
  | bury v =>
    rcases List.mem_append.mp hstmt with hmem | hlast
    · exact hqueues hmem
    · exact hrelease v (List.mem_singleton.mp hlast)
  | take index =>
    rcases List.mem_cons.mp hstmt with rfl | hmem
    · unfold choose at h
      split at h
      · obtain rfl := Option.some.inj h
        rfl
      · obtain ⟨v, -, rfl⟩ := Option.map_eq_some_iff.mp h
        rfl
    · rcases List.mem_append.mp hmem with hmem | hlast
      · obtain ⟨stmt', -, rfl⟩ := List.mem_map.mp hmem
        unfold onChosen at h
        split at h
        · obtain rfl := Option.some.inj h
          rfl
        · obtain ⟨queues, -, rfl⟩ := Option.map_eq_some_iff.mp h
          rfl
      · obtain rfl := List.mem_singleton.mp hlast
        obtain rfl := Option.some.inj h
        exact Function.update_of_ne hne _ _
  | pass index v =>
    rcases List.mem_append.mp hstmt with hmem | hmem
    · rcases List.mem_append.mp hmem with hmem | hlast
      · exact hqueues hmem
      · exact hrelease v (List.mem_singleton.mp hlast)
    · rcases List.mem_append.mp hmem with hmem | hlast
      · exact hqueues hmem
      · obtain rfl := List.mem_singleton.mp hlast
        obtain rfl := Option.some.inj h
        exact Function.update_of_ne hne _ _

/-- The sections on the queues of a kthread: what they keep, and when a thread may call them. -/
def queueSections : SectionSpec ι (Shared ι) where
  Inv m := ∃ lists, Kept uthreads k all m lists
  Pre t body m := ∃ job, body = Job.body uthreads k t job ∧ job.Ready t m
  run := by
    rintro t body m ⟨lists, h⟩ ⟨job, rfl, hready⟩
    cases job with
    | add index u =>
      obtain ⟨m', lists', hrun, h', -⟩ := h.add hready index
      exact ⟨m', hrun, lists', h'⟩
    | bury u =>
      obtain ⟨m', lists', hrun, h'⟩ := h.bury hready
      exact ⟨m', hrun, lists', h'⟩
    | take index =>
      obtain ⟨m', lists', hrun, h'⟩ := h.take t index
      exact ⟨m', hrun, lists', h'⟩
    | pass index u =>
      obtain ⟨m', lists', hrun, h'⟩ := h.pass hready index
      exact ⟨m', hrun, lists', h'⟩
  frame := by
    rintro t body m ⟨job, rfl, -⟩ stmt hstmt m₁ m₂ h u hne body' ⟨job', rfl, hready⟩
    have hhand := hand_of_stmt uthreads k hstmt hne h
    refine ⟨job', rfl, ?_⟩
    cases job' with
    | add index v | bury v | pass index v =>
      change v ∈ m₂.hand u
      rw [hhand]
      exact hready
    | take index => trivial

/-- **The queues under the lock.** Any number of threads put uthreads that they have into the queues
of a kthread and take uthreads out, under its lock and with their statements interleaved in any way.
Whenever the lock is free the queues are well linked, `uthread_mask`, each `group_mask` and the
counters of both runqueues are exact, and every uthread is in one queue or in the hand of one
thread. No statement ever fails, so no assertion does, and the scan of a runqueue whose mask is not
zero finds a uthread. -/
theorem queues_kept_under_lock (m₀ : Shared ι) (lists₀ : Head → List ℕ)
    (h₀ : Kept uthreads k all m₀ lists₀) (s : Spinlock.State ι (Shared ι))
    (hr : (spinlock m₀).Reachable (queueSections uthreads k all).guard s) :
    (s.locked = false → ∃ lists, Kept uthreads k all s.memory lists) ∧
      ∀ t rest, s.phase t = .inside rest → (runBody rest s.memory).isSome := by
  have h := (queueSections uthreads k all).sound_of_reachable ⟨lists₀, h₀⟩ hr
  refine ⟨h.free, ?_⟩
  intro t rest ht
  obtain ⟨m', hm', -⟩ := h.inside t (by rw [ht]; rfl)
  rw [ht] at hm'
  exact Option.isSome_iff_exists.mpr ⟨m', hm'⟩

end Threads

/-- The steps of threads that are in sections need no further condition. -/
theorem reachable_of_steps {spec : SectionSpec ι (Shared ι)} {m₀ : Shared ι}
    {s s' : Spinlock.State ι (Shared ι)} {ts : List ι}
    (hr : (spinlock m₀).Reachable spec.guard s)
    (hrun : (spinlock m₀).guardedRun System.anyStep s (ts.map .step) = some s') :
    (spinlock m₀).Reachable spec.guard s' := by
  induction ts generalizing s with
  | nil =>
    obtain rfl := Option.some.inj hrun
    exact hr
  | cons t ts ih =>
    obtain ⟨-, s₁, hs₁, hrest⟩ := System.guardedRun_cons_eq_some.mp hrun
    exact ih (.step (l := .step t) hr trivial hs₁) hrest

/-- Two threads with one uthread each, and empty queues. -/
def pairMemory : Shared Bool where
  queues := (Linked.initial fun _ => none).queues
  uObj _ := none
  hand t := if t then [1] else [0]

theorem kept_pairMemory :
    Kept plainUthreads 0 (fun u => u = 0 ∨ u = 1) pairMemory fun _ => [] where
  linked := .initial _
  books _ := ⟨[], Runqueue.Represents.initRunqueue⟩
  handNodup := by decide
  handUnique t t' u hu hu' := by
    cases t <;> cases t' <;> simp_all [pairMemory]
  handQueue t u _ head := List.not_mem_nil
  complete u := by simp [pairMemory]

/-- Both threads insert their uthreads into one runqueue. The second one finds the lock taken while
the first one is between its statements. -/
theorem queues_kept_under_lock_pair :
    ∃ s, (spinlock pairMemory).Reachable
        (queueSections plainUthreads 0 fun u => u = 0 ∨ u = 1).guard s ∧
      walk s.memory.queues.links 3 (.first (.group ⟨0, false⟩ defaultUthreadPriority 0)) = [0, 1] ∧
      ∃ lists, Kept plainUthreads 0 (fun u => u = 0 ∨ u = 1) s.memory lists := by
  have hr : (spinlock pairMemory).Reachable
      (queueSections plainUthreads 0 fun u => u = 0 ∨ u = 1).guard
      (((spinlock pairMemory).init.calling false
        (Job.body plainUthreads 0 false (.add false 0))).calling true
        (Job.body plainUthreads 0 true (.add false 1))) := by
    refine .step (l := .call true _) (.step (l := .call false _) .init ?_ rfl) ?_ rfl
    · exact ⟨.add false 0, rfl, List.mem_singleton.mpr rfl⟩
    · exact ⟨.add false 1, rfl, List.mem_singleton.mpr rfl⟩
  have hrun : ((spinlock pairMemory).guardedRun System.anyStep
      (((spinlock pairMemory).init.calling false
        (Job.body plainUthreads 0 false (.add false 0))).calling true
        (Job.body plainUthreads 0 true (.add false 1)))
      (([false, true, false, false, false, true] ++ List.replicate 12 false ++
        List.replicate 16 true).map .step)).any
      (fun s => s.locked = false ∧ walk s.memory.queues.links 3
        (.first (.group ⟨0, false⟩ defaultUthreadPriority 0)) = [0, 1]) = true := by
    decide +kernel
  -- the second thread spins until the first has gone through its section
  obtain ⟨s, hs, hend⟩ := (Option.any_eq_true _ _).mp hrun
  obtain ⟨hfree, hwalk⟩ := of_decide_eq_true hend
  have hreach := reachable_of_steps hr hs
  exact ⟨s, hreach, hwalk, (queues_kept_under_lock plainUthreads 0 _ pairMemory _ kept_pairMemory s
    hreach).1 hfree⟩

end LockedQueues

end GTThreads

end OSLab
