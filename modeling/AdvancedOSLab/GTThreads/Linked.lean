import AdvancedOSLab.Framework.Refinement
import AdvancedOSLab.GTThreads.Conservation
import AdvancedOSLab.GTThreads.LinkedSchedule

/-!
# Linked queues are lists

The scheduler on linked queues (`LinkedSchedule.lean`) and the scheduler on lists (`Schedule.lean`)
are the same system. `Shows s t` says that the linked state `s` is the list state `t`: the links
spell out some lists, and reading the queues off them (`State.read`) gives `t`.

The simulation goes through the functions of the scheduler one by one. An operation on a runqueue
writes the links of one queue (`OnlyRunq`), a function of the scheduler writes one kthread
(`SameAt` for the others), and the pointers of every kthread stay those of its own two runqueues
(`Layout`). The one fact about the scheduler that the links need is that a uthread is never inserted
while it is in a queue. It is what conservation says (`Conservation.lean`): the current uthread and
a new one are in no queue.

* `linked_stepForStep` is the simulation, `linked_run` its consequence for runs.
* `links_conserved` is conservation in terms of the links: no walk along them is circular, and every
  uthread is met on one of them only.
-/

namespace OSLab

namespace GTThreads

namespace Linked

open TailQueue

/-! ### Reading the queues off the links -/

/-- A runqueue as the list model has it, when the links spell out `lists`. -/
def Queues.runqueue (q : Queues) (lists : Head → List ℕ) (runq : RunqPtr) : Runqueue where
  uthreadMask := (q.runqs runq).uthreadMask
  uthreadTot := (q.runqs runq).uthreadTot
  uthreadPrioTot := (q.runqs runq).uthreadPrioTot
  uthreadGroupMask := (q.runqs runq).uthreadGroupMask
  uthreadGroupTot := (q.runqs runq).uthreadGroupTot
  prioArray p :=
    { groupMask := (q.runqs runq).groupMask p
      group g := lists (.group runq p g) }

/-- The kthread at slot `k` as the list model has it. -/
def Kthread.context (q : Queues) (lists : Head → List ℕ) (k : Fin gtMaxCores) (kt : Kthread) :
    KthreadContext where
  cpuid := kt.cpuid
  kthreadDone := kt.kthreadDone
  krunqueue :=
    { activeRunq := q.runqueue lists kt.activeRunq
      expiresRunq := q.runqueue lists kt.expiresRunq
      curUthread := kt.curUthread
      zombieUthreads := lists (.zombies k) }

/-- The kthreads as the list model has them. -/
def contexts (q : Queues) (lists : Head → List ℕ) (kthreadCpuMap : CpuMap) : KthreadCpuMap :=
  fun k => (kthreadCpuMap k).map (Kthread.context q lists k)

/-- The state as the list model has it. -/
def State.read (s : State) (lists : Head → List ℕ) : GTThreads.State where
  kthreadCpuMap := contexts s.queues lists s.kthreadCpuMap
  uthreads := s.uthreads
  uthreadTime := s.uthreadTime
  kthreadTotUthreads := s.kthreadTotUthreads
  kthreadCurUthreads := s.kthreadCurUthreads
  lastUgroupKthread := s.lastUgroupKthread

/-- Every kthread has the pointers to its own two runqueues, and where no kthread is registered
there are no uthreads. -/
structure Layout (kthreadCpuMap : CpuMap) (lists : Head → List ℕ) : Prop where
  active : ∀ k kt, kthreadCpuMap k = some kt → kt.activeRunq.kthread = k
  expires : ∀ k kt, kthreadCpuMap k = some kt → kt.expiresRunq = ⟨k, !kt.activeRunq.index⟩
  unregistered : ∀ k, kthreadCpuMap k = none →
    (∀ i p g, lists (.group ⟨k, i⟩ p g) = []) ∧ lists (.zombies k) = []

/-- The linked state `s` is the list state `t`. -/
def Shows (s : State) (t : GTThreads.State) : Prop :=
  ∃ lists, Represents s.queues.links lists ∧ Layout s.kthreadCpuMap lists ∧ t = s.read lists

variable {q q' : Queues} {lists lists' : Head → List ℕ} {runq : RunqPtr} {u : ℕ}
  {uthreads : ℕ → Uthread} {kthreadCpuMap kthreadCpuMap' : CpuMap} {k i : Fin gtMaxCores}
  {kt kt' : Kthread} {s : State}

/-! ### One runqueue changes -/

/-- The two memories differ at most in the given runqueue. -/
structure OnlyRunq (runq : RunqPtr) (q : Queues) (lists : Head → List ℕ) (q' : Queues)
    (lists' : Head → List ℕ) : Prop where
  runqs : ∀ r, r ≠ runq → q'.runqs r = q.runqs r
  group : ∀ r p g, r ≠ runq → lists' (.group r p g) = lists (.group r p g)
  zombies : ∀ k, lists' (.zombies k) = lists (.zombies k)

theorem OnlyRunq.trans {q'' : Queues} {lists'' : Head → List ℕ}
    (h : OnlyRunq runq q lists q' lists') (h' : OnlyRunq runq q' lists' q'' lists'') :
    OnlyRunq runq q lists q'' lists'' :=
  ⟨fun r hr => (h'.runqs r hr).trans (h.runqs r hr),
    fun r p g hr => (h'.group r p g hr).trans (h.group r p g hr),
    fun k => (h'.zombies k).trans (h.zombies k)⟩

theorem OnlyRunq.runqueue {r : RunqPtr} (h : OnlyRunq runq q lists q' lists') (hr : r ≠ runq) :
    q'.runqueue lists' r = q.runqueue lists r := by
  simp only [Queues.runqueue, h.runqs r hr, h.group r _ _ hr]

/-- Writing one list and one group mask, seen from the array of the priorities. -/
theorem prioArray_update (lists : Head → List ℕ) (runq : RunqPtr) (xs : List ℕ)
    (groupMask : Fin maxUthreadPriority → BitVec maxUthreadGroups) (p : Fin maxUthreadPriority)
    (g : Fin maxUthreadGroups) (mask : BitVec maxUthreadGroups) :
    (fun p' => (⟨Function.update groupMask p mask p', fun g' =>
        Function.update lists (.group runq p g) xs (.group runq p' g')⟩ : PrioStruct)) =
      Function.update
        (fun p' => (⟨groupMask p', fun g' => lists (.group runq p' g')⟩ : PrioStruct)) p
        ⟨mask, Function.update (fun g' => lists (.group runq p g')) g xs⟩ := by
  funext p'
  by_cases hp : p' = p
  · subst hp
    simp only [Function.update_self, PrioStruct.mk.injEq, true_and]
    funext g'
    by_cases hg : g' = g
    · subst hg
      rw [Function.update_self, Function.update_self]
    · rw [Function.update_of_ne hg, Function.update_of_ne (by simp [hg])]
  · simp [hp]

theorem onlyRunq_update (p : Fin maxUthreadPriority) (g : Fin maxUthreadGroups) (xs : List ℕ)
    (hrunqs : ∀ r, r ≠ runq → q'.runqs r = q.runqs r) :
    OnlyRunq runq q lists q' (Function.update lists (.group runq p g) xs) :=
  ⟨hrunqs, fun r p g hr => Function.update_of_ne (by simp [hr]) _ _,
    fun k => Function.update_of_ne (by simp) _ _⟩

/-- Insertion appends to the queue of the uthread, and keeps the books as the list model does. -/
theorem addToRunqueue_spec (uthreads : ℕ → Uthread) (h : Represents q.links lists)
    (hu : ∀ head, u ∉ lists head) (runq : RunqPtr) :
    ∃ lists', Represents (q.addToRunqueue uthreads runq u).links lists' ∧
      OnlyRunq runq q lists (q.addToRunqueue uthreads runq u) lists' ∧
      (q.addToRunqueue uthreads runq u).runqueue lists' runq =
        Runqueue.addToRunqueue uthreads (q.runqueue lists runq) u := by
  refine ⟨_, h.insertTail hu _, onlyRunq_update _ _ _ fun r hr => Function.update_of_ne hr _ _, ?_⟩
  simp only [Queues.runqueue, Queues.addToRunqueue, Runqueue.addToRunqueue, Function.update_self,
    Runqueue.mk.injEq, true_and]
  exact ⟨rfl, rfl, prioArray_update lists runq _ _ _ _ _⟩

/-- Removal takes the uthread out of its queue, and keeps the books as the list model does. -/
theorem remFromRunqueue_spec {runq' : Runqueue} (h : Represents q.links lists)
    (hu : u ∈ lists (.group runq (uthreads u).uthreadPriority (uthreads u).uthreadGid))
    (hrem : Runqueue.remFromRunqueue uthreads (q.runqueue lists runq) u = some runq') :
    ∃ q' lists', q.remFromRunqueue uthreads runq u = some q' ∧ Represents q'.links lists' ∧
      OnlyRunq runq q lists q' lists' ∧ q'.runqueue lists' runq = runq' ∧
      ∀ head, u ∉ lists' head := by
  have h' := h.remove hu
  set head := Head.group runq (uthreads u).uthreadPriority (uthreads u).uthreadGid with hhead
  -- the queue is found empty through its link exactly if the list is
  have hempty : (q.links.remove head u).isEmpty head ↔ (lists head).erase u = [] := by
    rw [h'.isEmpty_iff, Function.update_self]
  rw [Runqueue.remFromRunqueue] at hrem
  split at hrem
  · exact absurd hrem (by simp)
  · next hassert =>
    obtain rfl := Option.some.inj hrem
    refine ⟨_, _, if_neg fun hfails => hassert ⟨hfails.1, fun hnil => ?_⟩, h',
      onlyRunq_update _ _ _ fun r hr => Function.update_of_ne hr _ _, ?_, ?_⟩
    · exact hfails.2 (hempty.mpr hnil)
    · simp only [Queues.runqueue, Function.update_self, Runqueue.mk.injEq, true_and]
      refine ⟨rfl, rfl, ?_⟩
      simp only [← hhead, hempty]
      exact prioArray_update lists runq _ _ _ _ _
    -- the uthread was in one queue only
    · intro head' hmem
      by_cases heq : head' = head
      · subst heq
        rw [Function.update_self] at hmem
        exact (h.nodup _).not_mem_erase hmem
      · rw [Function.update_of_ne heq] at hmem
        exact heq (h.eq_of_mem hmem hu)

/-- The scan reads the heads of the queues. -/
theorem bestUthread_eq (h : Represents q.links lists) (runq : RunqPtr) :
    q.bestUthread runq = (q.runqueue lists runq).bestUthread := by
  simp only [Queues.bestUthread, Runqueue.bestUthread, Queues.runqueue, h.first_eq]
  rfl

/-- Taking the best uthread of a runqueue that is not empty. Afterwards it is in no queue. -/
theorem takeBest_spec {members : List ℕ} (h : Represents q.links lists)
    (hmembers : Runqueue.Represents uthreads (q.runqueue lists runq) members)
    (hne : members ≠ []) :
    ∃ u q' lists' runq', q.takeBest uthreads runq = some (u, q') ∧
      GTThreads.takeBest uthreads (q.runqueue lists runq) = some (u, runq') ∧
      Represents q'.links lists' ∧ OnlyRunq runq q lists q' lists' ∧
      q'.runqueue lists' runq = runq' ∧ ∀ head, u ∉ lists' head := by
  obtain ⟨u, hu, hbest, -⟩ := hmembers.bestUthread hne
  obtain ⟨runq', hrem, -⟩ := hmembers.rem hu
  have hmem := (hmembers.mem_queue _ _).mpr ⟨hu, rfl, rfl⟩
  obtain ⟨q', lists', hrem', h', honly, hrunq, hgone⟩ := remFromRunqueue_spec h hmem hrem
  refine ⟨u, q', lists', runq', ?_, ?_, h', honly, hrunq, hgone⟩
  · simp [Queues.takeBest, bestUthread_eq h, hbest, hrem']
  · simp [GTThreads.takeBest, hbest, hrem]

/-! ### One kthread changes -/

/-- The two memories agree on what belongs to the kthread at slot `j`. -/
structure SameAt (j : Fin gtMaxCores) (q : Queues) (lists : Head → List ℕ) (q' : Queues)
    (lists' : Head → List ℕ) : Prop where
  runqueue : ∀ i, q'.runqueue lists' ⟨j, i⟩ = q.runqueue lists ⟨j, i⟩
  zombies : lists' (.zombies j) = lists (.zombies j)

theorem OnlyRunq.sameAt {j : Fin gtMaxCores} (h : OnlyRunq runq q lists q' lists')
    (hj : j ≠ runq.kthread) : SameAt j q lists q' lists' :=
  ⟨fun _ => h.runqueue fun heq => hj (congrArg RunqPtr.kthread heq), h.zombies j⟩

theorem Layout.activeRunq_eq (h : Layout kthreadCpuMap lists) (hkt : kthreadCpuMap k = some kt) :
    kt.activeRunq = ⟨k, kt.activeRunq.index⟩ := by
  rw [← h.active k kt hkt]

theorem Layout.expires_ne_active (h : Layout kthreadCpuMap lists)
    (hkt : kthreadCpuMap k = some kt) : kt.expiresRunq ≠ kt.activeRunq := by
  rw [h.expires k kt hkt]
  intro heq
  exact Bool.not_ne_self _ (congrArg RunqPtr.index heq)

/-- Where nothing changed, the kthread is read as before. -/
theorem Layout.context_eq (h : Layout kthreadCpuMap lists) (hkt : kthreadCpuMap k = some kt)
    (hsame : SameAt k q lists q' lists') : kt.context q' lists' k = kt.context q lists k := by
  simp only [Kthread.context, hsame.zombies]
  rw [h.activeRunq_eq hkt, h.expires k kt hkt, hsame.runqueue, hsame.runqueue]

/-- Only the kthread at slot `k` is read differently. -/
theorem Layout.contexts_eq_update (h : Layout kthreadCpuMap lists)
    (hsame : ∀ j, j ≠ k → SameAt j q lists q' lists')
    (hmap : ∀ j, j ≠ k → kthreadCpuMap' j = kthreadCpuMap j)
    (hkt : kthreadCpuMap' k = some kt') :
    contexts q' lists' kthreadCpuMap' =
      Function.update (contexts q lists kthreadCpuMap) k (some (kt'.context q' lists' k)) := by
  funext j
  by_cases hj : j = k
  · subst hj
    rw [Function.update_self, contexts, hkt, Option.map_some]
  · rw [Function.update_of_ne hj, contexts, contexts, hmap j hj]
    cases hctx : kthreadCpuMap j with
    | none => rfl
    | some other => rw [Option.map_some, Option.map_some, h.context_eq hctx (hsame j hj)]

/-- A kthread is written, and perhaps what belongs to it. -/
theorem Layout.update (h : Layout kthreadCpuMap lists) (hactive : kt'.activeRunq.kthread = k)
    (hexpires : kt'.expiresRunq = ⟨k, !kt'.activeRunq.index⟩)
    (hsame : ∀ j, j ≠ k → SameAt j q lists q' lists') :
    Layout (Function.update kthreadCpuMap k (some kt')) lists' := by
  have hcases : ∀ {j kt}, Function.update kthreadCpuMap k (some kt') j = some kt →
      (j = k ∧ kt = kt') ∨ kthreadCpuMap j = some kt := by
    intro j kt hkt
    by_cases hj : j = k
    · subst hj
      rw [Function.update_self] at hkt
      exact .inl ⟨rfl, (Option.some.inj hkt).symm⟩
    · rw [Function.update_of_ne hj] at hkt
      exact .inr hkt
  refine ⟨fun j kt hkt => ?_, fun j kt hkt => ?_, fun j hnone => ?_⟩
  · obtain ⟨rfl, rfl⟩ | hkt := hcases hkt
    · exact hactive
    · exact h.active j kt hkt
  · obtain ⟨rfl, rfl⟩ | hkt := hcases hkt
    · exact hexpires
    · exact h.expires j kt hkt
  · -- a slot that is not in use is another one, and keeps its empty queues
    have hj : j ≠ k := by
      rintro rfl
      exact absurd hnone (by simp)
    rw [Function.update_of_ne hj] at hnone
    obtain ⟨hgroup, hzombies⟩ := h.unregistered j hnone
    refine ⟨fun i p g => ?_, (hsame j hj).zombies.trans hzombies⟩
    have hqueue := congrArg (fun r => r.queue p g) ((hsame j hj).runqueue i)
    exact hqueue.trans (hgroup i p g)

theorem Layout.onlyRunq (h : Layout kthreadCpuMap lists) (hkt : kthreadCpuMap k = some kt)
    (hrunq : runq.kthread = k) (honly : OnlyRunq runq q lists q' lists') :
    Layout kthreadCpuMap lists' := by
  have h' := h.update (h.active k kt hkt) (h.expires k kt hkt) fun j hj =>
    honly.sameAt (hrunq ▸ hj)
  rwa [← hkt, Function.update_eq_self] at h'

/-- A change in the active runqueue of a kthread. -/
theorem Layout.contexts_setActive (h : Layout kthreadCpuMap lists)
    (hkt : kthreadCpuMap k = some kt) (honly : OnlyRunq kt.activeRunq q lists q' lists') :
    contexts q' lists' kthreadCpuMap =
      Function.update (contexts q lists kthreadCpuMap) k
        (some ((kt.context q lists k).setActive (q'.runqueue lists' kt.activeRunq))) := by
  rw [h.contexts_eq_update (fun j hj => honly.sameAt (h.active k kt hkt ▸ hj)) (fun _ _ => rfl) hkt]
  simp only [Kthread.context, KthreadContext.setActive, honly.zombies,
    honly.runqueue (h.expires_ne_active hkt)]

/-! ### Choosing the next uthread -/

/-- The steal loop reads flags and masks only. -/
theorem stealVictim_eq (q : Queues) (lists : Head → List ℕ) (kthreadCpuMap : CpuMap)
    (slots : List (Fin gtMaxCores)) :
    GTThreads.stealVictim (contexts q lists kthreadCpuMap) slots =
      (stealVictim kthreadCpuMap q slots).map
        (Option.map fun v => (v.1, v.2.context q lists v.1)) := by
  induction slots with
  | nil => rfl
  | cons i slots ih =>
    rw [stealVictim_cons, Linked.stealVictim, contexts]
    cases kthreadCpuMap i with
    | none => rfl
    | some other =>
      simp only [Option.map_some, Option.bind_some, Option.bind_eq_bind]
      -- the kthread is passed over for the same reasons, or it is the victim
      by_cases hdone : other.kthreadDone
      · rw [if_pos hdone, if_pos (by exact hdone), ih]
      · rw [if_neg hdone, if_neg (by exact hdone), ih]
        by_cases hmask : (q.runqs other.activeRunq).uthreadMask = 0
        · rw [if_neg (not_not.mpr hmask), if_neg (not_not.mpr (by exact hmask))]
        · rw [if_pos hmask, if_pos (by exact hmask)]
          rfl

theorem findVictim_eq (flags : Flags) (q : Queues) (lists : Head → List ℕ)
    (kthreadCpuMap : CpuMap) (cpuid : ℕ) :
    GTThreads.findVictim flags (contexts q lists kthreadCpuMap) cpuid =
      (findVictim flags kthreadCpuMap q cpuid).map
        (Option.map fun v => (v.1, v.2.context q lists v.1)) := by
  rw [GTThreads.findVictim, Linked.findVictim]
  split
  · exact stealVictim_eq q lists kthreadCpuMap _
  · rfl

theorem stealVictim_eq_some {slots : List (Fin gtMaxCores)} {other : Kthread}
    (h : stealVictim kthreadCpuMap q slots = some (some (i, other))) :
    kthreadCpuMap i = some other := by
  induction slots with
  | nil => exact absurd h (by simp [stealVictim])
  | cons j slots ih =>
    obtain ⟨kt, hkt, h⟩ := Option.bind_eq_some_iff.mp h
    split at h
    · exact ih h
    · split at h
      · obtain ⟨rfl, rfl⟩ := Prod.mk.inj (Option.some.inj (Option.some.inj h))
        exact hkt
      · exact ih h

theorem findVictim_eq_some {flags : Flags} {cpuid : ℕ} {other : Kthread}
    (h : findVictim flags kthreadCpuMap q cpuid = some (some (i, other))) :
    kthreadCpuMap i = some other := by
  rw [findVictim] at h
  split at h
  · exact stealVictim_eq_some h
  · exact absurd h (by simp)

/-- The same uthread was chosen, and the kthreads afterwards are the same. -/
def SameChoice (a : Option ℕ × CpuMap × Queues) (b : Option ℕ × KthreadCpuMap) : Prop :=
  a.1 = b.1 ∧ ∃ lists, Represents a.2.2.links lists ∧ Layout a.2.1 lists ∧
    b.2 = contexts a.2.2 lists a.2.1

section Choice

variable {flags : Flags} {members : List ℕ}

/-- With uthreads in the active runqueue, both levels take the best of them. -/
theorem sameChoice_own (h : Represents q.links lists) (hlayout : Layout kthreadCpuMap lists)
    (hkt : kthreadCpuMap k = some kt)
    (hmembers : Runqueue.Represents uthreads (q.runqueue lists kt.activeRunq) members)
    (hne : members ≠ []) :
    Option.Rel SameChoice (schedFindBestUthread flags uthreads kthreadCpuMap q k)
      (GTThreads.schedFindBestUthread flags uthreads (contexts q lists kthreadCpuMap) k) := by
  have hmask : (q.runqs kt.activeRunq).uthreadMask ≠ BitVec.ofNat maxUthreadPriority 0 :=
    mt hmembers.uthreadMask_eq_zero_iff.mp hne
  obtain ⟨u, q', lists', runq', htake, htake', h', honly, rfl, -⟩ := takeBest_spec h hmembers hne
  -- first the choice on the links, then the one on the lists
  have hlinked : schedFindBestUthread flags uthreads kthreadCpuMap q k =
      some (some u, kthreadCpuMap, q') := by
    simp [schedFindBestUthread, hkt, hmask, htake]
  have hctx : contexts q lists kthreadCpuMap k = some (kt.context q lists k) := by
    rw [contexts, hkt, Option.map_some]
  have hlist : GTThreads.schedFindBestUthread flags uthreads (contexts q lists kthreadCpuMap) k =
      some (some u, Function.update (contexts q lists kthreadCpuMap) k
        (some ((kt.context q lists k).setActive (q'.runqueue lists' kt.activeRunq)))) := by
    have hmask' : (kt.context q lists k).krunqueue.activeRunq.uthreadMask ≠
      BitVec.ofNat maxUthreadPriority 0 := hmask
    have htake'' : GTThreads.takeBest uthreads (kt.context q lists k).krunqueue.activeRunq =
      some (u, q'.runqueue lists' kt.activeRunq) := htake'
    simp [GTThreads.schedFindBestUthread, hctx, hmask', htake'']
  rw [hlinked, hlist, Option.rel_some_some]
  exact ⟨rfl, lists', h', hlayout.onlyRunq hkt (hlayout.active k kt hkt) honly,
    (hlayout.contexts_setActive hkt honly).symm⟩

/-- With nobody to steal from, both levels exchange the runqueues. -/
theorem sameChoice_exchange (h : Represents q.links lists) (hlayout : Layout kthreadCpuMap lists)
    (hkt : kthreadCpuMap k = some kt)
    (hempty : Runqueue.Represents uthreads (q.runqueue lists kt.activeRunq) [])
    (hvictim : findVictim flags kthreadCpuMap q kt.cpuid = some none) :
    Option.Rel SameChoice (schedFindBestUthread flags uthreads kthreadCpuMap q k)
      (GTThreads.schedFindBestUthread flags uthreads (contexts q lists kthreadCpuMap) k) := by
  have hmask : (q.runqs kt.activeRunq).uthreadMask = 0 := hempty.uthreadMask_eq_zero_iff.mpr rfl
  have htot : (q.runqs kt.activeRunq).uthreadTot = 0 := hempty.uthreadTot_eq
  have hlinked : schedFindBestUthread flags uthreads kthreadCpuMap q k =
      some (none, Function.update kthreadCpuMap k (some kt.exchanged), q) := by
    simp [schedFindBestUthread, Kthread.exchanged, hkt, hmask, htot, hvictim]
  have hctx : contexts q lists kthreadCpuMap k = some (kt.context q lists k) := by
    rw [contexts, hkt, Option.map_some]
  have hvictim' : GTThreads.findVictim flags (contexts q lists kthreadCpuMap)
      (kt.context q lists k).cpuid = some none := by
    rw [findVictim_eq]
    exact congrArg _ hvictim
  rw [hlinked, schedFindBestUthread_exchange hctx hempty hvictim', Option.rel_some_some]
  have hexpires := hlayout.expires k kt hkt
  have hsame : ∀ j, j ≠ k → SameAt j q lists q lists := fun _ _ => ⟨fun _ => rfl, rfl⟩
  -- the queues stay as they are, and the two pointers are exchanged
  refine ⟨rfl, lists, h, hlayout.update ?_ ?_ hsame, ?_⟩
  · exact congrArg RunqPtr.kthread hexpires
  · rw [Kthread.exchanged, hexpires, Bool.not_not]
    exact hlayout.activeRunq_eq hkt
  · rw [hlayout.contexts_eq_update hsame (fun j hj => Function.update_of_ne hj _ _)
      (Function.update_self ..)]
    rfl

/-- A stolen uthread passes through the links of the thief's active runqueue. -/
theorem pass_through (h : Represents q.links lists) (hu : ∀ head, u ∉ lists head)
    (hempty : Runqueue.Represents uthreads (q.runqueue lists runq) []) :
    ∃ q' lists' runq', (q.addToRunqueue uthreads runq u).remFromRunqueue uthreads runq u = some q' ∧
      Runqueue.remFromRunqueue uthreads
        (Runqueue.addToRunqueue uthreads (q.runqueue lists runq) u) u = some runq' ∧
      Represents q'.links lists' ∧ OnlyRunq runq q lists q' lists' ∧
      q'.runqueue lists' runq = runq' := by
  obtain ⟨lists₁, h₁, honly₁, hrunq₁⟩ := addToRunqueue_spec uthreads h hu runq
  obtain ⟨runq', hrem, -⟩ := rem_add_of_empty hempty u
  have hadd : Runqueue.Represents uthreads
      ((q.addToRunqueue uthreads runq u).runqueue lists₁ runq) [u] := by
    rw [hrunq₁]
    exact hempty.add (by simp)
  have hmem := (hadd.mem_queue _ _).mpr ⟨List.mem_singleton.mpr rfl, rfl, rfl⟩
  obtain ⟨q', lists', hrem', h', honly', hrunq', -⟩ :=
    remFromRunqueue_spec h₁ hmem (hrunq₁ ▸ hrem)
  exact ⟨q', lists', runq', hrem', hrem, h', honly₁.trans honly', hrunq'⟩

/-- With a victim, both levels take the same uthread from it. -/
theorem sameChoice_stolen {other : Kthread} (h : Represents q.links lists)
    (hlayout : Layout kthreadCpuMap lists)
    (hwf : WellFormed uthreads (contexts q lists kthreadCpuMap))
    (hkt : kthreadCpuMap k = some kt)
    (hempty : Runqueue.Represents uthreads (q.runqueue lists kt.activeRunq) [])
    (hvictim : findVictim flags kthreadCpuMap q kt.cpuid = some (some (i, other))) :
    Option.Rel SameChoice (schedFindBestUthread flags uthreads kthreadCpuMap q k)
      (GTThreads.schedFindBestUthread flags uthreads (contexts q lists kthreadCpuMap) k) := by
  have hmask : (q.runqs kt.activeRunq).uthreadMask = BitVec.ofNat maxUthreadPriority 0 :=
    hempty.uthreadMask_eq_zero_iff.mpr rfl
  have htot : (q.runqs kt.activeRunq).uthreadTot = 0 := hempty.uthreadTot_eq
  have hother := findVictim_eq_some hvictim
  have hctx : ∀ {j kt}, kthreadCpuMap j = some kt →
      contexts q lists kthreadCpuMap j = some (kt.context q lists j) := by
    intro j kt hkt
    rw [contexts, hkt, Option.map_some]
  have hvictim' : GTThreads.findVictim flags (contexts q lists kthreadCpuMap)
      (kt.context q lists k).cpuid = some (some (i, other.context q lists i)) := by
    rw [findVictim_eq]
    exact congrArg _ hvictim
  have hothermask := (GTThreads.findVictim_eq_some hvictim').2
  -- the thief is not its own victim: its active runqueue is empty
  have hik : k ≠ i := by
    rintro rfl
    obtain rfl := Option.some.inj (hkt.symm.trans hother)
    exact hothermask hmask
  obtain ⟨others, hothers⟩ := (hwf i _ (hctx hother)).active
  have hne : others ≠ [] := mt hothers.uthreadMask_eq_zero_iff.mpr hothermask
  -- first the victim's runqueue changes, then the thief's
  obtain ⟨u, q₁, lists₁, otherRunq, htake, htake', h₁, honly₁, rfl, hgone⟩ :=
    takeBest_spec h hothers hne
  have hk : k ≠ other.activeRunq.kthread := by rwa [hlayout.active i other hother]
  have hsame := honly₁.sameAt hk
  have hrunq : q₁.runqueue lists₁ kt.activeRunq = q.runqueue lists kt.activeRunq := by
    rw [hlayout.activeRunq_eq hkt, hsame.runqueue]
  have hempty₁ : Runqueue.Represents uthreads (q₁.runqueue lists₁ kt.activeRunq) [] := by
    rwa [hrunq]
  obtain ⟨q₂, lists₂, runq, hpass, hpass', h₂, honly₂, rfl⟩ := pass_through h₁ hgone hempty₁
  rw [hrunq] at hpass'
  have hlinked : schedFindBestUthread flags uthreads kthreadCpuMap q k =
      some (some u, kthreadCpuMap, q₂) := by
    simp [schedFindBestUthread, hkt, hmask, htot, hvictim, htake, hpass]
  have hlist : GTThreads.schedFindBestUthread flags uthreads (contexts q lists kthreadCpuMap) k =
      some (some u, Function.update (Function.update (contexts q lists kthreadCpuMap) i
          (some ((other.context q lists i).setActive (q₁.runqueue lists₁ other.activeRunq)))) k
        (some ((kt.context q lists k).setActive (q₂.runqueue lists₂ kt.activeRunq)))) := by
    have hmask' : (kt.context q lists k).krunqueue.activeRunq.uthreadMask =
      BitVec.ofNat maxUthreadPriority 0 := hmask
    have htot' : (kt.context q lists k).krunqueue.activeRunq.uthreadTot = 0 := htot
    have htake'' : GTThreads.takeBest uthreads (other.context q lists i).krunqueue.activeRunq =
      some (u, q₁.runqueue lists₁ other.activeRunq) := htake'
    have hpass'' : Runqueue.remFromRunqueue uthreads (Runqueue.addToRunqueue uthreads
        (kt.context q lists k).krunqueue.activeRunq u) u =
      some (q₂.runqueue lists₂ kt.activeRunq) := hpass'
    simp [GTThreads.schedFindBestUthread, hctx hkt, hmask', htot', hvictim', htake'', hpass'']
  have hlayout₁ := hlayout.onlyRunq hother (hlayout.active i other hother) honly₁
  rw [hlinked, hlist, Option.rel_some_some]
  refine ⟨rfl, lists₂, h₂, hlayout₁.onlyRunq hkt (hlayout.active k kt hkt) honly₂, ?_⟩
  rw [hlayout₁.contexts_setActive hkt honly₂, hlayout.contexts_setActive hother honly₁,
    hlayout.context_eq hkt hsame]

/-- `sched_find_best_uthread` does the same on both levels. -/
theorem schedFindBestUthread_rel (flags : Flags) (h : Represents q.links lists)
    (hlayout : Layout kthreadCpuMap lists)
    (hwf : WellFormed uthreads (contexts q lists kthreadCpuMap)) (k : Fin gtMaxCores) :
    Option.Rel SameChoice (schedFindBestUthread flags uthreads kthreadCpuMap q k)
      (GTThreads.schedFindBestUthread flags uthreads (contexts q lists kthreadCpuMap) k) := by
  cases hkt : kthreadCpuMap k with
  | none =>
    have hctx : contexts q lists kthreadCpuMap k = none := by rw [contexts, hkt, Option.map_none]
    simp only [schedFindBestUthread, GTThreads.schedFindBestUthread, hkt, hctx,
      Option.bind_eq_bind, Option.bind_none]
    exact .none
  | some kt =>
    have hctx : contexts q lists kthreadCpuMap k = some (kt.context q lists k) := by
      rw [contexts, hkt, Option.map_some]
    obtain ⟨members, hmembers⟩ := (hwf k _ hctx).active
    by_cases hne : members = []
    swap
    · exact sameChoice_own h hlayout hkt hmembers hne
    subst hne
    cases hvictim : findVictim flags kthreadCpuMap q kt.cpuid with
    | none =>
      -- the steal loop meets an empty slot on both levels
      have hmask : (q.runqs kt.activeRunq).uthreadMask = BitVec.ofNat maxUthreadPriority 0 :=
        hmembers.uthreadMask_eq_zero_iff.mpr rfl
      have hmask' : (kt.context q lists k).krunqueue.activeRunq.uthreadMask =
        BitVec.ofNat maxUthreadPriority 0 := hmask
      have hvictim' : GTThreads.findVictim flags (contexts q lists kthreadCpuMap)
          (kt.context q lists k).cpuid = none := by
        rw [findVictim_eq]
        exact congrArg _ hvictim
      rw [show schedFindBestUthread flags uthreads kthreadCpuMap q k = none by
          simp [schedFindBestUthread, hkt, hmask, hvictim],
        show GTThreads.schedFindBestUthread flags uthreads (contexts q lists kthreadCpuMap) k = none
          by simp [GTThreads.schedFindBestUthread, hctx, hmask', hvictim']]
      exact .none
    | some victim =>
      cases victim with
      | none => exact sameChoice_exchange h hlayout hkt hmembers hvictim
      | some victim => exact sameChoice_stolen h hlayout hwf hkt hmembers hvictim

end Choice

/-! ### A scheduling step -/

/-- What is linked into a queue is in that queue in the list model. -/
theorem Layout.at_of_mem (hlayout : Layout kthreadCpuMap lists) {head : Head}
    (hmem : u ∈ lists head) (q : Queues) :
    ∃ place, place.slot ≠ .current ∧ Conservation.At (contexts q lists kthreadCpuMap) u place := by
  have hctx : ∀ {j kt}, kthreadCpuMap j = some kt →
      contexts q lists kthreadCpuMap j = some (kt.context q lists j) := by
    intro j kt hkt
    rw [contexts, hkt, Option.map_some]
  cases head with
  | group runq p g =>
    obtain ⟨j, b⟩ := runq
    cases hkt : kthreadCpuMap j with
    | none => simp [(hlayout.unregistered j hkt).1] at hmem
    | some kt =>
      -- the runqueue is the active or the expired one of its kthread
      by_cases hb : b = kt.activeRunq.index
      · rw [hb, ← hlayout.activeRunq_eq hkt] at hmem
        exact ⟨⟨j, .active⟩, by simp, _, hctx hkt, p, g, hmem⟩
      · rw [Bool.eq_not.mpr hb, ← hlayout.expires j kt hkt] at hmem
        exact ⟨⟨j, .expires⟩, by simp, _, hctx hkt, p, g, hmem⟩
  | zombies j =>
    cases hkt : kthreadCpuMap j with
    | none => simp [(hlayout.unregistered j hkt).2] at hmem
    | some kt => exact ⟨⟨j, .zombie⟩, by simp, _, hctx hkt, hmem⟩

/-- What a write to the kthread at slot `k`, to its queues and to the other fields shows. -/
theorem shows_update {s' : State} {t' : GTThreads.State} (kt' : Kthread)
    (hlayout : Layout s.kthreadCpuMap lists) (hactive : kt'.activeRunq.kthread = k)
    (hexpires : kt'.expiresRunq = ⟨k, !kt'.activeRunq.index⟩)
    (hmap : s'.kthreadCpuMap = Function.update s.kthreadCpuMap k (some kt'))
    (h' : Represents s'.queues.links lists')
    (hsame : ∀ j, j ≠ k → SameAt j s.queues lists s'.queues lists')
    (ht' : t' = { s'.read lists' with
      kthreadCpuMap := Function.update (contexts s.queues lists s.kthreadCpuMap) k
        (some (kt'.context s'.queues lists' k)) }) : Shows s' t' := by
  refine ⟨lists', h', ?_, ?_⟩
  · rw [hmap]
    exact hlayout.update hactive hexpires hsame
  · rw [ht', State.read, hmap, hlayout.contexts_eq_update hsame
      (fun j hj => Function.update_of_ne hj _ _) (Function.update_self ..)]

/-- Insertion into one of the runqueues of a kthread, seen from the kthread. -/
theorem Layout.context_insert (hlayout : Layout kthreadCpuMap lists)
    (hkt : kthreadCpuMap k = some kt) {side : Side}
    (honly : OnlyRunq (kt.runq side) q lists q' lists')
    (hrunq : q'.runqueue lists' (kt.runq side) =
      Runqueue.addToRunqueue uthreads (q.runqueue lists (kt.runq side)) u) :
    { kt with curUthread := none }.context q' lists' k =
      { kt.context q lists k with
        krunqueue := KthreadRunqueue.insert uthreads
          { (kt.context q lists k).krunqueue with curUthread := none } side u } := by
  have hne := hlayout.expires_ne_active hkt
  cases side with
  | active =>
    have hexpires := honly.runqueue hne
    simp only [Kthread.context, KthreadRunqueue.insert, honly.zombies, hexpires]
    exact congrArg (fun r => (⟨_, _, ⟨r, _, _, _⟩⟩ : KthreadContext)) hrunq
  | expires =>
    have hactive := honly.runqueue hne.symm
    simp only [Kthread.context, KthreadRunqueue.insert, honly.zombies, hactive]
    exact congrArg (fun r => (⟨_, _, ⟨_, r, _, _⟩⟩ : KthreadContext)) hrunq

/-- Putting the current uthread away does the same on both levels. -/
theorem shows_retireCurrent (flags : Flags) (stop : ℤ) (h : Represents s.queues.links lists)
    (hlayout : Layout s.kthreadCpuMap lists) (hkt : s.kthreadCpuMap k = some kt)
    (hu : ∀ head, u ∉ lists head) :
    Shows (retireCurrent flags k kt u stop s)
      (GTThreads.retireCurrent flags k (kt.context s.queues lists k) u stop (s.read lists)) := by
  have hactive := hlayout.active k kt hkt
  have hexpires := hlayout.expires k kt hkt
  -- the uthread goes to the zombies, or to one of the two runqueues
  by_cases hended : (chargeCredits flags stop (s.uthreads u)).ended = true
  · have hzombies := h.insertTail hu (.zombies k)
    simp only [retireCurrent, GTThreads.retireCurrent, State.read, hended, if_true]
    refine shows_update { kt with curUthread := none } hlayout hactive hexpires rfl
      hzombies (fun j hj => ⟨fun i => ?_, ?_⟩) ?_
    · simp [Queues.runqueue]
    · exact Function.update_of_ne (by simp [hj]) _ _
    · simp [State.read, Kthread.context, Queues.runqueue]
  · simp only [retireCurrent, GTThreads.retireCurrent, State.read, hended, Bool.false_eq_true,
      if_false]
    generalize requeue flags (chargeCredits flags stop (s.uthreads u)) = requeued
    obtain ⟨side, uObj⟩ := requeued
    obtain ⟨lists', h', honly, hrunq⟩ := addToRunqueue_spec
      (Function.update s.uthreads u uObj) h hu (kt.runq side)
    have hside : (kt.runq side).kthread = k := by
      cases side with
      | active => exact hactive
      | expires => exact congrArg RunqPtr.kthread hexpires
    refine shows_update { kt with curUthread := none } hlayout hactive hexpires rfl
      h' (fun j hj => honly.sameAt (hside ▸ hj)) ?_
    simp only [State.read, hlayout.context_insert hkt honly hrunq]

theorem shows_putAway (flags : Flags) (stop : ℤ) (h : Represents s.queues.links lists)
    (hlayout : Layout s.kthreadCpuMap lists) (hkt : s.kthreadCpuMap k = some kt)
    (hplaced : Conservation.Placed (s.read lists)) :
    Shows (putAway flags k kt stop s)
      (GTThreads.putAway flags k (kt.context s.queues lists k) stop (s.read lists)) := by
  have hcur : (kt.context s.queues lists k).krunqueue.curUthread = kt.curUthread := rfl
  rw [putAway, GTThreads.putAway, hcur]
  cases hu : kt.curUthread with
  | none => exact ⟨lists, h, hlayout, rfl⟩
  | some u =>
    -- the current uthread is in no queue
    have hat : Conservation.At (contexts s.queues lists s.kthreadCpuMap) u ⟨k, .current⟩ :=
      ⟨kt.context s.queues lists k, by rw [contexts, hkt, Option.map_some], hu⟩
    refine shows_retireCurrent flags stop h hlayout hkt fun head hmem => ?_
    obtain ⟨place, hplace, hat'⟩ := hlayout.at_of_mem hmem s.queues
    exact hplace (congrArg Place.slot (hplaced.eq_of_at hat hat'))

/-- Writing a kthread without touching the queues. -/
theorem shows_map {t : GTThreads.State} (hshows : Shows s t) (f : Kthread → Kthread)
    (g : KthreadContext → KthreadContext) (k : Fin gtMaxCores)
    (hactive : ∀ kt, (f kt).activeRunq = kt.activeRunq)
    (hexpires : ∀ kt, (f kt).expiresRunq = kt.expiresRunq)
    (hfg : ∀ lists kt, (f kt).context s.queues lists k = g (kt.context s.queues lists k))
    (uthreads : ℕ → Uthread) :
    Shows
      { s with
        kthreadCpuMap := Function.update s.kthreadCpuMap k ((s.kthreadCpuMap k).map f)
        uthreads := uthreads }
      { t with
        kthreadCpuMap := Function.update t.kthreadCpuMap k ((t.kthreadCpuMap k).map g)
        uthreads := uthreads } := by
  obtain ⟨lists, h, hlayout, rfl⟩ := hshows
  -- nothing is written where no kthread is registered
  cases hkt : s.kthreadCpuMap k with
  | none =>
    have hctx : contexts s.queues lists s.kthreadCpuMap k = none := by
      rw [contexts, hkt, Option.map_none]
    refine ⟨lists, h, ?_, ?_⟩
    · rwa [Option.map_none, ← hkt, Function.update_eq_self]
    · simp only [State.read, hctx, Option.map_none]
      rw [← hkt, ← hctx, Function.update_eq_self, Function.update_eq_self]
  | some kt =>
    have hctx : contexts s.queues lists s.kthreadCpuMap k =
        some (kt.context s.queues lists k) := by
      rw [contexts, hkt, Option.map_some]
    refine shows_update (f kt) hlayout ?_ ?_ rfl h (fun _ _ => ⟨fun _ => rfl, rfl⟩) ?_
    · rw [hactive, hlayout.active k kt hkt]
    · rw [hactive, hexpires, hlayout.expires k kt hkt]
    · simp only [State.read, hctx, Option.map_some, hfg]

theorem shows_resume {t : GTThreads.State} (hshows : Shows s t) (k : Fin gtMaxCores)
    (uObj : Option ℕ) (start : ℤ) :
    Shows (resume k uObj start s) (GTThreads.resume k uObj start t) := by
  obtain ⟨lists, h, hlayout, rfl⟩ := id hshows
  cases uObj with
  | some u =>
    exact shows_map hshows (fun kt => { kt with curUthread := some u })
      (fun ctx => { ctx with krunqueue := { ctx.krunqueue with curUthread := some u } }) k
      (fun _ => rfl) (fun _ => rfl) (fun _ _ => rfl) _
  -- the quit test looks at counters that both levels share
  | none =>
    simp only [resume, GTThreads.resume, quitTest, GTThreads.quitTest]
    split
    · next hquit =>
      rw [if_pos (by exact hquit)]
      exact shows_map hshows (fun kt => { kt with kthreadDone := true })
        (fun ctx => { ctx with kthreadDone := true }) k
        (fun _ => rfl) (fun _ => rfl) (fun _ _ => rfl) s.uthreads
    · next hquit =>
      rw [if_neg (by exact hquit)]
      exact hshows

/-- `uthread_schedule` does the same on both levels. -/
theorem uthreadSchedule_rel (flags : Flags) (k : Fin gtMaxCores) (clock : Clock)
    {t : GTThreads.State} (hshows : Shows s t) (hconserved : Conservation.Conserved t) :
    Option.Rel Shows (uthreadSchedule flags k clock s)
      (GTThreads.uthreadSchedule flags k clock t) := by
  obtain ⟨lists, h, hlayout, rfl⟩ := hshows
  cases hkt : s.kthreadCpuMap k with
  | none =>
    have hctx : (s.read lists).kthreadCpuMap k = none := by
      simp only [State.read, contexts, hkt, Option.map_none]
    simp only [uthreadSchedule, GTThreads.uthreadSchedule, hkt, hctx, Option.bind_eq_bind,
      Option.bind_none]
    exact .none
  | some kt =>
    have hctx : (s.read lists).kthreadCpuMap k = some (kt.context s.queues lists k) := by
      simp only [State.read, contexts, hkt, Option.map_some]
    -- first the current uthread is put away on both levels
    obtain ⟨lists₁, h₁, hlayout₁, heq⟩ :=
      shows_putAway flags clock.stop h hlayout hkt hconserved.placed
    have hwf := (hconserved.putAway hctx flags clock.stop).wellFormed
    simp only [uthreadSchedule, GTThreads.uthreadSchedule, hkt, hctx, Option.bind_eq_bind,
      Option.bind_some]
    rw [heq] at hwf ⊢
    generalize putAway flags k kt clock.stop s = s₁ at h₁ hlayout₁ hwf
    -- then both make the same choice, and resume it
    have hchoice := schedFindBestUthread_rel flags h₁ hlayout₁ hwf k
    refine System.rel_bind hchoice ?_
    rintro ⟨uObj, kthreadCpuMap, q⟩ ⟨uObj', map'⟩ - - ⟨huObj, lists₂, h₂, hlayout₂, hmap⟩
    obtain rfl : uObj = uObj' := huObj
    obtain rfl : map' = contexts q lists₂ kthreadCpuMap := hmap
    exact .some (shows_resume ⟨lists₂, h₂, hlayout₂, rfl⟩ k uObj clock.start)

theorem beforeSchedule_rel (k : Fin gtMaxCores) (ending : Ending) (finish : ℤ)
    {t : GTThreads.State} (hshows : Shows s t) :
    Option.Rel Shows (beforeSchedule k ending finish s)
      (GTThreads.beforeSchedule k ending finish t) := by
  obtain ⟨lists, h, hlayout, rfl⟩ := hshows
  -- both levels read the same current uthread
  have hcur : ((s.read lists).kthreadCpuMap k).bind (fun ctx => ctx.krunqueue.curUthread) =
      (s.kthreadCpuMap k).bind fun kt => kt.curUthread := by
    simp only [State.read, contexts]
    cases s.kthreadCpuMap k <;> rfl
  have hwrite : ∀ uthreads, Shows { s with uthreads := uthreads }
      { s.read lists with uthreads := uthreads } := fun uthreads => ⟨lists, h, hlayout, rfl⟩
  cases ending with
  | preempted => exact .some ⟨lists, h, hlayout, rfl⟩
  | finished =>
    simp only [beforeSchedule, GTThreads.beforeSchedule, hcur]
    cases (s.kthreadCpuMap k).bind fun kt => kt.curUthread with
    | none => exact .none
    | some u => exact .some (hwrite _)
  | yielded =>
    simp only [beforeSchedule, GTThreads.beforeSchedule, hcur]
    cases (s.kthreadCpuMap k).bind fun kt => kt.curUthread with
    | none => exact .none
    | some u => exact .some (hwrite _)

/-! ### Creating a uthread -/

theorem searchTarget_eq (q : Queues) (lists : Head → List ℕ) (kthreadCpuMap : CpuMap)
    (fuel target : ℕ) :
    GTThreads.searchTarget (contexts q lists kthreadCpuMap) fuel target =
      searchTarget kthreadCpuMap fuel target := by
  induction fuel generalizing target with
  | zero => rfl
  | succ fuel ih =>
    simp only [searchTarget, GTThreads.searchTarget, contexts, Option.isSome_map]
    split
    · rfl
    · exact ih _

theorem uthreadCreate_rel (uGid : Fin maxUthreadGroups) (credits now : ℤ) {t : GTThreads.State}
    (hshows : Shows s t) (hconserved : Conservation.Conserved t) :
    Option.Rel Shows (uthreadCreate uGid credits now s)
      (GTThreads.uthreadCreate uGid credits now t) := by
  obtain ⟨lists, h, hlayout, rfl⟩ := hshows
  have hsearch : kschedFindTarget (s.read lists).kthreadCpuMap (s.lastUgroupKthread uGid) =
      searchTarget s.kthreadCpuMap gtMaxCores (s.lastUgroupKthread uGid) := searchTarget_eq ..
  simp only [uthreadCreate, GTThreads.uthreadCreate, Option.bind_eq_bind]
  rw [show (s.read lists).lastUgroupKthread = s.lastUgroupKthread from rfl, hsearch]
  cases searchTarget s.kthreadCpuMap gtMaxCores (s.lastUgroupKthread uGid) with
  | none => exact .none
  | some target =>
    simp only [Option.bind_some]
    cases hkt : s.kthreadCpuMap target with
    | none =>
      rw [show (s.read lists).kthreadCpuMap target = none by
        simp only [State.read, contexts, hkt, Option.map_none]]
      exact .none
    | some kt =>
      rw [show (s.read lists).kthreadCpuMap target = some (kt.context s.queues lists target) by
        simp only [State.read, contexts, hkt, Option.map_some]]
      -- the new uthread is in no queue yet
      have hnew : ∀ head, s.kthreadTotUthreads ∉ lists head := by
        intro head hmem
        obtain ⟨place, -, hat⟩ := hlayout.at_of_mem hmem s.queues
        exact hconserved.placed.not_at_tot place hat
      obtain ⟨lists', h', honly, hrunq⟩ := addToRunqueue_spec
        (Function.update s.uthreads s.kthreadTotUthreads
          (newUthread s.kthreadTotUthreads uGid credits now kt.cpuid)) h hnew kt.activeRunq
      refine .some ⟨lists', h', hlayout.onlyRunq hkt (hlayout.active target kt hkt) honly, ?_⟩
      have hmap := hlayout.contexts_setActive hkt honly
      rw [hrunq] at hmap
      simp only [State.read, hmap]
      rfl

/-! ### All runs -/

theorem shows_initial (cpuids : Fin gtMaxCores → Option ℕ) :
    Shows (initial cpuids) (GTThreads.initial cpuids) := by
  refine ⟨fun _ => [], .initial _, ⟨fun k kt hkt => ?_, fun k kt hkt => ?_, fun k _ => ?_⟩, ?_⟩
  · obtain ⟨cpuid, -, rfl⟩ := Option.map_eq_some_iff.mp hkt
    rfl
  · obtain ⟨cpuid, -, rfl⟩ := Option.map_eq_some_iff.mp hkt
    rfl
  · exact ⟨fun _ _ _ => rfl, rfl⟩
  · have hmap : (GTThreads.initial cpuids).kthreadCpuMap =
        contexts (initial cpuids).queues (fun _ => []) (initial cpuids).kthreadCpuMap := by
      funext k
      simp only [GTThreads.initial, initial, contexts, Option.map_map]
      cases cpuids k <;> rfl
    rw [State.read, ← hmap]
    rfl

/-- The scheduler on linked queues takes the steps of the scheduler on lists, one for one. -/
theorem linked_stepForStep (flags : Flags) (cpuids : Fin gtMaxCores → Option ℕ) :
    System.StepForStep (linkedGtthreads flags cpuids) (gtthreads flags cpuids) Shows where
  init := shows_initial cpuids
  step s t l _ ht hshows := by
    have hconserved := (Conservation.sound_of_reachable ht).conserved
    cases l with
    | create uGid credits now => exact uthreadCreate_rel uGid credits now hshows hconserved
    | schedule k ending clock =>
      refine System.rel_bind (beforeSchedule_rel k ending clock.finish hshows) ?_
      intro s₁ t₁ hs₁ ht₁ hshows₁
      exact uthreadSchedule_rel flags k clock hshows₁ (hconserved.beforeSchedule ht₁).1

/-- Whatever the sequence of creations and scheduling steps, the scheduler on linked queues fails
where the one on lists fails, and otherwise ends in the state of which the other is the reading. -/
theorem linked_run (flags : Flags) (cpuids : Fin gtMaxCores → Option ℕ) (ls : List Label) :
    Option.Rel Shows
      ((linkedGtthreads flags cpuids).guardedRun System.anyStep (initial cpuids) ls)
      ((gtthreads flags cpuids).guardedRun System.anyStep (GTThreads.initial cpuids) ls) :=
  (linked_stepForStep flags cpuids).run ls

/-! ### What the links hold -/

/-- The uthreads that `TAILQ_FOREACH` visits from a head on, in as many turns as there are
uthreads. -/
def State.visited (s : State) (head : Head) : List ℕ :=
  walk s.queues.links (s.kthreadTotUthreads + 1) (.first head)

/-- Following the links from the heads of a kthread, the uthread is met in the given structure, or
it is the current one. -/
def LinkedAt (s : State) (u : ℕ) (place : Place) : Prop :=
  ∃ kt, s.kthreadCpuMap place.kthread = some kt ∧
    match place.slot with
    | .active => ∃ p g, u ∈ s.visited (.group kt.activeRunq p g)
    | .expires => ∃ p g, u ∈ s.visited (.group kt.expiresRunq p g)
    | .current => kt.curUthread = some u
    | .zombie => u ∈ s.visited (.zombies place.kthread)

/-- A queue has fewer elements than uthreads were created. -/
theorem length_le_tot (h : Represents s.queues.links lists) (hlayout : Layout s.kthreadCpuMap lists)
    (hconserved : Conservation.Conserved (s.read lists)) (head : Head) :
    (lists head).length ≤ s.kthreadTotUthreads := by
  have hsubset : lists head ⊆ List.range s.kthreadTotUthreads := by
    intro u hmem
    obtain ⟨place, -, hat⟩ := hlayout.at_of_mem hmem s.queues
    exact List.mem_range.mpr (hconserved.created u place hat)
  simpa using ((h.nodup head).subperm hsubset).length_le

theorem linkedAt_iff (h : Represents s.queues.links lists) (hlayout : Layout s.kthreadCpuMap lists)
    (hconserved : Conservation.Conserved (s.read lists)) (u : ℕ) (place : Place) :
    LinkedAt s u place ↔ Conservation.At (s.read lists).kthreadCpuMap u place := by
  have hvisited : ∀ head, s.visited head = lists head := fun head =>
    h.walk_eq (Nat.lt_succ_of_le (length_le_tot h hlayout hconserved head))
  obtain ⟨k, slot⟩ := place
  cases hkt : s.kthreadCpuMap k with
  | none => simp [LinkedAt, Conservation.At, State.read, contexts, hkt]
  | some kt =>
    have hctx : (s.read lists).kthreadCpuMap k = some (kt.context s.queues lists k) := by
      simp only [State.read, contexts, hkt, Option.map_some]
    have hat : Conservation.At (s.read lists).kthreadCpuMap u ⟨k, slot⟩ ↔ _ :=
      Conservation.at_iff hctx
    rw [hat]
    simp only [LinkedAt, hkt, Option.some.injEq, exists_eq_left', hvisited]
    cases slot <;> exact Iff.rfl

/-- In every state of a run the links are a set of disjoint, acyclic queues: a walk from any head
ends after at most as many turns as uthreads were created, and visits none twice. Every uthread
that was created is met in exactly one of the structures of one kthread. -/
theorem links_conserved (flags : Flags) (cpuids : Fin gtMaxCores → Option ℕ)
    (hr : (linkedGtthreads flags cpuids).Reachable System.anyStep s) :
    (∀ head, (s.visited head).Nodup ∧ ∀ fuel, s.kthreadTotUthreads < fuel →
        walk s.queues.links fuel (.first head) = s.visited head) ∧
      ∀ u < s.kthreadTotUthreads, ∃! place, LinkedAt s u place := by
  obtain ⟨t, ht, lists, h, hlayout, rfl⟩ := (linked_stepForStep flags cpuids).reachable hr
  have hconserved := (Conservation.sound_of_reachable ht).conserved
  have hwalk : ∀ head fuel, s.kthreadTotUthreads < fuel →
      walk s.queues.links fuel (.first head) = lists head := fun head fuel hfuel =>
    h.walk_eq ((length_le_tot h hlayout hconserved head).trans_lt hfuel)
  refine ⟨fun head => ?_, fun u hu => ?_⟩
  · have hvisited : s.visited head = lists head := hwalk head _ (Nat.lt_succ_self _)
    rw [hvisited]
    exact ⟨h.nodup head, hwalk head⟩
  · simpa only [linkedAt_iff h hlayout hconserved] using hconserved.existsUnique_place u hu

/-- Four uthreads on two kthreads: two of them end on the same kthread and are linked into its
queue of zombies, and a third one is stolen. -/
theorem links_conserved_pair :
    ∃ s, (linkedGtthreads ⟨true, true, true⟩ Conservation.pairCpuids).Reachable
        System.anyStep s ∧
      s.visited (.zombies 1) = [0, 2] ∧ s.kthreadTotUthreads = 4 ∧
      ∀ u < s.kthreadTotUthreads, ∃! place, LinkedAt s u place := by
  have hrun : ((linkedGtthreads ⟨true, true, true⟩ Conservation.pairCpuids).guardedRun
      System.anyStep (linkedGtthreads ⟨true, true, true⟩ Conservation.pairCpuids).init
      [.create 0 100 0, .create 0 100 0, .create 0 100 0, .create 0 100 0,
        .schedule 1 .preempted ⟨0, 0, 5⟩, .schedule 1 .finished ⟨9, 9, 9⟩,
        .schedule 1 .finished ⟨19, 19, 19⟩, .schedule 0 .preempted ⟨0, 0, 20⟩,
        .schedule 0 .yielded ⟨0, 5000, 5000⟩, .schedule 1 .preempted ⟨0, 9000, 9000⟩]).any
      (fun s => decide (s.visited (.zombies 1) = [0, 2] ∧ s.kthreadTotUthreads = 4)) = true := by
    decide +kernel
  obtain ⟨s, hr, hs⟩ := System.Reachable.of_any hrun
  obtain ⟨hzombies, htot⟩ : s.visited (.zombies 1) = [0, 2] ∧ s.kthreadTotUthreads = 4 :=
    of_decide_eq_true hs
  exact ⟨s, hr, hzombies, htot, (links_conserved _ _ hr).2⟩

end Linked

end GTThreads

end OSLab
