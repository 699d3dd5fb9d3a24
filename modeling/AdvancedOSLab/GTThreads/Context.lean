import AdvancedOSLab.GTThreads.Conservation
import AdvancedOSLab.GTThreads.Sections

/-!
# A uthread is resumed from the context it was left in

`uthread_schedule` puts the current uthread into a runqueue first and saves its context with
`sigsetjmp` afterwards. With load balancing, another kthread can take the uthread out of the
runqueue in between and resume it from a context of an earlier time; and as long as the first
kthread has not jumped away, both execute on the stack of the uthread
(`resumed_before_context_is_saved`).

## The argument

A kthread has a uthread (`Has`) if it executes on its behalf, holds it in one of its structures, or
carries it from the runqueue of another kthread to its own. The invariant `Owned` says that no two
kthreads have the same uthread, and for each kthread what its phase says about the uthreads it has
(`KthreadOK`). A section touches one uthread at most, and leaves the other kthreads what they have
(`Touches`, `Owned.of_touches`).

The one section that takes a uthread from another kthread is `steal`. The other kthread then holds
the uthread in its runqueue no more, but it may still execute on its stack. So the invariant needs
that kthreads steal only from those that do not execute on behalf of a uthread in their active
runqueue (`stealsAside`), and this is all it needs (`resumes_safely`).
-/

namespace OSLab

namespace GTThreads

open Runqueue

namespace Context

open Conservation Machine

/-- Whenever a kthread is about to resume a uthread, the context of the uthread was saved after its
most recent execution stopped, and no other kthread executes on its behalf. -/
def ResumesSafely (m : Machine) : Prop :=
  ∀ k stack u, m.phase k = .jumping stack u →
    m.saved u = true ∧ ∀ j, j ≠ k → m.executing j ≠ some u

/-- The kthread at the given slot, unless it has quit, does not execute on behalf of a uthread in
its active runqueue. -/
def OffItsQueue (m : Machine) (i : Fin gtMaxCores) : Prop :=
  ∀ other ∈ m.sched.kthreadCpuMap i, other.kthreadDone = false →
    ∀ u ∈ m.executing i, ¬ other.krunqueue.Holds u .active

/-- A kthread in front of a slot of the steal loop may go on. -/
def MayTake (m : Machine) (k : Fin gtMaxCores) : Phase → Prop
  | .stealing _ i => ∀ ctx ∈ m.sched.kthreadCpuMap k, i ≠ ctx.cpuid →
      OffItsQueue m (Fin.ofNat gtMaxCores i)
  | _ => True

/-- A kthread takes a uthread out of the active runqueue of another one only while that one does not
execute on behalf of a uthread in it. -/
def stealsAside (m : Machine) : Section → Prop
  | .steal k => MayTake m k (m.phase k)
  | _ => True

instance (m : Machine) (i : Fin gtMaxCores) : Decidable (OffItsQueue m i) :=
  have (krunq : KthreadRunqueue) (u : ℕ) : Decidable (krunq.Holds u .active) :=
    inferInstanceAs (Decidable (∃ p g, u ∈ krunq.activeRunq.queue p g))
  inferInstanceAs (Decidable (∀ other ∈ m.sched.kthreadCpuMap i, other.kthreadDone = false →
    ∀ u ∈ m.executing i, ¬ other.krunqueue.Holds u .active))

instance (m : Machine) (k : Fin gtMaxCores) : (phase : Phase) → Decidable (MayTake m k phase)
  | .stealing _ i => inferInstanceAs (Decidable (∀ ctx ∈ m.sched.kthreadCpuMap k, i ≠ ctx.cpuid →
      OffItsQueue m (Fin.ofNat gtMaxCores i)))
  | .running | .saving _ | .choosing _ | .carrying _ _ | .exchanging _ | .jumping _ _
  | .leaving _ => instDecidableTrue

instance (m : Machine) : (l : Section) → Decidable (stealsAside m l)
  | .steal k => inferInstanceAs (Decidable (MayTake m k (m.phase k)))
  | .create .. | .enter .. | .save _ | .pick .. | .pass .. | .exchange .. | .jump _
  | .leave _ => instDecidableTrue

/-! ### What a kthread has -/

/-- The uthread can be resumed: its context is saved, or it gets its first one when it is. -/
def Ready (m : Machine) (u : ℕ) : Prop :=
  m.saved u = true ∨ (m.sched.uthreads u).uthreadState = .init

/-- The kthread is between the two runqueues with a stolen uthread. -/
def Carries (m : Machine) (k : Fin gtMaxCores) (u : ℕ) : Prop :=
  ∃ stack, m.phase k = .carrying stack u

/-- The kthread executes on behalf of the uthread, holds it in a structure, or carries it. -/
def Has (m : Machine) (k : Fin gtMaxCores) (u : ℕ) : Prop :=
  m.executing k = some u ∨ (∃ slot, At m.sched.kthreadCpuMap u ⟨k, slot⟩) ∨ Carries m k u

/-- What the phase of a kthread says about the uthreads it has. -/
structure KthreadOK (m : Machine) (k : Fin gtMaxCores) : Prop where
  /-- inside the scheduler there is no current uthread, but the one that is about to be resumed -/
  current : ∀ u, At m.sched.kthreadCpuMap u ⟨k, .current⟩ →
    m.phase k = .running ∨ ∃ stack, m.phase k = .jumping stack u
  jumping : ∀ stack u, m.phase k = .jumping stack u →
    At m.sched.kthreadCpuMap u ⟨k, .current⟩ ∧ m.saved u = true
  carrying : ∀ u, Carries m k u → Ready m u ∧ ∀ slot, ¬ At m.sched.kthreadCpuMap u ⟨k, slot⟩
  /-- what is in a runqueue can be resumed, but for the uthread that the kthread still saves -/
  queued : ∀ u slot, At m.sched.kthreadCpuMap u ⟨k, slot⟩ → slot = .active ∨ slot = .expires →
    m.phase k ≠ .saving u → Ready m u

/-- The invariant: no two kthreads have the same uthread. -/
structure Owned (m : Machine) : Prop where
  placed : Placed m.sched
  exclusive : ∀ {u i j}, Has m i u → Has m j u → i = j
  created : ∀ {u k}, Has m k u → u < m.sched.kthreadTotUthreads
  kthread : ∀ k, KthreadOK m k

variable {flags : Flags} {m m' : Machine} {k j : Fin gtMaxCores} {u v : ℕ} {touched : Option ℕ}
  {stack : Option ℕ} {s : State} {ctx : KthreadContext}

theorem executing_of_running (h : m.phase k = .running) :
    m.executing k = some u ↔ At m.sched.kthreadCpuMap u ⟨k, .current⟩ := by
  rw [executing, h]
  exact Option.bind_eq_some_iff

theorem executing_of_ne_running (h : m.phase k ≠ .running) : m.executing k = (m.phase k).stack := by
  rw [executing]
  split
  · next hrunning => exact absurd hrunning h
  · rfl

/-! ### Sections touch one uthread -/

/-- A section of the kthread `k` that leaves all uthreads but the touched one alone, and all of them
that other kthreads have. -/
structure Touches (k : Fin gtMaxCores) (touched : Option ℕ) (m m' : Machine) : Prop where
  phase_eq : ∀ j ≠ k, m'.phase j = m.phase j
  at_iff : ∀ j ≠ k, ∀ v ∉ touched, ∀ slot,
    At m'.sched.kthreadCpuMap v ⟨j, slot⟩ ↔ At m.sched.kthreadCpuMap v ⟨j, slot⟩
  not_at : ∀ j ≠ k, ∀ v ∈ touched, ∀ slot, ¬ At m'.sched.kthreadCpuMap v ⟨j, slot⟩
  saved : ∀ v ∉ touched, m.saved v = true → m'.saved v = true
  state_eq : ∀ v ∉ touched,
    (m'.sched.uthreads v).uthreadState = (m.sched.uthreads v).uthreadState
  tot_le : m.sched.kthreadTotUthreads ≤ m'.sched.kthreadTotUthreads

/-- No kthread but `k` is on the stack of the uthread, about to resume it, or carries it. -/
def Aside (m : Machine) (k : Fin gtMaxCores) (u : ℕ) : Prop :=
  ∀ j ≠ k, m.executing j ≠ some u ∧ ¬ Carries m j u ∧ ¬ At m.sched.kthreadCpuMap u ⟨j, .current⟩

theorem Owned.aside (h : Owned m) (hhas : Has m k u) : Aside m k u := by
  intro j hj
  have hnot : ¬ Has m j u := fun hhas' => hj (h.exclusive hhas' hhas)
  exact ⟨fun hexec => hnot (.inl hexec), fun hcarries => hnot (.inr (.inr hcarries)),
    fun hat => hnot (.inr (.inl ⟨_, hat⟩))⟩

namespace Touches

theorem ready (ht : Touches k touched m m') (hv : v ∉ touched) (hready : Ready m v) :
    Ready m' v :=
  hready.imp (ht.saved v hv) fun hinit => (ht.state_eq v hv).trans hinit

/-- What is in the structures of another kthread was there before, and is not touched. -/
theorem at_of_ne (ht : Touches k touched m m') (hj : j ≠ k) {slot : Slot}
    (hat : At m'.sched.kthreadCpuMap v ⟨j, slot⟩) :
    v ∉ touched ∧ At m.sched.kthreadCpuMap v ⟨j, slot⟩ := by
  have hv : v ∉ touched := fun hv => ht.not_at j hj v hv slot hat
  exact ⟨hv, (ht.at_iff j hj v hv slot).mp hat⟩

/-- Another kthread gains nothing, and does not have the touched uthread. -/
theorem has_of_ne (ht : Touches k touched m m') (haside : ∀ v ∈ touched, Aside m k v)
    (hj : j ≠ k) (hhas : Has m' j v) : v ∉ touched ∧ Has m j v := by
  have hphase := ht.phase_eq j hj
  obtain hexec | ⟨slot, hslot⟩ | ⟨stack, hcarries⟩ := hhas
  · by_cases hrunning : m.phase j = .running
    · obtain ⟨hv, hcur⟩ := ht.at_of_ne hj ((executing_of_running (hphase.trans hrunning)).mp hexec)
      exact ⟨hv, .inl ((executing_of_running hrunning).mpr hcur)⟩
    · have hexec' : m.executing j = some v := by
        rw [executing_of_ne_running hrunning, ← hexec, ← hphase]
        exact (executing_of_ne_running (hphase ▸ hrunning)).symm
      exact ⟨fun hv => (haside v hv j hj).1 hexec', .inl hexec'⟩
  · obtain ⟨hv, hslot'⟩ := ht.at_of_ne hj hslot
    exact ⟨hv, .inr (.inl ⟨slot, hslot'⟩)⟩
  · have hcarries' : Carries m j v := ⟨stack, hphase ▸ hcarries⟩
    exact ⟨fun hv => (haside v hv j hj).2.1 hcarries', .inr (.inr hcarries')⟩

theorem kthreadOK_of_ne (ht : Touches k touched m m') (haside : ∀ v ∈ touched, Aside m k v)
    (hj : j ≠ k) (h : KthreadOK m j) : KthreadOK m' j := by
  have hphase := ht.phase_eq j hj
  refine ⟨fun v hcur => ?_, fun stack v hjumping => ?_, fun v hcarries => ?_,
    fun v slot hqueued hslot hsaving => ?_⟩
  · rw [hphase]
    exact h.current v (ht.at_of_ne hj hcur).2
  · obtain ⟨hcur, hsaved⟩ := h.jumping stack v (hphase ▸ hjumping)
    have hv : v ∉ touched := fun hv => (haside v hv j hj).2.2 hcur
    exact ⟨(ht.at_iff j hj v hv _).mpr hcur, ht.saved v hv hsaved⟩
  · obtain ⟨stack, hcarries⟩ := hcarries
    have hcarries' : Carries m j v := ⟨stack, hphase ▸ hcarries⟩
    have hv : v ∉ touched := fun hv => (haside v hv j hj).2.1 hcarries'
    obtain ⟨hready, hnot⟩ := h.carrying v hcarries'
    exact ⟨ht.ready hv hready, fun slot hslot => hnot slot (ht.at_of_ne hj hslot).2⟩
  · obtain ⟨hv, hqueued'⟩ := ht.at_of_ne hj hqueued
    exact ht.ready hv (h.queued v slot hqueued' hslot (hphase ▸ hsaving))

end Touches

/-- **The frame rule.** A section of `k` keeps the invariant if the other kthreads keep clear of the
touched uthread, `k` gets no other one, and `k` itself is right afterwards. -/
theorem Owned.of_touches (h : Owned m) (ht : Touches k touched m m')
    (haside : ∀ v ∈ touched, Aside m k v) (hplaced : Placed m'.sched)
    (hhas : ∀ v, Has m' k v → Has m k v ∨ (v ∈ touched ∧ v < m'.sched.kthreadTotUthreads))
    (hk : KthreadOK m' k) : Owned m' := by
  refine ⟨hplaced, @fun v i j hi hj => ?_, @fun v j hj => ?_, fun j => ?_⟩
  · by_cases hik : i = k <;> by_cases hjk : j = k
    · rw [hik, hjk]
    · -- what the other kthread has was not touched
      subst hik
      obtain ⟨hv, hj'⟩ := ht.has_of_ne haside hjk hj
      obtain hi' | ⟨hv', -⟩ := hhas v hi
      · exact h.exclusive hi' hj'
      · exact absurd hv' hv
    · subst hjk
      obtain ⟨hv, hi'⟩ := ht.has_of_ne haside hik hi
      obtain hj' | ⟨hv', -⟩ := hhas v hj
      · exact h.exclusive hi' hj'
      · exact absurd hv' hv
    · exact h.exclusive (ht.has_of_ne haside hik hi).2 (ht.has_of_ne haside hjk hj).2
  · by_cases hjk : j = k
    · subst hjk
      obtain hj' | ⟨-, hlt⟩ := hhas v hj
      · exact (h.created hj').trans_le ht.tot_le
      · exact hlt
    · exact (h.created (ht.has_of_ne haside hjk hj).2).trans_le ht.tot_le
  · by_cases hjk : j = k
    · exact hjk ▸ hk
    · exact ht.kthreadOK_of_ne haside hjk (h.kthread j)

/-! ### Sections that move nothing -/

/-- The phases in which a kthread looks for the next uthread. -/
def Searching : Phase → Prop
  | .choosing _ | .stealing _ _ | .exchanging _ | .leaving _ => True
  | _ => False

namespace Searching

variable {phase : Phase}

theorem ne_running (h : Searching phase) : phase ≠ .running := by
  rintro rfl
  exact h

theorem ne_jumping (h : Searching phase) (stack : Option ℕ) (u : ℕ) : phase ≠ .jumping stack u := by
  rintro rfl
  exact h

theorem ne_carrying (h : Searching phase) (stack : Option ℕ) (u : ℕ) :
    phase ≠ .carrying stack u := by
  rintro rfl
  exact h

theorem ne_saving (h : Searching phase) (u : ℕ) : phase ≠ .saving u := by
  rintro rfl
  exact h

end Searching

/-- A kthread goes to another phase, and possibly saves a context or uses one up. -/
theorem Owned.moveOn {saved : ℕ → Bool} {phase : Phase} (h : Owned m) (touched : Option ℕ)
    (hsaved : ∀ v ∉ touched, m.saved v = true → saved v = true)
    (htouched : ∀ v ∈ touched, ∃ slot, At m.sched.kthreadCpuMap v ⟨k, slot⟩)
    (hexec : ∀ v, (setPhase { m with saved := saved } k phase).executing k = some v → Has m k v)
    (hcarries : ∀ stack v, phase ≠ .carrying stack v)
    (hk : KthreadOK (setPhase { m with saved := saved } k phase) k) :
    Owned (setPhase { m with saved := saved } k phase) := by
  have ht : Touches k touched m (setPhase { m with saved := saved } k phase) := by
    refine ⟨fun j hj => Function.update_of_ne hj _ _, fun _ _ _ _ _ => Iff.rfl, ?_, hsaved,
      fun _ _ => rfl, le_rfl⟩
    intro j hj v hv slot hat
    obtain ⟨slot', hat'⟩ := htouched v hv
    exact hj (congrArg Place.kthread (h.placed.eq_of_at hat' hat))
  have haside : ∀ v ∈ touched, Aside m k v := fun v hv => h.aside (.inr (.inl (htouched v hv)))
  refine h.of_touches ht haside h.placed (fun v hhas => .inl ?_) hk
  obtain hexec' | hat | ⟨stack, hcarry⟩ := hhas
  · exact hexec v hexec'
  · exact .inr (.inl hat)
  · have hphase : (setPhase { m with saved := saved } k phase).phase k = phase :=
      Function.update_self ..
    exact absurd (hphase.symm.trans hcarry) (hcarries stack v)

/-- A searching kthread has nothing but the stack it is on and what is in its structures. -/
theorem kthreadOK_of_searching (hphase : Searching (m.phase k))
    (hcur : ∀ v, ¬ At m.sched.kthreadCpuMap v ⟨k, .current⟩)
    (hqueued : ∀ v slot, At m.sched.kthreadCpuMap v ⟨k, slot⟩ → slot = .active ∨ slot = .expires →
      Ready m v) : KthreadOK m k := by
  refine ⟨fun v hat => absurd hat (hcur v), fun stack v hjumping => ?_, ?_,
    fun v slot hat hslot _ => hqueued v slot hat hslot⟩
  · exact absurd hjumping (hphase.ne_jumping stack v)
  · rintro v ⟨stack, hcarrying⟩
    exact absurd hcarrying (hphase.ne_carrying stack v)

/-- What a running kthread has in its runqueues can be resumed. -/
theorem kthreadOK_of_running (hphase : m.phase k = .running)
    (hqueued : ∀ v slot, At m.sched.kthreadCpuMap v ⟨k, slot⟩ → slot = .active ∨ slot = .expires →
      Ready m v) : KthreadOK m k := by
  refine ⟨fun v _ => .inl hphase, fun stack v hjumping => ?_, ?_,
    fun v slot hat hslot _ => hqueued v slot hat hslot⟩
  · exact absurd (hphase.symm.trans hjumping) (by simp)
  · rintro v ⟨stack, hcarrying⟩
    exact absurd (hphase.symm.trans hcarrying) (by simp)

/-- Sections after which a kthread looks further for the next uthread. -/
theorem Owned.search {saved : ℕ → Bool} {phase : Phase} (h : Owned m) (hphase : Searching phase)
    (hstack : ∀ v, phase.stack = some v → m.executing k = some v)
    (hsaved : ∀ v, m.saved v = true → saved v = true)
    (hcur : ∀ v, ¬ At m.sched.kthreadCpuMap v ⟨k, .current⟩)
    (hqueued : ∀ v slot, At m.sched.kthreadCpuMap v ⟨k, slot⟩ → slot = .active ∨ slot = .expires →
      saved v = true ∨ (m.sched.uthreads v).uthreadState = .init) :
    Owned (setPhase { m with saved := saved } k phase) := by
  have hphase' : (setPhase { m with saved := saved } k phase).phase k = phase :=
    Function.update_self ..
  refine h.moveOn none (fun v _ => hsaved v) (by simp) (fun v hexec => ?_) ?_ ?_
  · have hne : (setPhase { m with saved := saved } k phase).phase k ≠ .running := by
      rw [hphase']
      exact hphase.ne_running
    rw [executing_of_ne_running hne, hphase'] at hexec
    exact .inl (hstack v hexec)
  · exact hphase.ne_carrying
  · exact kthreadOK_of_searching (hphase'.symm ▸ hphase) hcur hqueued

/-- A kthread inside the scheduler has no current uthread, unless it is about to resume it. -/
theorem Owned.not_current (h : Owned m) (hrunning : m.phase k ≠ .running)
    (hjumping : ∀ stack u, m.phase k ≠ .jumping stack u) (v : ℕ) :
    ¬ At m.sched.kthreadCpuMap v ⟨k, .current⟩ := by
  intro hat
  obtain hphase | ⟨stack, hphase⟩ := (h.kthread k).current v hat
  · exact hrunning hphase
  · exact hjumping stack v hphase

theorem curUthread_eq_none {kthreadCpuMap : KthreadCpuMap} (hctx : kthreadCpuMap k = some ctx)
    (hcur : ∀ v, ¬ At kthreadCpuMap v ⟨k, .current⟩) : ctx.krunqueue.curUthread = none :=
  Option.eq_none_iff_forall_ne_some.mpr fun v hv => hcur v ⟨ctx, hctx, hv⟩

/-- A searching kthread goes on searching. -/
theorem Owned.searchOn {phase : Phase} (h : Owned m) (hfrom : Searching (m.phase k))
    (hphase : Searching phase) (hstack : phase.stack = (m.phase k).stack) :
    Owned (m.setPhase k phase) := by
  refine h.search hphase (fun v hv => ?_) (fun v => id)
    (h.not_current hfrom.ne_running hfrom.ne_jumping)
    fun v slot hat hslot => (h.kthread k).queued v slot hat hslot (hfrom.ne_saving v)
  rw [executing_of_ne_running hfrom.ne_running, ← hstack, hv]

theorem Owned.save (h : Owned m) (hs : save k m = some m') : Owned m' := by
  rw [Machine.save] at hs
  split at hs
  swap
  · exact absurd hs (by simp)
  next u hphase =>
  obtain rfl := Option.some.inj hs
  have hrunning : m.phase k ≠ .running := by simp [hphase]
  refine h.search trivial (fun v hv => ?_) (fun v hv => ?_)
    (h.not_current hrunning (by simp [hphase])) fun v slot hat hslot => ?_
  · rw [executing_of_ne_running hrunning, hphase]
    exact hv
  · rw [Function.update_apply]
    split
    · rfl
    · exact hv
  · -- the context that was missing is the one that is saved now
    by_cases hv : v = u
    · exact .inl (by rw [hv, Function.update_self])
    · have hready := (h.kthread k).queued v slot hat hslot (by simp [hphase, Ne.symm hv])
      exact hready.imp_left fun hsaved => (Function.update_of_ne hv _ _).trans hsaved

theorem Owned.jump (h : Owned m) (hs : jump k m = some m') : Owned m' := by
  rw [Machine.jump] at hs
  split at hs
  swap
  · exact absurd hs (by simp)
  next stack u hphase =>
  obtain rfl := Option.some.inj hs
  obtain ⟨hcur, -⟩ := (h.kthread k).jumping stack u hphase
  have hrunning : (setPhase { m with saved := Function.update m.saved u false } k
      .running).phase k = .running := Function.update_self ..
  -- the uthread that is resumed is the current one, so it is in no runqueue
  have hready : ∀ {v slot}, At m.sched.kthreadCpuMap v ⟨k, slot⟩ →
      slot = .active ∨ slot = .expires → v ≠ u := by
    rintro v slot hat hslot rfl
    have heq : slot = .current := congrArg Place.slot (h.placed.eq_of_at hcur hat)
    simp [heq] at hslot
  -- from now on its context counts as used
  refine h.moveOn (some u) (fun v hv hsaved => ?_) ?_ (fun v hexec => ?_) (by simp) ?_
  · exact (Function.update_of_ne (fun heq => hv (congrArg some heq.symm)) _ _).trans hsaved
  · rintro v hv
    obtain rfl := Option.some.inj hv
    exact ⟨_, hcur⟩
  · exact .inr (.inl ⟨_, (executing_of_running hrunning).mp hexec⟩)
  · refine kthreadOK_of_running hrunning fun v slot hat hslot => ?_
    have hv : v ≠ u := hready hat hslot
    have hready' := (h.kthread k).queued v slot hat hslot (by simp [hphase])
    exact hready'.imp_left fun hsaved => (Function.update_of_ne hv _ _).trans hsaved

theorem Owned.leave (h : Owned m) (hs : leave k m = some m') : Owned m' := by
  rw [Machine.leave] at hs
  split at hs
  swap
  · exact absurd hs (by simp)
  next stack hphase =>
  obtain rfl := Option.some.inj hs
  have hnot : ∀ v, ¬ At m.sched.kthreadCpuMap v ⟨k, .current⟩ :=
    h.not_current (by simp [hphase]) (by simp [hphase])
  have hrunning : (m.setPhase k .running).phase k = .running := Function.update_self ..
  refine h.moveOn none (fun v _ => id) (by simp) (fun v hexec => ?_) (by simp) ?_
  · exact absurd ((executing_of_running hrunning).mp hexec) (hnot v)
  · exact kthreadOK_of_running hrunning fun v slot hat hslot =>
      (h.kthread k).queued v slot hat hslot (by simp [hphase])

/-! ### Sections that move a uthread -/

/-- A section that moves one uthread, within the kthread or to it. -/
theorem touches_of_moved {slot : Slot}
    (hmoved : Moved m.sched.kthreadCpuMap m'.sched.kthreadCpuMap u ⟨k, slot⟩)
    (hphase : ∀ j ≠ k, m'.phase j = m.phase j)
    (hsaved : ∀ v ≠ u, m.saved v = true → m'.saved v = true)
    (hstate : ∀ v ≠ u, (m'.sched.uthreads v).uthreadState = (m.sched.uthreads v).uthreadState)
    (htot : m.sched.kthreadTotUthreads ≤ m'.sched.kthreadTotUthreads) :
    Touches k (some u) m m' := by
  have hne : ∀ {v}, v ∉ some u → v ≠ u := fun hv heq => hv (congrArg some heq.symm)
  refine ⟨hphase, fun j _ v hv slot' => ?_, fun j hj v hv slot' hat => ?_,
    fun v hv => hsaved v (hne hv), fun v hv => hstate v (hne hv), htot⟩
  · rw [hmoved, if_neg (hne hv)]
  · obtain rfl := Option.some.inj hv
    rw [hmoved, if_pos rfl] at hat
    exact hj (congrArg Place.kthread hat)

/-- The uthread that was found is about to be resumed. -/
theorem Owned.prepare {start : ℤ} {kthreadCpuMap : KthreadCpuMap} (h : Owned m)
    (hwf : WellFormed (prepare k stack u start kthreadCpuMap m).sched.uthreads
      (prepare k stack u start kthreadCpuMap m).sched.kthreadCpuMap)
    (hmoved : Moved m.sched.kthreadCpuMap
      (prepare k stack u start kthreadCpuMap m).sched.kthreadCpuMap u ⟨k, .current⟩)
    (hhas : Has m k u) (hready : Ready m u)
    (hrunning : m.phase k ≠ .running) (hstack : stack = (m.phase k).stack)
    (hcur : ∀ v, ¬ At m.sched.kthreadCpuMap v ⟨k, .current⟩)
    (hsaving : ∀ v, m.phase k ≠ .saving v) :
    Owned (prepare k stack u start kthreadCpuMap m) := by
  have hphase : (Machine.prepare k stack u start kthreadCpuMap m).phase k = .jumping stack u :=
    Function.update_self ..
  have hu := h.created hhas
  -- only this uthread moves
  have ht : Touches k (some u) m (Machine.prepare k stack u start kthreadCpuMap m) := by
    refine touches_of_moved hmoved (fun j hj => Function.update_of_ne hj _ _)
      (fun v hv hsaved => ?_) (fun v hv => ?_) le_rfl
    · simp only [Machine.prepare]
      split
      · exact (Function.update_of_ne hv _ _).trans hsaved
      · exact hsaved
    · simp only [Machine.prepare, dispatch, Function.update_of_ne hv]
  have haside : ∀ v ∈ some u, Aside m k v := by
    rintro v hv
    obtain rfl := Option.some.inj hv
    exact h.aside hhas
  refine h.of_touches ht haside (h.placed.of_moved hwf hmoved hu le_rfl) (fun v hv => .inl ?_) ?_
  -- what the kthread has after the step it had before
  · obtain hexec | ⟨slot, hat⟩ | ⟨stack', hcarries⟩ := hv
    · rw [executing_of_ne_running (by simp [hphase]), hphase] at hexec
      refine .inl ?_
      rw [executing_of_ne_running hrunning, ← hstack]
      exact hexec
    · rw [hmoved] at hat
      split at hat
      · next hvu => exact hvu ▸ hhas
      · exact .inr (.inl ⟨slot, hat⟩)
    · exact absurd (hphase.symm.trans hcarries) (by simp)
  · refine ⟨fun v hat => .inr ⟨stack, ?_⟩, fun stack' v hjumping => ?_, ?_,
      fun v slot hat hslot _ => ?_⟩
    · rw [hmoved] at hat
      split at hat
      · next hvu => rw [hphase, hvu]
      · exact absurd hat (hcur v)
    · obtain ⟨-, rfl⟩ := Phase.jumping.inj (hphase.symm.trans hjumping)
      refine ⟨(hmoved u _).mpr (if_pos rfl ▸ rfl), ?_⟩
      simp only [Machine.prepare]
      split
      · exact Function.update_self ..
      -- a uthread that has run before must have been saved; a new one is saved by `uthread_init`
      · next hinit => exact hready.resolve_right hinit
    · rintro v ⟨stack', hcarrying⟩
      exact absurd (hphase.symm.trans hcarrying) (by simp)
    · have hat' := (hmoved v _).mp hat
      split at hat'
      · have heq : slot = .current := congrArg Place.slot hat'
        simp [heq] at hslot
      · next hvu =>
        exact ht.ready (fun heq => hvu (Option.some.inj heq).symm)
          ((h.kthread k).queued v slot hat' hslot (hsaving v))

/-- A uthread that is taken out of a runqueue was in it, and the others stay. -/
theorem takeBest_inv {uthreads : ℕ → Uthread} {runq runq' : Runqueue} {members : List ℕ}
    (h : Represents uthreads runq members) (hmask : runq.uthreadMask ≠ 0)
    (htake : takeBest uthreads runq = some (u, runq')) :
    u ∈ members ∧ Represents uthreads runq' (members.erase u) := by
  have hne : members ≠ [] := mt h.uthreadMask_eq_zero_iff.mpr hmask
  obtain ⟨u', runq'', htake', hu, -, hleft⟩ := takeBest_spec h hne
  obtain ⟨rfl, rfl⟩ := Prod.mk.inj (Option.some.inj (htake.symm.trans htake'))
  exact ⟨hu, hleft⟩

/-- A searching kthread takes a uthread out of its own active runqueue. -/
theorem Owned.takeOwn {runq : Runqueue} (h : Owned m) (hfrom : Searching (m.phase k))
    (hstack : stack = (m.phase k).stack) (hctx : m.sched.kthreadCpuMap k = some ctx)
    (hmask : ctx.krunqueue.activeRunq.uthreadMask ≠ 0)
    (htake : takeBest m.sched.uthreads ctx.krunqueue.activeRunq = some (u, runq)) (start : ℤ) :
    Owned (Machine.prepare k stack u start
      (Function.update m.sched.kthreadCpuMap k (some (ctx.setActive runq))) m) := by
  have hcur := h.not_current hfrom.ne_running hfrom.ne_jumping
  have hidle := curUthread_eq_none hctx hcur
  obtain ⟨members, hmembers⟩ := (h.placed.wellFormed k ctx hctx).active
  obtain ⟨hu, hleft⟩ := takeBest_inv hmembers hmask htake
  have hat : At m.sched.kthreadCpuMap u ⟨k, .active⟩ := ⟨ctx, hctx, hmembers.mem_iff.mpr hu⟩
  obtain ⟨hwf, hmoved⟩ := h.placed.dispatch hctx hidle hmembers hu hleft start
  exact h.prepare hwf hmoved (.inr (.inl ⟨_, hat⟩))
    ((h.kthread k).queued u .active hat (.inl rfl) (hfrom.ne_saving u)) hfrom.ne_running hstack hcur
    hfrom.ne_saving

theorem Owned.pick {start : ℤ} (h : Owned m) (hs : pick flags k start m = some m') : Owned m' := by
  rw [Machine.pick] at hs
  split at hs
  swap
  · exact absurd hs (by simp)
  next stack hphase =>
  have hfrom : Searching (m.phase k) := by rw [hphase]; trivial
  obtain ⟨ctx, hctx, hs⟩ := Option.bind_eq_some_iff.mp hs
  -- a runqueue that is not empty, or the way to the steal loop and the exchange
  by_cases hmask : ctx.krunqueue.activeRunq.uthreadMask ≠ 0
  · rw [if_pos hmask] at hs
    obtain ⟨⟨u, runq⟩, htake, hs⟩ := Option.bind_eq_some_iff.mp hs
    obtain rfl := Option.some.inj hs
    exact h.takeOwn hfrom (by rw [hphase]; rfl) hctx hmask htake start
  · rw [if_neg hmask] at hs
    split at hs
    · exact absurd hs (by simp)
    · obtain rfl := Option.some.inj hs
      refine h.searchOn hfrom ?_ ?_
      · split <;> trivial
      · rw [hphase]
        split <;> rfl

/-- The structures of the kthreads change their roles, but for the current uthread, and runqueues
stay runqueues. -/
theorem Owned.rename {s' : State} (h : Owned m) (hplaced : Placed s')
    (huthreads : s'.uthreads = m.sched.uthreads)
    (htot : s'.kthreadTotUthreads = m.sched.kthreadTotUthreads) (f : Fin gtMaxCores → Slot → Slot)
    (hat : ∀ {v j slot}, At s'.kthreadCpuMap v ⟨j, slot⟩ ↔ At m.sched.kthreadCpuMap v ⟨j, f j slot⟩)
    (hcurrent : ∀ j, f j .current = .current)
    (hqueue : ∀ j slot, slot = .active ∨ slot = .expires →
      f j slot = .active ∨ f j slot = .expires) : Owned { m with sched := s' } := by
  have hcur : ∀ {v j}, At s'.kthreadCpuMap v ⟨j, .current⟩ ↔
      At m.sched.kthreadCpuMap v ⟨j, .current⟩ := @fun v j => by rw [hat, hcurrent]
  have hready : ∀ {v}, Ready m v → Ready { m with sched := s' } v := fun hready =>
    hready.imp_right fun hinit => (congrArg Uthread.uthreadState (congrFun huthreads _)).trans hinit
  -- a kthread has what it had: the structures only change their roles
  have hhas : ∀ {v j}, Has { m with sched := s' } j v → Has m j v := by
    rintro v j (hexec | ⟨slot, hslot⟩ | hcarries)
    · left
      by_cases hrunning : m.phase j = .running
      · rw [executing_of_running hrunning, ← hcur]
        rwa [executing_of_running (m := { m with sched := s' }) hrunning] at hexec
      · rw [executing_of_ne_running hrunning]
        rwa [executing_of_ne_running (m := { m with sched := s' }) hrunning] at hexec
    · exact .inr (.inl ⟨_, hat.mp hslot⟩)
    · exact .inr (.inr hcarries)
  refine ⟨hplaced, fun hi hj => h.exclusive (hhas hi) (hhas hj), fun hj => ?_, fun j => ?_⟩
  · exact (h.created (hhas hj)).trans_eq htot.symm
  -- the conditions on each kthread, with the old roles
  · have hj := h.kthread j
    refine ⟨fun v hv => hj.current v (hcur.mp hv), fun stack v hjumping => ?_, fun v hcarries => ?_,
      fun v slot hv hslot hsaving => ?_⟩
    · obtain ⟨hv, hsaved⟩ := hj.jumping stack v hjumping
      exact ⟨hcur.mpr hv, hsaved⟩
    · obtain ⟨hv, hnot⟩ := hj.carrying v hcarries
      exact ⟨hready hv, fun slot hslot => hnot _ (hat.mp hslot)⟩
    · exact hready (hj.queued v _ (hat.mp hv) (hqueue j slot hslot) hsaving)

theorem Owned.swap (h : Owned m) (hctx : m.sched.kthreadCpuMap k = some ctx) :
    Owned { m with sched := { m.sched with
      kthreadCpuMap := Function.update m.sched.kthreadCpuMap k (some ctx.exchanged) } } := by
  have hplace : ∀ j slot, Conservation.exchange k ⟨j, slot⟩ =
      ⟨j, (Conservation.exchange k ⟨j, slot⟩).slot⟩ := by
    intro j slot
    by_cases hj : j = k
    · cases slot <;> simp [Conservation.exchange, hj]
    · simp [Conservation.exchange, hj]
  refine h.rename (h.placed.exchange hctx) rfl rfl
    (fun j slot => (Conservation.exchange k ⟨j, slot⟩).slot) (@fun v j slot => ?_) (fun j => ?_) ?_
  · rw [← hplace]
    exact at_exchanged hctx
  · by_cases hj : j = k <;> simp [Conservation.exchange, hj]
  · rintro j slot (rfl | rfl) <;> by_cases hj : j = k <;> simp [Conservation.exchange, hj]

/-- The test whether to quit concerns no uthread. -/
theorem Owned.quitTest (h : Owned m) (k : Fin gtMaxCores) :
    Owned { m with sched := quitTest k m.sched } := by
  obtain ⟨huthreads, htot, -⟩ := quitTest_counters k m.sched
  have hplaced : Placed (GTThreads.quitTest k m.sched) := by
    refine ⟨wellFormed_quitTest h.placed.wellFormed k, fun hat hat' => ?_, fun u place hat => ?_⟩
    · exact h.placed.eq_of_at ((at_quitTest k _).mp hat) ((at_quitTest k _).mp hat')
    · exact (h.placed.created u place ((at_quitTest k _).mp hat)).trans_eq htot.symm
  exact h.rename hplaced huthreads htot (fun _ slot => slot) (at_quitTest k _) (fun _ => rfl)
    fun _ _ => id

theorem Owned.exchange {start : ℤ} (h : Owned m) (hs : exchange k start m = some m') :
    Owned m' := by
  rw [Machine.exchange] at hs
  split at hs
  swap
  · exact absurd hs (by simp)
  next stack hphase =>
  have hfrom : Searching (m.phase k) := by rw [hphase]; trivial
  have hstack : stack = (m.phase k).stack := by rw [hphase]; rfl
  obtain ⟨ctx, hctx, hs⟩ := Option.bind_eq_some_iff.mp hs
  dsimp only at hs
  split at hs
  · split at hs
    · exact absurd hs (by simp)
    · obtain rfl := Option.some.inj hs
      exact ((h.swap hctx).quitTest k).searchOn hfrom trivial hstack
  · next hmask =>
    obtain ⟨⟨u, runq⟩, htake, hs⟩ := Option.bind_eq_some_iff.mp hs
    obtain rfl := Option.some.inj hs
    -- as if the uthread had been taken before the exchange
    have howned := h.takeOwn hfrom hstack hctx hmask htake start
    have hctx' : (Machine.prepare k stack u start (Function.update m.sched.kthreadCpuMap k
        (some (ctx.setActive runq))) m).sched.kthreadCpuMap k =
        some { ctx with krunqueue :=
          { ctx.krunqueue with activeRunq := runq, curUthread := some u } } := by
      simp [Machine.prepare, dispatch, KthreadContext.setActive]
    have hswap := howned.swap hctx'
    convert hswap using 1
    simp [Machine.prepare, dispatch, KthreadContext.setActive, KthreadContext.exchanged]

/-- A kthread in the steal loop takes up a uthread that no other kthread needs. -/
theorem Owned.carry {kthreadCpuMap : KthreadCpuMap} {i : ℕ} (h : Owned m)
    (hphase : m.phase k = .stealing stack i) (hwf : WellFormed m.sched.uthreads kthreadCpuMap)
    (hiff : ∀ {v place}, At kthreadCpuMap v place ↔ v ≠ u ∧ At m.sched.kthreadCpuMap v place)
    (haside : Aside m k u) (hready : Ready m u) (hu : u < m.sched.kthreadTotUthreads) :
    Owned (setPhase { m with sched := { m.sched with kthreadCpuMap := kthreadCpuMap } } k
      (.carrying stack u)) := by
  have hphase' : (setPhase { m with sched := { m.sched with kthreadCpuMap := kthreadCpuMap } } k
      (.carrying stack u)).phase k = .carrying stack u := Function.update_self ..
  have hplaced : Placed { m.sched with kthreadCpuMap := kthreadCpuMap } :=
    ⟨hwf, fun hat hat' => h.placed.eq_of_at (hiff.mp hat).2 (hiff.mp hat').2,
      fun v place hat => h.placed.created v place (hiff.mp hat).2⟩
  -- the uthread is taken out, and nothing else is touched
  have ht : Touches k (some u) m (setPhase { m with
      sched := { m.sched with kthreadCpuMap := kthreadCpuMap } } k (.carrying stack u)) := by
    refine ⟨fun j hj => Function.update_of_ne hj _ _, fun j _ v hv slot => ?_,
      fun j _ v hv slot hat => ?_, fun _ _ => id, fun _ _ => rfl, le_rfl⟩
    · exact hiff.trans (and_iff_right fun heq => hv (congrArg some heq.symm))
    · exact (hiff.mp hat).1 (Option.some.inj hv).symm
  refine h.of_touches ht (fun v hv => Option.some.inj hv ▸ haside) hplaced (fun v hhas => ?_) ?_
  -- the only thing that the thief gets is the uthread it carries
  · obtain hexec | ⟨slot, hat⟩ | ⟨stack', hcarries⟩ := hhas
    · refine .inl (.inl ?_)
      rw [executing_of_ne_running (by simp [hphase']), hphase'] at hexec
      rw [executing_of_ne_running (by simp [hphase]), hphase]
      exact hexec
    · exact .inl (.inr (.inl ⟨slot, (hiff.mp hat).2⟩))
    · obtain ⟨-, rfl⟩ := Phase.carrying.inj (hphase'.symm.trans hcarries)
      exact .inr ⟨rfl, hu⟩
  · refine ⟨fun v hat => ?_, fun stack' v hjumping => ?_, ?_, fun v slot hat hslot _ => ?_⟩
    · have hcur := h.not_current (k := k) (by simp [hphase]) (by simp [hphase]) v
      exact absurd (hiff.mp hat).2 hcur
    · exact absurd (hphase'.symm.trans hjumping) (by simp)
    · rintro v ⟨stack', hcarrying⟩
      obtain ⟨-, rfl⟩ := Phase.carrying.inj (hphase'.symm.trans hcarrying)
      exact ⟨hready, fun slot hat => (hiff.mp hat).1 rfl⟩
    · exact (h.kthread k).queued v slot (hiff.mp hat).2 hslot (by simp [hphase])

/-- A uthread is stolen from a kthread that does not execute on its behalf. -/
theorem Owned.take {other : KthreadContext} {runq : Runqueue} {i : ℕ} (h : Owned m)
    (hphase : m.phase k = .stealing stack i) (hother : m.sched.kthreadCpuMap j = some other)
    (hmask : other.krunqueue.activeRunq.uthreadMask ≠ 0)
    (htake : takeBest m.sched.uthreads other.krunqueue.activeRunq = some (u, runq))
    (haside : ∀ v ∈ m.executing j, ¬ other.krunqueue.Holds v .active) :
    Owned (setPhase { m with sched := { m.sched with
      kthreadCpuMap := Function.update m.sched.kthreadCpuMap j (some (other.setActive runq)) } } k
      (.carrying stack u)) := by
  have hwf := h.placed.wellFormed j other hother
  obtain ⟨members, hmembers⟩ := hwf.active
  obtain ⟨hu, hleft⟩ := takeBest_inv hmembers hmask htake
  have hholds : other.krunqueue.Holds u .active := hmembers.mem_iff.mpr hu
  have hat : At m.sched.kthreadCpuMap u ⟨j, .active⟩ := ⟨other, hother, hholds⟩
  have hnot : m.executing j ≠ some u := fun hexec => haside u hexec hholds
  have hready : Ready m u := by
    refine (h.kthread j).queued u .active hat (.inl rfl) fun hsaving => hnot ?_
    rw [executing_of_ne_running (by simp [hsaving]), hsaving]
    rfl
  have hclear : Aside m k u := by
    intro j' _
    -- only the victim has the uthread, and it has it in its active runqueue only
    have hvictim : Has m j' u → j' = j := fun hhas => h.exclusive hhas (.inr (.inl ⟨_, hat⟩))
    refine ⟨fun hexec => hnot (hvictim (.inl hexec) ▸ hexec), fun hcarries => ?_, fun hcur => ?_⟩
    · exact ((h.kthread j).carrying u (hvictim (.inr (.inr hcarries)) ▸ hcarries)).2 _ hat
    · exact absurd (congrArg Place.slot (h.placed.eq_of_at hat hcur)) (by simp)
  refine h.carry hphase ?_ ?_ hclear hready (h.placed.created u _ hat)
  · exact wellFormed_update h.placed.wellFormed ⟨⟨_, hleft⟩, hwf.expires, hwf.zombies⟩
  · exact at_taken hother hmembers hleft fun place hplace => h.placed.eq_of_at hat hplace

theorem Owned.steal (h : Owned m) (haside : stealsAside m (.steal k)) (hs : steal k m = some m') :
    Owned m' := by
  rw [Machine.steal] at hs
  split at hs
  swap
  · exact absurd hs (by simp)
  next stack i hphase =>
  have hfrom : Searching (m.phase k) := by rw [hphase]; trivial
  have hstack : stack = (m.phase k).stack := by rw [hphase]; rfl
  obtain ⟨ctx, hctx, hs⟩ := Option.bind_eq_some_iff.mp hs
  split at hs
  swap
  · obtain rfl := Option.some.inj hs
    exact h.searchOn hfrom trivial hstack
  -- the loop is not at its end: it passes over this kthread, or takes from it
  next hgo =>
  obtain ⟨other, hother, hs⟩ := Option.bind_eq_some_iff.mp hs
  split at hs
  · obtain rfl := Option.some.inj hs
    exact h.searchOn hfrom trivial hstack
  · next hpass =>
    obtain ⟨hdone, hmask⟩ := not_or.mp hpass
    obtain ⟨⟨u, runq⟩, htake, hs⟩ := Option.bind_eq_some_iff.mp hs
    obtain rfl := Option.some.inj hs
    -- the guard is about this very case
    rw [stealsAside, hphase] at haside
    exact h.take hphase hother hmask htake
      (haside ctx hctx hgo.2 other hother (Bool.eq_false_iff.mpr hdone))

theorem Owned.pass {start : ℤ} (h : Owned m) (hs : pass k start m = some m') : Owned m' := by
  rw [Machine.pass] at hs
  split at hs
  swap
  · exact absurd hs (by simp)
  next stack u hphase =>
  obtain ⟨ctx, hctx, hs⟩ := Option.bind_eq_some_iff.mp hs
  obtain ⟨runq, hrem, hs⟩ := Option.bind_eq_some_iff.mp hs
  obtain rfl := Option.some.inj hs
  have hcarries : Carries m k u := ⟨stack, hphase⟩
  have hhas : Has m k u := .inr (.inr hcarries)
  obtain ⟨hready, hnot⟩ := (h.kthread k).carrying u hcarries
  have hnew : ∀ place, ¬ At m.sched.kthreadCpuMap u place := by
    rintro ⟨j, slot⟩ hat
    obtain rfl := h.exclusive (.inr (.inl ⟨slot, hat⟩)) hhas
    exact hnot slot hat
  have hrunning : m.phase k ≠ .running := by simp [hphase]
  have hcur := h.not_current hrunning (by simp [hphase])
  have hidle := curUthread_eq_none hctx hcur
  have hwf := h.placed.wellFormed k ctx hctx
  obtain ⟨members, hmembers⟩ := hwf.active
  have hadd := hmembers.add fun hu => hnew ⟨k, .active⟩ ⟨ctx, hctx, hmembers.mem_iff.mpr hu⟩
  have hu : u ∈ members ++ [u] := by simp
  obtain ⟨runq', hrem', hleft⟩ := hadd.rem hu
  obtain rfl := Option.some.inj (hrem.symm.trans hrem')
  -- the uthread is in the active runqueue for a moment
  have hinsert := moved_insert hnew hctx hmembers hadd
  have hplaced : Placed { m.sched with
      kthreadCpuMap := Function.update m.sched.kthreadCpuMap k
        (some (ctx.setActive (addToRunqueue m.sched.uthreads ctx.krunqueue.activeRunq u))) } :=
    h.placed.of_moved (wellFormed_update h.placed.wellFormed ⟨⟨_, hadd⟩, hwf.expires, hwf.zombies⟩)
      hinsert (h.created hhas) le_rfl
  obtain ⟨hwf', hmoved⟩ := hplaced.dispatch (Function.update_self ..) hidle hadd hu hleft start
  simp only [Function.update_idem] at hwf' hmoved
  exact h.prepare hwf' (hinsert.trans hmoved) hhas hready hrunning (by rw [hphase]; rfl) hcur
    (by simp [hphase])

/-! ### Putting a uthread away and creating one -/

/-- Putting a uthread away writes no record but its own. -/
theorem retireCurrent_uthreads_of_ne (flags : Flags) (k : Fin gtMaxCores) (ctx : KthreadContext)
    (stop : ℤ) (s : State) (hv : v ≠ u) :
    (retireCurrent flags k ctx u stop s).uthreads v = s.uthreads v := by
  simp only [retireCurrent]
  split <;> exact Function.update_of_ne hv _ _

theorem retireCurrent_kthreadTotUthreads (flags : Flags) (k : Fin gtMaxCores)
    (ctx : KthreadContext) (u : ℕ) (stop : ℤ) (s : State) :
    (retireCurrent flags k ctx u stop s).kthreadTotUthreads = s.kthreadTotUthreads := by
  simp only [retireCurrent]
  split <;> rfl

/-- The current uthread is put away: it has ended, or its context is to be saved. -/
theorem Owned.retire {uthreads : ℕ → Uthread} (h : Owned m) (hphase : m.phase k = .running)
    (hctx : m.sched.kthreadCpuMap k = some ctx) (hcur : ctx.krunqueue.curUthread = some u)
    (hkeys : SameKeys uthreads m.sched.uthreads)
    (hsame : ∀ v ≠ u, uthreads v = m.sched.uthreads v)
    (hs : s = { m.sched with uthreads := uthreads }) (flags : Flags) (stop : ℤ) :
    Owned (setPhase { m with sched := retireCurrent flags k ctx u stop s } k
      (if (chargeCredits flags stop (s.uthreads u)).ended then .choosing (some u)
        else .saving u)) := by
  have hplaced : Placed s := hs ▸ h.placed.of_uthreads hkeys
  have hmap : s.kthreadCpuMap = m.sched.kthreadCpuMap := by rw [hs]
  have hat : At m.sched.kthreadCpuMap u ⟨k, .current⟩ := ⟨ctx, hctx, hcur⟩
  have hhas : Has m k u := .inr (.inl ⟨_, hat⟩)
  obtain ⟨slot, hslot, hzombie, hwf, hmoved⟩ := hplaced.retireCurrent (hmap ▸ hctx) hcur flags stop
  rw [hmap] at hmoved
  have htot : (retireCurrent flags k ctx u stop s).kthreadTotUthreads =
      m.sched.kthreadTotUthreads := by
    rw [retireCurrent_kthreadTotUthreads, hs]
  have hstate : ∀ v ≠ u, (retireCurrent flags k ctx u stop s).uthreads v =
      m.sched.uthreads v := fun v hv => by
    rw [retireCurrent_uthreads_of_ne flags k ctx stop s hv, hs]
    exact hsame v hv
  -- of the phase, it matters that a uthread in a runqueue is one to be saved
  obtain ⟨phase, hphase', hstack, hqueue⟩ : ∃ phase,
      phase = (if (chargeCredits flags stop (s.uthreads u)).ended then Phase.choosing (some u)
        else .saving u) ∧
      (phase = .choosing (some u) ∨ phase = .saving u) ∧
      (slot = .active ∨ slot = .expires → phase = .saving u) := by
    refine ⟨_, rfl, ?_, fun hkind => if_neg fun hended => ?_⟩
    · split <;> simp
    · simp [hzombie.mpr hended] at hkind
  rw [← hphase']
  generalize retireCurrent flags k ctx u stop s = s' at hwf hmoved htot hstate
  have hphase'' : (setPhase { m with sched := s' } k phase).phase k = phase :=
    Function.update_self ..
  have ht : Touches k (some u) m (setPhase { m with sched := s' } k phase) :=
    touches_of_moved hmoved (fun j hj => Function.update_of_ne hj _ _) (fun _ _ => id)
      (fun v hv => congrArg Uthread.uthreadState (hstate v hv)) htot.ge
  refine h.of_touches ht (fun v hv => Option.some.inj hv ▸ h.aside hhas)
    (h.placed.of_moved hwf hmoved (htot ▸ h.created hhas) htot.ge) (fun v hv => .inl ?_) ?_
  · obtain hexec | ⟨slot', hslot'⟩ | ⟨stack, hcarries⟩ := hv
    · rw [executing_of_ne_running (by rw [hphase'']; rintro rfl; simp at hstack), hphase''] at hexec
      have hv : some u = some v := by
        obtain rfl | rfl := hstack <;> exact hexec
      exact Option.some.inj hv ▸ hhas
    · have hslot' := (hmoved v _).mp hslot'
      split at hslot'
      · next hv => exact hv ▸ hhas
      · exact .inr (.inl ⟨slot', hslot'⟩)
    · rw [hphase''] at hcarries
      simp [hcarries] at hstack
  · refine ⟨fun v hv => ?_, fun stack v hjumping => ?_, ?_, fun v slot' hv hkind hsaving => ?_⟩
    · have hv' := (hmoved v _).mp hv
      split at hv'
      · exact absurd (congrArg Place.slot hv').symm hslot
      · next hne =>
        have heq := (at_iff hctx).mp hv'
        exact absurd (Option.some.inj (hcur.symm.trans heq)).symm hne
    · rw [hphase''] at hjumping
      simp [hjumping] at hstack
    · rintro v ⟨stack, hcarries⟩
      rw [hphase''] at hcarries
      simp [hcarries] at hstack
    · have hv' := (hmoved v _).mp hv
      split at hv'
      · next hvu =>
        have heq : slot' = slot := congrArg Place.slot hv'
        exact absurd (hphase''.trans (hqueue (heq ▸ hkind))) (hvu ▸ hsaving)
      · next hvu =>
        exact ht.ready (fun heq => hvu (Option.some.inj heq).symm)
          ((h.kthread k).queued v slot' hv' hkind (by simp [hphase]))

theorem Owned.enter {ending : Ending} {clock : Clock} (h : Owned m)
    (hs : enter flags k ending clock m = some m') : Owned m' := by
  rw [Machine.enter] at hs
  split at hs
  swap
  · exact absurd hs (by simp)
  next hphase =>
  obtain ⟨s, hbefore, hs⟩ := Option.bind_eq_some_iff.mp hs
  obtain ⟨uthreads, hs₁, hkeys, hsame⟩ := beforeSchedule_spec hbefore
  obtain ⟨ctx, hctx, hs⟩ := Option.bind_eq_some_iff.mp hs
  have hctx' : m.sched.kthreadCpuMap k = some ctx := by rwa [hs₁] at hctx
  dsimp only at hs
  split at hs
  · next hcur =>
    obtain rfl := Option.some.inj hs
    have hnot : ∀ v, ¬ At m.sched.kthreadCpuMap v ⟨k, .current⟩ := fun v hat => by
      have hv := (at_iff hctx').mp hat
      exact absurd (hcur.symm.trans hv) (by simp)
    -- without a current uthread, nothing was written
    have hsched : s = m.sched := by
      rw [hs₁, funext fun v => hsame v (hnot v)]
    rw [hsched]
    exact h.search trivial (by simp [Phase.stack]) (fun _ => id) hnot fun v slot hat hslot =>
      (h.kthread k).queued v slot hat hslot (by simp [hphase])
  · next u hcur =>
    obtain rfl := Option.some.inj hs
    refine h.retire hphase hctx' hcur hkeys (fun v hv => hsame v fun hat => ?_) hs₁ flags clock.stop
    have hv' := (at_iff hctx').mp hat
    exact absurd (Option.some.inj (hcur.symm.trans hv')).symm hv

theorem Owned.create {uGid : Fin maxUthreadGroups} {credits now : ℤ} (h : Owned m)
    (hs : uthreadCreate uGid credits now m.sched = some s) : Owned { m with sched := s } := by
  obtain ⟨target, uNew, hinit, huthreads, htot, -, hwf, hmoved⟩ := h.placed.uthreadCreate hs
  have hold : ∀ {v j}, Has m j v → v ≠ m.sched.kthreadTotUthreads := fun hhas =>
    (h.created hhas).ne
  have hle : m.sched.kthreadTotUthreads ≤ s.kthreadTotUthreads := by omega
  have hlt : m.sched.kthreadTotUthreads < s.kthreadTotUthreads := by omega
  have ht : Touches target (some m.sched.kthreadTotUthreads) m { m with sched := s } := by
    refine touches_of_moved hmoved (fun _ _ => rfl) (fun _ _ => id) (fun v hv => ?_) hle
    rw [huthreads, Function.update_of_ne hv]
  have hnot : ∀ {v}, v ≠ m.sched.kthreadTotUthreads → v ∉ some m.sched.kthreadTotUthreads :=
    fun hv heq => hv (Option.some.inj heq).symm
  have haside : ∀ v ∈ some m.sched.kthreadTotUthreads, Aside m target v := by
    intro v hv j _
    obtain rfl := Option.some.inj hv
    exact ⟨fun hexec => hold (.inl hexec) rfl, fun hcarries => hold (.inr (.inr hcarries)) rfl,
      h.placed.not_at_tot _⟩
  -- the new uthread is not the current one of its target
  have hcur : ∀ {v}, At s.kthreadCpuMap v ⟨target, .current⟩ →
      At m.sched.kthreadCpuMap v ⟨target, .current⟩ := by
    intro v hat
    have hat' := (hmoved v _).mp hat
    split at hat'
    · simp at hat'
    · exact hat'
  have hk := h.kthread target
  refine h.of_touches ht haside (h.placed.of_moved hwf hmoved hlt hle) (fun v hhas => ?_)
    ⟨fun v hat => hk.current v (hcur hat), fun stack v hjumping => ?_, fun v hcarries => ?_,
      fun v slot hat hslot hsaving => ?_⟩
  · obtain hexec | ⟨slot, hat⟩ | hcarries := hhas
    · left
      by_cases hrunning : m.phase target = .running
      · rw [executing_of_running (m := { m with sched := s }) hrunning] at hexec
        exact .inr (.inl ⟨_, hcur hexec⟩)
      · rw [executing_of_ne_running (m := { m with sched := s }) hrunning] at hexec
        exact .inl ((executing_of_ne_running hrunning).trans hexec)
    · have hat' := (hmoved v _).mp hat
      split at hat'
      · next hv => exact .inr ⟨congrArg some hv.symm, hv ▸ hlt⟩
      · exact .inl (.inr (.inl ⟨slot, hat'⟩))
    · exact .inl (.inr (.inr hcarries))
  · obtain ⟨hat, hsaved⟩ := hk.jumping stack v hjumping
    refine ⟨(hmoved v _).mpr ?_, hsaved⟩
    rwa [if_neg (hold (.inr (.inl ⟨_, hat⟩)))]
  · have hv := hold (.inr (.inr hcarries))
    obtain ⟨hready, hnowhere⟩ := hk.carrying v hcarries
    refine ⟨ht.ready (hnot hv) hready, fun slot hat => hnowhere slot ?_⟩
    rwa [hmoved, if_neg hv] at hat
  · have hat' := (hmoved v _).mp hat
    split at hat'
    · next hv =>
      refine .inr ?_
      rw [huthreads, hv, Function.update_self, hinit]
    · next hv => exact ht.ready (hnot hv) (hk.queued v slot hat' hslot hsaving)

/-! ### All runs -/

theorem owned_init (flags : Flags) (cpuids : Fin gtMaxCores → Option ℕ) :
    Owned (system flags cpuids).init := by
  have hplaced : Placed (initial cpuids) := (conserved_initial cpuids).placed
  have hnot : ∀ v place, ¬ At (initial cpuids).kthreadCpuMap v place := fun v place hat =>
    absurd (hplaced.created v place hat) (Nat.not_lt_zero v)
  have hhas : ∀ {k v}, ¬ Has (system flags cpuids).init k v := by
    rintro k v (hexec | ⟨slot, hat⟩ | ⟨stack, hcarries⟩)
    · exact hnot v _ ((executing_of_running rfl).mp hexec)
    · exact hnot v _ hat
    · exact absurd hcarries (by simp [system])
  refine ⟨hplaced, fun hi _ => absurd hi hhas, fun hk => absurd hk hhas, fun k => ?_⟩
  exact ⟨fun v hat => absurd hat (hnot v _),
    fun stack v hjumping => absurd hjumping (by simp [system]),
    fun v hcarries => absurd (.inr (.inr hcarries)) hhas, fun v slot hat => absurd hat (hnot v _)⟩

theorem Owned.step {cpuids : Fin gtMaxCores → Option ℕ} {l : Section} (h : Owned m)
    (haside : stealsAside m l) (hs : (system flags cpuids).step m l = some m') : Owned m' := by
  cases l with
  | create uGid credits now =>
    obtain ⟨s, hcreate, rfl⟩ := Option.map_eq_some_iff.mp hs
    exact h.create hcreate
  | enter k ending clock => exact h.enter hs
  | save k => exact h.save hs
  | pick k start => exact h.pick hs
  | steal k => exact h.steal haside hs
  | pass k start => exact h.pass hs
  | exchange k start => exact h.exchange hs
  | jump k => exact h.jump hs
  | leave k => exact h.leave hs

theorem Owned.resumesSafely (h : Owned m) : ResumesSafely m := by
  intro k stack u hphase
  obtain ⟨hcur, hsaved⟩ := (h.kthread k).jumping stack u hphase
  refine ⟨hsaved, fun j hj hexec => hj ?_⟩
  exact h.exclusive (.inl hexec) (.inr (.inl ⟨_, hcur⟩))

/-- **Contexts are saved before they are resumed.** In every run in which kthreads steal only from
those that do not execute on behalf of a uthread in their active runqueue, for any kthreads, in any
mode and for any interleaving of the sections, a uthread is resumed from the context that was saved
last, when no other kthread executes on its behalf. -/
theorem resumes_safely (flags : Flags) (cpuids : Fin gtMaxCores → Option ℕ) (m : Machine)
    (hr : (system flags cpuids).Reachable stealsAside m) : ResumesSafely m := by
  have h : Owned m :=
    hr.invariant (owned_init flags cpuids) fun _ _ _ _ h haside hstep => h.step haside hstep
  exact h.resumesSafely

/-- Four uthreads on two kthreads. The second kthread runs out of uthreads and steals the one that
the first kthread, which runs another one, has in its active runqueue. -/
theorem resumes_safely_pair :
    ∃ m, (system ⟨true, true, true⟩ pairCpuids).Reachable stealsAside m ∧
      m.phase 1 = .jumping (some 2) 3 ∧ m.executing 0 = some 1 ∧ ResumesSafely m := by
  have hrun : ((system ⟨true, true, true⟩ pairCpuids).guardedRun stealsAside
      (system ⟨true, true, true⟩ pairCpuids).init
      [.create 0 100 0, .create 0 100 0, .create 0 100 0, .create 0 100 0,
        .enter 0 .preempted ⟨0, 0, 0⟩, .pick 0 0, .jump 0,
        .enter 1 .preempted ⟨0, 0, 0⟩, .pick 1 0, .jump 1, .enter 1 .finished ⟨5, 5, 5⟩,
        .pick 1 5, .jump 1, .enter 1 .finished ⟨9, 9, 9⟩, .pick 1 9, .steal 1, .pass 1 9]).any
      (fun m => decide (m.phase 1 = .jumping (some 2) 3 ∧ m.executing 0 = some 1)) = true := by
    decide +kernel
  obtain ⟨m, hr, hm⟩ := System.Reachable.of_any hrun
  obtain ⟨hphase, hexec⟩ : m.phase 1 = .jumping (some 2) 3 ∧ m.executing 0 = some 1 :=
    of_decide_eq_true hm
  exact ⟨m, hr, hphase, hexec, resumes_safely _ _ m hr⟩

/-- The first kthread is interrupted between the insertion of its uthread into the active runqueue
and the `sigsetjmp`. The second one takes the uthread and is about to resume it, from the context
that was used up when the uthread started, while the first one still executes on its stack. -/
theorem resumed_before_context_is_saved :
    ∃ m, (system ⟨true, true, true⟩ pairCpuids).Reachable System.anyStep m ∧
      m.phase 1 = .jumping (some 0) 1 ∧ m.saved 1 = false ∧ m.executing 0 = some 1 ∧
      ¬ ResumesSafely m := by
  have hrun : ((system ⟨true, true, true⟩ pairCpuids).guardedRun System.anyStep
      (system ⟨true, true, true⟩ pairCpuids).init
      [.create 0 100 0, .create 0 100 0,
        .enter 0 .preempted ⟨0, 0, 0⟩, .pick 0 0, .jump 0, .enter 0 .preempted ⟨0, 5, 5⟩,
        .enter 1 .preempted ⟨0, 0, 0⟩, .pick 1 0, .jump 1, .enter 1 .finished ⟨9, 9, 9⟩,
        .pick 1 9, .steal 1, .pass 1 9]).any
      (fun m => decide (m.phase 1 = .jumping (some 0) 1 ∧ m.saved 1 = false ∧
        m.executing 0 = some 1)) = true := by
    decide +kernel
  obtain ⟨m, hr, hm⟩ := System.Reachable.of_any hrun
  obtain ⟨hphase, hsaved, hexec⟩ : m.phase 1 = .jumping (some 0) 1 ∧ m.saved 1 = false ∧
      m.executing 0 = some 1 := of_decide_eq_true hm
  refine ⟨m, hr, hphase, hsaved, hexec, fun h => ?_⟩
  exact absurd (h 1 (some 0) 1 hphase).1 (by simp [hsaved])

end Context

end GTThreads

end OSLab
