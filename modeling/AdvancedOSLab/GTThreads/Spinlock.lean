import AdvancedOSLab.Framework.CriticalSection
import AdvancedOSLab.Framework.System
import Mathlib.Logic.Function.Basic

/-!
# The spin lock

`gt_spin_lock` waits in a loop. Each turn reads the word of the lock, and only if it reads 0 it
exchanges the word with 1; it is done when the exchange gives back 0. `gt_spin_unlock` reads the
word and stores 0 if it is not 0. It does not ask who holds the lock.

The model has any number of threads that execute critical sections on a shared memory. A step is one
access to the word, or one statement of a section. Memory is sequentially consistent; the field
`holder` of the lock is written and never read, and left out. Two components are not part of the
program: the sections that each thread has called, and the order in which sections were entered.

## Results

As long as a thread calls `gt_spin_unlock` at the end of its own section only (`disciplined`):

* `sections_serializable`: no two threads are inside, every section that was called is executed
  once, in the order of its thread, and the memory is that of an execution in which the sections run
  one after the other without interruption.
* `waiting_thread_enters`: the lock is never lost. A thread that waits can enter, after the one that
  is inside, if any, has finished.
* `SectionSpec.sound_of_reachable` is the rule for clients: an invariant that holds between
  sections.

Not all of the library keeps the condition. When `sched_find_best_uthread` finds its runqueue empty
it releases the lock, and if the runqueue has been filled in the meantime it goes on to the last
lines, which release it again. `stray_unlock_admits` says what such a call does while another thread
is inside.
-/

namespace OSLab

namespace GTThreads

namespace Spinlock

variable {ι σ : Type}

/-! ### The model -/

/-- Where a thread is. -/
inductive Phase (σ : Type) where
  | outside
  /-- in the loop of `gt_actual_spinlock`, in front of the read -/
  | testing (body : Body σ)
  /-- it has read 0, and is in front of the exchange -/
  | exchanging (body : Body σ)
  /-- in its section, with these statements to go -/
  | inside (rest : Body σ)
  /-- in `gt_spin_unlock`, in front of the read -/
  | unlocking
  /-- it has read 1, and is in front of the store -/
  | clearing

/-- The thread has entered its section and has not released the lock yet. -/
def Phase.holds : Phase σ → Bool
  | .inside _ | .unlocking | .clearing => true
  | _ => false

/-- The statements that are left. -/
def Phase.rest : Phase σ → Body σ
  | .inside rest => rest
  | _ => []

/-- The section that the thread waits for. -/
def Phase.waits : Phase σ → Option (Body σ)
  | .testing body | .exchanging body => some body
  | _ => none

/-- The lock, the memory it protects, and the threads. -/
structure State (ι σ : Type) where
  locked : Bool
  memory : σ
  phase : ι → Phase σ
  /-- the sections that each thread has called -/
  called : ι → List (Body σ)
  /-- the sections that were entered -/
  entered : List (ι × Body σ)

inductive Label (ι σ : Type) where
  /-- a thread calls `gt_spin_lock` in front of a section -/
  | call (t : ι) (body : Body σ)
  /-- the next step of a thread that is in a section or in a function of the lock -/
  | step (t : ι)
  /-- a thread calls `gt_spin_unlock` outside of a section -/
  | unlock (t : ι)

variable [DecidableEq ι]

namespace State

variable (s : State ι σ)

def moved (t : ι) (phase : Phase σ) : State ι σ :=
  { s with phase := Function.update s.phase t phase }

def calling (t : ι) (body : Body σ) : State ι σ :=
  { s.moved t (.testing body) with
    called := Function.update s.called t (s.called t ++ [body]) }

/-- The exchange has given back 0. -/
def acquired (t : ι) (body : Body σ) : State ι σ :=
  { s.moved t (.inside body) with locked := true, entered := s.entered ++ [(t, body)] }

def executed (t : ι) (rest : Body σ) (memory : σ) : State ι σ :=
  { s.moved t (.inside rest) with memory := memory }

def cleared (t : ι) : State ι σ := { s.moved t .outside with locked := false }

variable {s} {t : ι} {body rest : Body σ} {memory : σ} {phase : Phase σ}

theorem phase_moved : (s.moved t phase).phase = Function.update s.phase t phase := rfl

theorem phase_calling :
    (s.calling t body).phase = Function.update s.phase t (.testing body) := rfl

theorem phase_acquired :
    (s.acquired t body).phase = Function.update s.phase t (.inside body) := rfl

theorem phase_executed :
    (s.executed t rest memory).phase = Function.update s.phase t (.inside rest) := rfl

theorem phase_cleared : (s.cleared t).phase = Function.update s.phase t .outside := rfl

end State

/-- The next step of a thread. -/
def next (t : ι) (s : State ι σ) : Option (State ι σ) :=
  match s.phase t with
  | .outside => none
  | .testing body => some (s.moved t (if s.locked then .testing body else .exchanging body))
  -- the exchange stores 1 in any case
  | .exchanging body => some (if s.locked then s.moved t (.testing body) else s.acquired t body)
  | .inside (stmt :: rest) => (stmt s.memory).map fun memory => s.executed t rest memory
  | .inside [] => some (s.moved t .unlocking)
  | .unlocking => some (s.moved t (if s.locked then .clearing else .outside))
  | .clearing => some (s.cleared t)

/-- The threads as a labelled system, with a lock that was just initialised. -/
def spinlock (m₀ : σ) : System (State ι σ) (Label ι σ) where
  init :=
    { locked := false, memory := m₀, phase := fun _ => .outside, called := fun _ => [],
      entered := [] }
  step s
    | .call t body =>
      match s.phase t with
      | .outside => some (s.calling t body)
      | _ => none
    | .step t => next t s
    | .unlock t =>
      match s.phase t with
      | .outside => some (s.moved t .unlocking)
      | _ => none

/-- A thread calls `gt_spin_unlock` at the end of its own section only. -/
def disciplined (_ : State ι σ) : Label ι σ → Prop
  | .unlock _ => False
  | _ => True

instance (s : State ι σ) (l : Label ι σ) : Decidable (disciplined s l) :=
  match l with
  | .unlock _ => inferInstanceAs (Decidable False)
  | .call .. | .step _ => inferInstanceAs (Decidable True)

/-! ### What a step can do -/

/-- What the steps of a disciplined run do. -/
inductive Move (s : State ι σ) : Label ι σ → State ι σ → Prop
  | call (t : ι) (body : Body σ) (ht : s.phase t = .outside) :
      Move s (.call t body) (s.calling t body)
  | tested (t : ι) (body : Body σ) (ht : s.phase t = .testing body) (phase : Phase σ)
      (hphase : phase = .testing body ∨ phase = .exchanging body) :
      Move s (.step t) (s.moved t phase)
  | refused (t : ι) (body : Body σ) (ht : s.phase t = .exchanging body) :
      Move s (.step t) (s.moved t (.testing body))
  | acquired (t : ι) (body : Body σ) (ht : s.phase t = .exchanging body)
      (hfree : s.locked = false) : Move s (.step t) (s.acquired t body)
  | executed (t : ι) (stmt : σ → Option σ) (rest : Body σ) (memory : σ)
      (ht : s.phase t = .inside (stmt :: rest)) (hstmt : stmt s.memory = some memory) :
      Move s (.step t) (s.executed t rest memory)
  | finished (t : ι) (ht : s.phase t = .inside []) : Move s (.step t) (s.moved t .unlocking)
  | checked (t : ι) (ht : s.phase t = .unlocking) (hlocked : s.locked = true) :
      Move s (.step t) (s.moved t .clearing)
  | skipped (t : ι) (ht : s.phase t = .unlocking) (hfree : s.locked = false) :
      Move s (.step t) (s.moved t .outside)
  | cleared (t : ι) (ht : s.phase t = .clearing) : Move s (.step t) (s.cleared t)

section Moves

variable {m₀ : σ} {s s' : State ι σ} {l : Label ι σ} {t : ι}

theorem move_of_next (h : next t s = some s') : Move s (.step t) s' := by
  unfold next at h
  -- in the order of the phases
  split at h
  · exact absurd h (by simp)
  · next body ht =>
    obtain rfl := Option.some.inj h
    refine .tested t body ht _ ?_
    split
    · exact .inl rfl
    · exact .inr rfl
  · next body ht =>
    obtain rfl := Option.some.inj h
    split
    · exact .refused t body ht
    · next hfree => exact .acquired t body ht (by simpa using hfree)
  · next stmt rest ht =>
    obtain ⟨memory, hstmt, rfl⟩ := Option.map_eq_some_iff.mp h
    exact .executed t stmt rest memory ht hstmt
  · next ht =>
    obtain rfl := Option.some.inj h
    exact .finished t ht
  · next ht =>
    obtain rfl := Option.some.inj h
    split
    · next hlocked => exact .checked t ht hlocked
    · next hfree => exact .skipped t ht (by simpa using hfree)
  · next ht =>
    obtain rfl := Option.some.inj h
    exact .cleared t ht

theorem move_of_step (hl : disciplined s l) (h : (spinlock m₀).step s l = some s') :
    Move s l s' := by
  cases l with
  | call t body =>
    dsimp only [spinlock] at h
    split at h
    · next ht =>
      obtain rfl := Option.some.inj h
      exact .call t body ht
    · exact absurd h (by simp)
  | step t => exact move_of_next h
  | unlock t => exact hl.elim

end Moves

/-! ### Mutual exclusion -/

/-- One thread at most is inside, and the word of the lock says whether there is one. -/
structure Exclusive (s : State ι σ) : Prop where
  unique : ∀ t u, (s.phase t).holds = true → (s.phase u).holds = true → t = u
  locked : s.locked = true ↔ ∃ t, (s.phase t).holds = true

namespace Exclusive

variable {s s' : State ι σ} {l : Label ι σ} {t : ι}

omit [DecidableEq ι] in
/-- While the lock is free nobody is inside. -/
theorem not_holds (h : Exclusive s) (hfree : s.locked = false) (t : ι) :
    (s.phase t).holds = false := by
  by_contra ht
  have hlocked := h.locked.mpr ⟨t, by simpa using ht⟩
  rw [hfree] at hlocked
  exact absurd hlocked (by decide)

/-- A step of a thread that neither enters nor leaves. -/
theorem moved {phase : Phase σ} (h : Exclusive s) (hsame : phase.holds = (s.phase t).holds)
    (hphase : s'.phase = Function.update s.phase t phase) (hlocked : s'.locked = s.locked) :
    Exclusive s' := by
  have hholds : ∀ u, (s'.phase u).holds = (s.phase u).holds := by
    intro u
    rw [hphase, Function.update_apply]
    split
    · next hu => rw [hu, hsame]
    · rfl
  exact ⟨by simpa only [hholds] using h.unique, by simpa only [hholds, hlocked] using h.locked⟩

theorem step (h : Exclusive s) (hmove : Move s l s') : Exclusive s' := by
  cases hmove with
  | call t body ht => exact h.moved (by rw [ht]; rfl) rfl rfl
  | tested t body ht phase hphase =>
    refine h.moved ?_ rfl rfl
    rcases hphase with rfl | rfl
    · rw [ht]
    · rw [ht]
      rfl
  | refused t body ht => exact h.moved (by rw [ht]; rfl) rfl rfl
  | acquired t body ht hfree =>
    -- nobody was inside, so the thread that enters is the only one
    have hother : ∀ u, ((s.acquired t body).phase u).holds = true → u = t := by
      intro u hu
      by_contra hne
      rw [State.phase_acquired, Function.update_of_ne hne,
        h.not_holds hfree u] at hu
      exact absurd hu (by decide)
    have hself : ((s.acquired t body).phase t).holds = true := by
      rw [State.phase_acquired, Function.update_self]
      rfl
    refine ⟨?_, iff_of_true rfl ⟨t, hself⟩⟩
    intro u v hu hv
    exact (hother u hu).trans (hother v hv).symm
  | executed t stmt rest memory ht => exact h.moved (by rw [ht]; rfl) rfl rfl
  | finished t ht => exact h.moved (by rw [ht]; rfl) rfl rfl
  | checked t ht => exact h.moved (by rw [ht]; rfl) rfl rfl
  | skipped t ht hfree =>
    -- the thread is inside, so the lock is not free
    have hout := h.not_holds hfree t
    rw [ht] at hout
    exact absurd hout (by simp [Phase.holds])
  | cleared t ht =>
    have hin : (s.phase t).holds = true := by
      rw [ht]
      rfl
    have hnone : ∀ u, ((s.cleared t).phase u).holds = false := by
      intro u
      by_cases hu : u = t
      · subst hu
        rw [State.phase_cleared, Function.update_self]
        rfl
      · rw [State.phase_cleared, Function.update_of_ne hu]
        by_contra hholds
        exact hu (h.unique u t (by simpa using hholds) hin)
    refine ⟨?_, iff_of_false (by simp [State.cleared]) ?_⟩
    · intro u v hu
      exact absurd hu (by simp [hnone u])
    · rintro ⟨u, hu⟩
      exact absurd hu (by simp [hnone u])

end Exclusive

theorem exclusive_of_reachable {m₀ : σ} {s : State ι σ}
    (hr : (spinlock m₀).Reachable disciplined s) : Exclusive s := by
  refine System.Reachable.invariant ?_ ?_ hr
  · exact ⟨fun t u ht => absurd ht (by simp [spinlock, Phase.holds]),
      iff_of_false (by simp [spinlock]) (by simp [spinlock, Phase.holds])⟩
  · intro s l s' _ h hl hstep
    exact h.step (move_of_step hl hstep)

/-! ### Serial executions -/

/-- The sections that a thread has entered. -/
def State.enteredBy (s : State ι σ) (t : ι) : List (Body σ) :=
  (s.entered.filter fun e => e.1 = t).map Prod.snd

/-- The memory after the sections that were entered, one after the other. -/
def State.serial (s : State ι σ) (m₀ : σ) : Option σ :=
  runBody (s.entered.map Prod.snd).flatten m₀

/-- The thread inside, if there is one, is on the way to the memory of the serial execution. Every
section that was called was entered, but for the one that its thread waits for. -/
structure Serial (m₀ : σ) (s : State ι σ) : Prop where
  inside : ∀ t, (s.phase t).holds = true → s.serial m₀ = runBody (s.phase t).rest s.memory
  free : s.locked = false → s.serial m₀ = some s.memory
  called : ∀ t, s.called t = s.enteredBy t ++ (s.phase t).waits.toList

namespace Serial

variable {m₀ : σ} {s s' : State ι σ} {l : Label ι σ} {t : ι}

/-- A step of one thread that is not seen from the memory. -/
theorem moved {phase : Phase σ} (h : Serial m₀ s) (hholds : phase.holds = (s.phase t).holds)
    (hrest : phase.rest = (s.phase t).rest) (hwaits : phase.waits = (s.phase t).waits) :
    Serial m₀ (s.moved t phase) := by
  -- the thread is inside, or waits, as before
  refine ⟨?_, h.free, ?_⟩
  · intro u hu
    by_cases hut : u = t
    · subst hut
      rw [State.phase_moved, Function.update_self] at hu ⊢
      rw [hrest]
      exact h.inside u (hholds ▸ hu)
    · rw [State.phase_moved, Function.update_of_ne hut] at hu ⊢
      exact h.inside u hu
  · intro u
    by_cases hut : u = t
    · subst hut
      rw [State.phase_moved, Function.update_self, hwaits]
      exact h.called u
    · rw [State.phase_moved, Function.update_of_ne hut]
      exact h.called u

theorem calling (h : Serial m₀ s) (body : Body σ) (ht : s.phase t = .outside) :
    Serial m₀ (s.calling t body) := by
  refine ⟨?_, h.free, ?_⟩
  · intro u hu
    by_cases hut : u = t
    · subst hut
      rw [State.phase_calling, Function.update_self] at hu
      exact absurd hu (by simp [Phase.holds])
    · rw [State.phase_calling, Function.update_of_ne hut] at hu ⊢
      exact h.inside u hu
  · intro u
    by_cases hut : u = t
    · subst hut
      rw [State.phase_calling, Function.update_self,
        -- the new call is the one that the thread waits with
        show (s.calling u body).called u = s.called u ++ [body] from Function.update_self ..,
        h.called u, ht]
      simp [Phase.waits, State.enteredBy, State.calling, State.moved]
    · rw [State.phase_calling, Function.update_of_ne hut,
        show (s.calling t body).called u = s.called u from Function.update_of_ne hut _ _]
      exact h.called u

theorem acquired (h : Serial m₀ s) (hexcl : Exclusive s) {body : Body σ}
    (ht : s.phase t = .exchanging body) (hfree : s.locked = false) :
    Serial m₀ (s.acquired t body) := by
  -- the new section comes after all others, whose memory is the present one
  have hserial : (s.acquired t body).serial m₀ = runBody body s.memory := by
    have hbefore : runBody (s.entered.map Prod.snd).flatten m₀ = some s.memory := h.free hfree
    simp [State.serial, State.acquired, runBody_append, hbefore]
  refine ⟨?_, ?_, ?_⟩
  · intro u hu
    by_cases hut : u = t
    · subst hut
      rw [hserial, State.phase_acquired, Function.update_self]
      rfl
    · rw [State.phase_acquired, Function.update_of_ne hut,
        hexcl.not_holds hfree u] at hu
      exact absurd hu (by decide)
  · intro hlocked
    exact absurd hlocked (by simp [State.acquired])
  · intro u
    by_cases hut : u = t
    · subst hut
      rw [State.phase_acquired, Function.update_self,
        show (s.acquired u body).called u = s.called u from rfl, h.called u, ht]
      simp [State.enteredBy, State.acquired, Phase.waits]
    · rw [State.phase_acquired, Function.update_of_ne hut,
        show (s.acquired t body).called u = s.called u from rfl, h.called u]
      simp [State.enteredBy, State.acquired, Ne.symm hut]

theorem executed (h : Serial m₀ s) (hexcl : Exclusive s) {stmt : σ → Option σ} {rest : Body σ}
    {memory : σ} (ht : s.phase t = .inside (stmt :: rest)) (hstmt : stmt s.memory = some memory) :
    Serial m₀ (s.executed t rest memory) := by
  have hin : (s.phase t).holds = true := by
    rw [ht]
    rfl
  refine ⟨?_, ?_, ?_⟩
  · intro u hu
    by_cases hut : u = t
    · subst hut
      -- one statement less is left of the body
      have hinside := h.inside u hin
      rw [ht, show (Phase.inside (stmt :: rest)).rest = stmt :: rest from rfl, runBody_cons, hstmt,
        Option.bind_some] at hinside
      rw [State.phase_executed, Function.update_self]
      exact hinside
    · rw [State.phase_executed, Function.update_of_ne hut] at hu
      exact absurd (hexcl.unique u t hu hin) hut
  · intro hfree
    rw [hexcl.not_holds hfree t] at hin
    exact absurd hin (by decide)
  · intro u
    by_cases hut : u = t
    · subst hut
      rw [State.phase_executed, Function.update_self]
      have hcalled := h.called u
      rw [ht] at hcalled
      exact hcalled
    · rw [State.phase_executed, Function.update_of_ne hut]
      exact h.called u

theorem cleared (h : Serial m₀ s) (hexcl : Exclusive s) (ht : s.phase t = .clearing) :
    Serial m₀ (s.cleared t) := by
  have hin : (s.phase t).holds = true := by
    rw [ht]
    rfl
  refine ⟨?_, ?_, ?_⟩
  · intro u hu
    by_cases hut : u = t
    · subst hut
      rw [State.phase_cleared, Function.update_self] at hu
      exact absurd hu (by simp [Phase.holds])
    · rw [State.phase_cleared, Function.update_of_ne hut] at hu
      exact absurd (hexcl.unique u t hu hin) hut
  · -- the thread that leaves has no statement left
    intro _
    have hinside := h.inside t hin
    rw [ht] at hinside
    exact hinside
  · intro u
    by_cases hut : u = t
    · subst hut
      rw [State.phase_cleared, Function.update_self]
      have hcalled := h.called u
      rw [ht] at hcalled
      exact hcalled
    · rw [State.phase_cleared, Function.update_of_ne hut]
      exact h.called u

theorem step (h : Serial m₀ s) (hexcl : Exclusive s) (hmove : Move s l s') : Serial m₀ s' := by
  cases hmove with
  | call t body ht => exact h.calling body ht
  | tested t body ht phase hphase =>
    rcases hphase with rfl | rfl
    · exact h.moved (by rw [ht]) (by rw [ht]) (by rw [ht])
    · exact h.moved (by rw [ht]; rfl) (by rw [ht]; rfl) (by rw [ht]; rfl)
  | refused t body ht => exact h.moved (by rw [ht]; rfl) (by rw [ht]; rfl) (by rw [ht]; rfl)
  | acquired t body ht hfree => exact h.acquired hexcl ht hfree
  | executed t stmt rest memory ht hstmt => exact h.executed hexcl ht hstmt
  | finished t ht => exact h.moved (by rw [ht]; rfl) (by rw [ht]; rfl) (by rw [ht]; rfl)
  | checked t ht => exact h.moved (by rw [ht]; rfl) (by rw [ht]; rfl) (by rw [ht]; rfl)
  | skipped t ht hfree =>
    -- a thread that unlocks holds the lock
    have hout := hexcl.not_holds hfree t
    rw [ht] at hout
    exact absurd hout (by simp [Phase.holds])
  | cleared t ht => exact h.cleared hexcl ht

end Serial

theorem serial_of_reachable {m₀ : σ} {s : State ι σ}
    (hr : (spinlock m₀).Reachable disciplined s) : Serial m₀ s := by
  refine System.Reachable.invariant ?_ ?_ hr
  · exact ⟨fun t ht => absurd ht (by simp [spinlock, Phase.holds]), fun _ => rfl, fun _ => rfl⟩
  · intro s l s' hr h hl hstep
    exact h.step (exclusive_of_reachable hr) (move_of_step hl hstep)

/-- **Serializability.** In every disciplined run, whatever the number of threads and the order of
their steps:

* no two threads are inside at the same time;
* a thread has entered the sections that it has called, each once and in this order, but for one
  that it may be waiting for;
* when no thread is inside, the memory is what the sections make of it when they are executed one
  after the other, in the order in which they were entered;
* and a thread that is inside makes the memory this with the statements that it has left. -/
theorem sections_serializable (m₀ : σ) (s : State ι σ)
    (hr : (spinlock m₀).Reachable disciplined s) :
    (∀ t u, (s.phase t).holds = true → (s.phase u).holds = true → t = u) ∧
      (∀ t, s.called t = s.enteredBy t ++ (s.phase t).waits.toList) ∧
      ((∀ t, (s.phase t).holds = false) → s.serial m₀ = some s.memory) ∧
      ∀ t rest, s.phase t = .inside rest → s.serial m₀ = runBody rest s.memory := by
  have hexcl := exclusive_of_reachable hr
  have h := serial_of_reachable hr
  refine ⟨hexcl.unique, h.called, ?_, ?_⟩
  · intro hnone
    refine h.free ?_
    by_contra hlocked
    obtain ⟨t, ht⟩ := hexcl.locked.mp (by simpa using hlocked)
    rw [hnone t] at ht
    exact absurd ht (by decide)
  · intro t rest ht
    have hinside := h.inside t (by rw [ht]; rfl)
    rw [ht] at hinside
    exact hinside

/-- The increment of a counter by one of two threads: a load into a register, and a store. -/
def increment (t : Bool) : Body (ℕ × (Bool → ℕ)) :=
  [fun m => some (m.1, Function.update m.2 t m.1), fun m => some (m.2 t + 1, m.2)]

/-- Two threads read that the lock is free, one of them gets it, and both increments count. -/
theorem sections_serializable_pair :
    ∃ s : State Bool (ℕ × (Bool → ℕ)), (spinlock (0, fun _ => 0)).Reachable disciplined s ∧
      s.entered.map Prod.fst = [false, true] ∧ s.memory.1 = 2 ∧
      s.serial (0, fun _ => 0) = some s.memory := by
  have hrun : (((spinlock (0, fun _ => 0)).guardedRun disciplined
      (spinlock (0, fun _ => 0)).init
      ([.call false (increment false), .call true (increment true), .step false, .step true,
        .step false, .step true] ++ List.replicate 5 (.step false) ++
        List.replicate 7 (.step true))).any
      fun s => s.entered.map Prod.fst = [false, true] ∧ s.memory.1 = 2 ∧
        (s.phase false).holds = false ∧ (s.phase true).holds = false) = true := by
    decide +kernel
  obtain ⟨s, hr, hend⟩ := System.Reachable.of_any hrun
  obtain ⟨hentered, hmemory, hfalse, htrue⟩ := of_decide_eq_true hend
  exact ⟨s, hr, hentered, hmemory,
    (sections_serializable _ s hr).2.2.1 (Bool.forall_bool.mpr ⟨hfalse, htrue⟩)⟩

/-! ### The lock is never lost -/

section Progress

variable (m₀ : σ) {s s' : State ι σ} {t : ι} {rest body : Body σ}

/-- One more step of a thread in front of a run. -/
theorem run_of_next {ls : List (Label ι σ)} {s'' : State ι σ} (h : next t s = some s')
    (hrun : (spinlock m₀).guardedRun disciplined s' ls = some s'') :
    (spinlock m₀).guardedRun disciplined s (.step t :: ls) = some s'' :=
  System.guardedRun_cons_eq_some.mpr ⟨trivial, s', h, hrun⟩

theorem phase_cleared_of_ne {u : ι} (hu : u ≠ t) : (s.cleared t).phase u = s.phase u := by
  rw [State.phase_cleared, Function.update_of_ne hu]

/-- The thread that is inside comes to the end of its section and releases the lock. -/
theorem run_inside (ht : s.phase t = .inside rest) (hlocked : s.locked = true)
    (hrest : (runBody rest s.memory).isSome) :
    ∃ n s', (spinlock m₀).guardedRun disciplined s (List.replicate n (.step t)) = some s' ∧
      s'.locked = false ∧ ∀ u, u ≠ t → s'.phase u = s.phase u := by
  induction rest generalizing s with
  | nil =>
    -- the call of `gt_spin_unlock`, its read, and its store
    have hcall : next t s = some (s.moved t .unlocking) := by simp [next, ht]
    have hread : next t (s.moved t .unlocking) =
        some ((s.moved t .unlocking).moved t .clearing) := by simp [next, State.moved, hlocked]
    have hstore : next t ((s.moved t .unlocking).moved t .clearing) =
        some (((s.moved t .unlocking).moved t .clearing).cleared t) := by
      simp [next, State.moved]
    refine ⟨3, _, run_of_next m₀ hcall (run_of_next m₀ hread (run_of_next m₀ hstore rfl)), rfl, ?_⟩
    intro u hu
    rw [phase_cleared_of_ne hu, State.phase_moved, Function.update_of_ne hu, State.phase_moved,
      Function.update_of_ne hu]
  | cons stmt rest ih =>
    rw [runBody_cons] at hrest
    cases hstmt : stmt s.memory with
    | none =>
      rw [hstmt] at hrest
      exact absurd hrest (by simp)
    | some memory =>
      rw [hstmt, Option.bind_some] at hrest
      have hnext : next t s = some (s.executed t rest memory) := by simp [next, ht, hstmt]
      obtain ⟨n, s', hrun, hfree, hother⟩ := ih (s := s.executed t rest memory)
        (by rw [State.phase_executed, Function.update_self]) hlocked hrest
      refine ⟨n + 1, s', run_of_next m₀ hnext hrun, hfree, ?_⟩
      intro u hu
      rw [hother u hu, State.phase_executed, Function.update_of_ne hu]

/-- The thread that holds the lock releases it. -/
theorem run_holds (ht : (s.phase t).holds = true) (hlocked : s.locked = true)
    (hrest : ∀ rest, s.phase t = .inside rest → (runBody rest s.memory).isSome) :
    ∃ n s', (spinlock m₀).guardedRun disciplined s (List.replicate n (.step t)) = some s' ∧
      s'.locked = false ∧ ∀ u, u ≠ t → s'.phase u = s.phase u := by
  cases hphase : s.phase t with
  | inside rest => exact run_inside m₀ hphase hlocked (hrest rest hphase)
  -- `gt_spin_unlock` reads the word, and then clears it
  | unlocking =>
    have hread : next t s = some (s.moved t .clearing) := by simp [next, hphase, hlocked]
    have hstore : next t (s.moved t .clearing) = some ((s.moved t .clearing).cleared t) := by
      simp [next, State.moved]
    refine ⟨2, _, run_of_next m₀ hread (run_of_next m₀ hstore rfl), rfl, ?_⟩
    intro u hu
    rw [phase_cleared_of_ne hu, State.phase_moved, Function.update_of_ne hu]
  | clearing =>
    have hstore : next t s = some (s.cleared t) := by simp [next, hphase]
    refine ⟨1, _, run_of_next m₀ hstore rfl, rfl, ?_⟩
    intro u hu
    exact phase_cleared_of_ne hu
  | outside | testing body | exchanging body =>
    rw [hphase] at ht
    exact absurd ht (by simp [Phase.holds])

/-- A thread that waits for a free lock gets it. -/
theorem run_waiting (ht : (s.phase t).waits = some body) (hfree : s.locked = false) :
    ∃ n s', (spinlock m₀).guardedRun disciplined s (List.replicate n (.step t)) = some s' ∧
      s'.phase t = .inside body := by
  cases hphase : s.phase t with
  -- the test, and then the exchange
  | testing body' =>
    rw [hphase] at ht
    obtain rfl := Option.some.inj ht
    have hread : next t s = some (s.moved t (.exchanging body')) := by simp [next, hphase, hfree]
    have hxchg : next t (s.moved t (.exchanging body')) =
        some ((s.moved t (.exchanging body')).acquired t body') := by
      simp [next, State.moved, hfree]
    refine ⟨2, _, run_of_next m₀ hread (run_of_next m₀ hxchg rfl), ?_⟩
    rw [State.phase_acquired, Function.update_self]
  | exchanging body' =>
    rw [hphase] at ht
    obtain rfl := Option.some.inj ht
    have hxchg : next t s = some (s.acquired t body') := by simp [next, hphase, hfree]
    refine ⟨1, _, run_of_next m₀ hxchg rfl, ?_⟩
    rw [State.phase_acquired, Function.update_self]
  | outside | inside rest | unlocking | clearing =>
    rw [hphase] at ht
    exact absurd ht (by simp [Phase.waits])

end Progress

/-- **The lock is never lost.** In every state of a disciplined run a thread that waits can enter
its section, by steps of its own after steps of the thread that is inside, if there is one whose
statements succeed. -/
theorem waiting_thread_enters (m₀ : σ) (s : State ι σ)
    (hr : (spinlock m₀).Reachable disciplined s) (t : ι) (body : Body σ)
    (ht : (s.phase t).waits = some body)
    (hinside : ∀ u rest, s.phase u = .inside rest → (runBody rest s.memory).isSome) :
    ∃ ls s', (spinlock m₀).guardedRun disciplined s ls = some s' ∧ s'.phase t = .inside body ∧
      ∀ l ∈ ls, l = .step t ∨ ∃ u, (s.phase u).holds = true ∧ l = .step u := by
  have hexcl := exclusive_of_reachable hr
  cases hlocked : s.locked with
  | false =>
    obtain ⟨n, s', hrun, hin⟩ := run_waiting m₀ ht hlocked
    refine ⟨_, s', hrun, hin, ?_⟩
    intro l hl
    exact .inl (List.eq_of_mem_replicate hl)
  | true =>
    obtain ⟨u, hu⟩ := hexcl.locked.mp hlocked
    obtain ⟨n, s₁, hrun₁, hfree, hother⟩ := run_holds m₀ hu hlocked (hinside u)
    -- the thread that waits is not the one inside, and still waits
    have htu : t ≠ u := by
      rintro rfl
      cases hphase : s.phase t <;> rw [hphase] at ht hu <;> simp [Phase.waits, Phase.holds] at ht hu
    have ht₁ : (s₁.phase t).waits = some body := by rw [hother t htu, ht]
    obtain ⟨n', s', hrun', hin⟩ := run_waiting m₀ ht₁ hfree
    refine ⟨List.replicate n (.step u) ++ List.replicate n' (.step t), s', ?_, hin, ?_⟩
    · rw [System.guardedRun_append, hrun₁, Option.bind_some, hrun']
    · intro l hl
      rcases List.mem_append.mp hl with hl | hl
      · exact .inr ⟨u, hu, List.eq_of_mem_replicate hl⟩
      · exact .inl (List.eq_of_mem_replicate hl)

/-- One thread has read that the lock is free, but the other one is inside. -/
theorem waiting_thread_enters_pair :
    ∃ s : State Bool (ℕ × (Bool → ℕ)), (spinlock (0, fun _ => 0)).Reachable disciplined s ∧
      (s.phase false).holds = true ∧
      ∃ ls s', (spinlock (0, fun _ => 0)).guardedRun disciplined s ls = some s' ∧
        s'.phase true = .inside (increment true) := by
  have hrun : (spinlock (0, fun _ => 0)).guardedRun disciplined (spinlock (0, fun _ => 0)).init
      [.call false (increment false), .call true (increment true), .step false, .step true,
        .step false] =
      some ((((((spinlock (0, fun _ => 0)).init.calling false (increment false)).calling true
        (increment true)).moved false (.exchanging (increment false))).moved true
          (.exchanging (increment true))).acquired false (increment false)) := rfl
  -- both have read a free lock, and one of them was faster
  have hr := System.Reachable.of_guardedRun .init hrun
  refine ⟨_, hr, rfl, ?_⟩
  obtain ⟨ls, s', hls, hin, -⟩ := waiting_thread_enters _ _ hr true (increment true) rfl (by
    rw [Bool.forall_bool]
    refine ⟨?_, ?_⟩
    · intro rest hrest
      obtain rfl := Phase.inside.inj hrest
      rfl
    · intro rest hrest
      exact absurd hrest (by simp [State.acquired, State.moved]))
  exact ⟨ls, s', hls, hin⟩

/-! ### The rule for clients -/

/-- A specification of the sections that the threads call: an invariant that every section keeps
when it is executed alone, and the preconditions of the sections. A precondition is about what its
thread owns, so the statements of another thread keep it. -/
structure SectionSpec (ι σ : Type) where
  Inv : σ → Prop
  Pre : ι → Body σ → σ → Prop
  run : ∀ t body m, Inv m → Pre t body m → ∃ m', runBody body m = some m' ∧ Inv m'
  frame : ∀ t body m, Pre t body m → ∀ stmt ∈ body, ∀ m₁ m₂, stmt m₁ = some m₂ →
    ∀ u, u ≠ t → ∀ body', Pre u body' m₁ → Pre u body' m₂

namespace SectionSpec

variable (spec : SectionSpec ι σ)

omit [DecidableEq ι] in
/-- Threads call sections whose preconditions hold, and `gt_spin_unlock` at the end of a section
only. -/
def guard (s : State ι σ) : Label ι σ → Prop
  | .call t body => spec.Pre t body s.memory
  | .step _ => True
  | .unlock _ => False

omit [DecidableEq ι] in
theorem disciplined_of_guard {s : State ι σ} {l : Label ι σ} (h : spec.guard s l) :
    disciplined s l := by
  cases l with
  | call t body => trivial
  | step t => trivial
  | unlock t => exact h.elim

/-- What holds along the runs: the invariant while the lock is free, and that the thread inside will
restore it. -/
structure Sound (s : State ι σ) : Prop where
  free : s.locked = false → spec.Inv s.memory
  inside : ∀ t, (s.phase t).holds = true →
    ∃ m', runBody (s.phase t).rest s.memory = some m' ∧ spec.Inv m'
  waiting : ∀ t body, (s.phase t).waits = some body → spec.Pre t body s.memory
  framed : ∀ t, ∀ stmt ∈ (s.phase t).rest, ∀ m₁ m₂, stmt m₁ = some m₂ →
    ∀ u, u ≠ t → ∀ body', spec.Pre u body' m₁ → spec.Pre u body' m₂

namespace Sound

variable {spec} {s s' : State ι σ} {l : Label ι σ} {t : ι}

/-- A step of one thread that changes neither the memory nor the lock. -/
theorem moved (h : spec.Sound s) (phase : Phase σ)
    (hinside : phase.holds = true →
      ∃ m', runBody phase.rest s.memory = some m' ∧ spec.Inv m')
    (hwaiting : ∀ body, phase.waits = some body → spec.Pre t body s.memory)
    (hframed : ∀ stmt ∈ phase.rest, ∀ m₁ m₂, stmt m₁ = some m₂ →
      ∀ u, u ≠ t → ∀ body', spec.Pre u body' m₁ → spec.Pre u body' m₂)
    (hphase : s'.phase = Function.update s.phase t phase) (hmemory : s'.memory = s.memory)
    (hfree : s'.locked = false → spec.Inv s.memory) : spec.Sound s' := by
  refine ⟨by rw [hmemory]; exact hfree, ?_, ?_, ?_⟩
  · rw [hphase, hmemory]
    exact (Function.forall_update_iff s.phase fun _ phase => phase.holds = true →
      ∃ m', runBody phase.rest s.memory = some m' ∧ spec.Inv m').mpr
        ⟨hinside, fun u _ => h.inside u⟩
  · rw [hphase, hmemory]
    exact (Function.forall_update_iff s.phase fun u phase => ∀ body, phase.waits = some body →
      spec.Pre u body s.memory).mpr ⟨hwaiting, fun u _ => h.waiting u⟩
  · rw [hphase]
    exact (Function.forall_update_iff s.phase fun t phase => ∀ stmt ∈ phase.rest, ∀ m₁ m₂,
      stmt m₁ = some m₂ → ∀ u, u ≠ t → ∀ body', spec.Pre u body' m₁ → spec.Pre u body' m₂).mpr
        ⟨hframed, fun u _ => h.framed u⟩

/-- A thread waits, with the precondition of its section. -/
theorem waits (h : spec.Sound s) {body : Body σ} {phase : Phase σ}
    (hpre : spec.Pre t body s.memory)
    (hwaits : phase = .testing body ∨ phase = .exchanging body)
    (hphase : s'.phase = Function.update s.phase t phase) (hmemory : s'.memory = s.memory)
    (hlocked : s'.locked = s.locked) : spec.Sound s' := by
  have hbody : phase.waits = some body := by rcases hwaits with rfl | rfl <;> rfl
  have hholds : phase.holds = false := by rcases hwaits with rfl | rfl <;> rfl
  have hrest : phase.rest = [] := by rcases hwaits with rfl | rfl <;> rfl
  refine h.moved phase (by simp [hholds]) ?_ (by simp [hrest]) hphase hmemory
    (by rw [hlocked]; exact h.free)
  intro body' hbody'
  obtain rfl := Option.some.inj (hbody.symm.trans hbody')
  exact hpre

theorem executed (h : spec.Sound s) (hexcl : Exclusive s) {stmt : σ → Option σ} {rest : Body σ}
    {memory : σ} (ht : s.phase t = .inside (stmt :: rest)) (hstmt : stmt s.memory = some memory) :
    spec.Sound (s.executed t rest memory) := by
  have hin : (s.phase t).holds = true := by
    rw [ht]
    rfl
  have hframed := h.framed t
  rw [ht] at hframed
  refine ⟨?_, ?_, ?_, ?_⟩
  · intro hfree
    rw [hexcl.not_holds hfree t] at hin
    exact absurd hin (by decide)
  · intro u hu
    by_cases hut : u = t
    · subst hut
      obtain ⟨m', hm', hinv⟩ := h.inside u hin
      rw [ht, show (Phase.inside (stmt :: rest)).rest = stmt :: rest from rfl, runBody_cons, hstmt,
        Option.bind_some] at hm'
      rw [State.phase_executed, Function.update_self]
      exact ⟨m', hm', hinv⟩
    · rw [State.phase_executed, Function.update_of_ne hut] at hu
      exact absurd (hexcl.unique u t hu hin) hut
  · -- the statement keeps what the others wait with
    intro u body hu
    by_cases hut : u = t
    · subst hut
      rw [State.phase_executed, Function.update_self] at hu
      exact absurd hu (by simp [Phase.waits])
    · rw [State.phase_executed, Function.update_of_ne hut] at hu
      exact hframed stmt List.mem_cons_self _ _ hstmt u hut body (h.waiting u body hu)
  · intro u
    by_cases hut : u = t
    · subst hut
      rw [State.phase_executed, Function.update_self]
      intro stmt' hmem
      exact hframed stmt' (List.mem_cons_of_mem stmt hmem)
    · rw [State.phase_executed, Function.update_of_ne hut]
      exact h.framed u

omit [DecidableEq ι] in
/-- The invariant holds again when the thread inside has no statement left. -/
theorem inv (h : spec.Sound s) (ht : (s.phase t).holds = true) (hrest : (s.phase t).rest = []) :
    spec.Inv s.memory := by
  obtain ⟨m', hm', hinv⟩ := h.inside t ht
  rw [hrest, runBody_nil] at hm'
  exact Option.some.inj hm' ▸ hinv

theorem step (h : spec.Sound s) (hexcl : Exclusive s) (hl : spec.guard s l) (hmove : Move s l s') :
    spec.Sound s' := by
  cases hmove with
  | call t body ht => exact h.waits hl (.inl rfl) rfl rfl rfl
  | tested t body ht phase hphase =>
    exact h.waits (h.waiting t body (by rw [ht]; rfl)) hphase rfl rfl rfl
  | refused t body ht =>
    exact h.waits (h.waiting t body (by rw [ht]; rfl)) (.inl rfl) rfl rfl rfl
  | acquired t body ht hfree =>
    -- the thread enters with the invariant, and its body keeps it
    have hpre := h.waiting t body (by rw [ht]; rfl)
    refine h.moved (.inside body) ?_ (by simp [Phase.waits]) ?_ rfl rfl (by simp [State.acquired])
    · intro _
      exact spec.run t body s.memory (h.free hfree) hpre
    · exact spec.frame t body s.memory hpre
  | executed t stmt rest memory ht hstmt => exact h.executed hexcl ht hstmt
  | finished t ht =>
    have hinv := h.inv (by rw [ht]; rfl) (by rw [ht]; rfl)
    exact h.moved .unlocking (fun _ => ⟨s.memory, rfl, hinv⟩) (by simp [Phase.waits])
      (by simp [Phase.rest]) rfl rfl h.free
  | checked t ht =>
    have hinv := h.inv (by rw [ht]; rfl) (by rw [ht]; rfl)
    exact h.moved .clearing (fun _ => ⟨s.memory, rfl, hinv⟩) (by simp [Phase.waits])
      (by simp [Phase.rest]) rfl rfl h.free
  | skipped t ht hfree =>
    exact h.moved .outside (by simp [Phase.holds]) (by simp [Phase.waits]) (by simp [Phase.rest])
      rfl rfl h.free
  | cleared t ht =>
    have hinv := h.inv (by rw [ht]; rfl) (by rw [ht]; rfl)
    exact h.moved .outside (by simp [Phase.holds]) (by simp [Phase.waits]) (by simp [Phase.rest])
      rfl rfl fun _ => hinv

end Sound

/-- **The rule for clients.** Along every run in which threads call sections whose preconditions
hold, the invariant holds whenever the lock is free, no statement fails, and the thread inside
restores the invariant. -/
theorem sound_of_reachable {m₀ : σ} (h₀ : spec.Inv m₀) {s : State ι σ}
    (hr : (spinlock m₀).Reachable spec.guard s) : spec.Sound s := by
  refine System.Reachable.invariant ?_ ?_ hr
  · exact ⟨fun _ => h₀, fun t ht => absurd ht (by simp [spinlock, Phase.holds]),
      fun t body ht => absurd ht (by simp [spinlock, Phase.waits]),
      fun t stmt ht => absurd ht (by simp [spinlock, Phase.rest])⟩
  · intro s l s' hr h hl hstep
    have hexcl : Exclusive s :=
      exclusive_of_reachable (hr.mono fun _ _ => spec.disciplined_of_guard)
    exact h.step hexcl hl (move_of_step (spec.disciplined_of_guard hl) hstep)

end SectionSpec

/-! ### A release by another thread -/

/-- While a thread `t` is inside, a call of `gt_spin_unlock` by a thread `u` that is outside
releases the lock, and a thread `v` that waits enters. -/
theorem stray_unlock_admits (m₀ : σ) {s : State ι σ} {t u v : ι} {rest body : Body σ}
    (ht : s.phase t = .inside rest) (hlocked : s.locked = true) (hu : s.phase u = .outside)
    (hv : s.phase v = .testing body) :
    ∃ s', (spinlock m₀).guardedRun System.anyStep s
        [.unlock u, .step u, .step u, .step v, .step v] = some s' ∧
      s'.phase t = .inside rest ∧ s'.phase v = .inside body := by
  -- the three threads are in different phases, so they are three
  have htu : t ≠ u := by
    rintro rfl
    rw [ht] at hu
    exact absurd hu (by simp)
  have htv : t ≠ v := by
    rintro rfl
    rw [ht] at hv
    exact absurd hv (by simp)
  have huv : v ≠ u := by
    rintro rfl
    rw [hu] at hv
    exact absurd hv (by simp)
  refine ⟨((((s.moved u .unlocking).moved u .clearing).cleared u).moved v
    (.exchanging body)).acquired v body, ?_, ?_, ?_⟩
  · simp [System.guardedRun, System.anyStep, spinlock, next, hu, State.moved, State.cleared,
      hlocked, hv, huv]
  · simp [State.acquired, State.moved, State.cleared, htu, htv, ht]
  · simp [State.acquired, State.moved]

end Spinlock

end GTThreads

end OSLab
