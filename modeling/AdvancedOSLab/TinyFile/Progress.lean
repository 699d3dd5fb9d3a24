import AdvancedOSLab.Framework.Response
import AdvancedOSLab.TinyFile.Slots
import Mathlib.Algebra.BigOperators.Fin
import Mathlib.Algebra.Order.BigOperators.Group.Finset

/-!
# Every request of a TinyFile client can be answered

`Slots` is about what a waiter knows when it returns. This module is about whether it returns.

## Nothing is lost

`nothing_lost` holds in every interleaving of requests and workers: an entry is in use exactly while
one request owns it, so that no entry leaks; a request that waits has a message under way exactly
until its entry is marked done, so that no message gets lost; and no mutex of an entry stays locked.
A client that ends takes its requests with it, but not the entries of its messages.

All this is for workers that see their client as it was registered (`Intact`): a worker whose
`client_t` was overwritten can lose a message, or never receive one.

## Nobody waits forever

The client calls the two functions from its main thread, in one mode for all files: with `SYNC` one
request ends before the next one starts, with `ASYNC` the waits are left to other threads (`usage`).
In such a run a search never ends the client, and from every state all requests that were started
can return, without new ones (`requests_can_return`). The argument is one request at a time: the
messages under way are handled first, then a waiter finds its entry done; and when no entry is in
use, whoever holds the global mutex takes one, or gives up and lets the next one search.
-/

namespace OSLab
namespace TinyFile
namespace Progress

variable {n w : ℕ} {dirs : Directories} {s s' : State n w} {r r' : ℕ} {i : Fin n}
  {l : Label n w} {mode : Mode} {phase phase' : Phase n}

/-! ### What is kept -/

/-- No mutex is left locked, an entry that is used is owned, and a request waits for a message that
is under way or for an entry that is done. -/
structure Conserved (s : State n w) : Prop where
  unlocked : ∀ i, (s.entries i).mutex = false
  owned : ∀ i, (s.entries i).isUsed = true → ∃ r, s.Owns r i
  pending : ∀ r i, s.phaseOf r = some (.waiting i) → (s.entries i).isDone = false →
    s.InFlight ⟨i, r⟩

/-- The request is in front of its search, or searches. -/
def Searches (s : State n w) (r : ℕ) : Prop :=
  s.phaseOf r = some .starting ∨ ∃ k, s.phaseOf r = some (.scanning k)

theorem Searches.not_owns (h : Searches s r) (i : Fin n) : ¬ s.Owns r i := by
  intro hown
  rcases h with hphase | ⟨k, hphase⟩ <;>
    rcases hown with hclaimed | hwaiting
  · exact absurd (hphase.symm.trans hclaimed) (by simp)
  · exact absurd (hphase.symm.trans hwaiting) (by simp)
  · exact absurd (hphase.symm.trans hclaimed) (by simp)
  · exact absurd (hphase.symm.trans hwaiting) (by simp)

theorem phaseOf_of_requests (hrequests : s'.requests = (s.setPhase r phase').requests)
    (hphase : s.phaseOf r = some phase) (r' : ℕ) :
    s'.phaseOf r' = if r' = r then some phase' else s.phaseOf r' := by
  rw [State.phaseOf, hrequests]
  exact phaseOf_setPhase hphase phase' r'

theorem phaseOf_start (s : State n w) (path : Path) (mode : Mode) (r : ℕ) :
    { s with
      requests := Function.update s.requests s.started (some ⟨path, mode, .starting⟩)
      started := s.started + 1 }.phaseOf r =
        if r = s.started then some .starting else s.phaseOf r := by
  simp only [State.phaseOf, Function.update_apply]
  split
  · rfl
  · rfl

theorem owns_of_phaseOf (h : s'.phaseOf r = s.phaseOf r) : s'.Owns r i ↔ s.Owns r i := by
  rw [State.Owns, State.Owns, h]

/-- Who waits after a step of a request that does not begin to wait has waited before. -/
theorem waiting_before
    (hphases : ∀ r', s'.phaseOf r' = if r' = r then some phase' else s.phaseOf r')
    (hphase' : ∀ k, phase' ≠ .waiting k) {r' : ℕ} (hwaiting : s'.phaseOf r' = some (.waiting i)) :
    r' ≠ r ∧ s.phaseOf r' = some (.waiting i) := by
  rw [hphases] at hwaiting
  split at hwaiting
  · exact absurd (Option.some.inj hwaiting) (hphase' i)
  · next hne => exact ⟨hne, hwaiting⟩

namespace Conserved

theorem initial : Conserved (State.initial : State n w) where
  unlocked _ := rfl
  owned _ hused := absurd hused (by simp [State.initial, Entry.fresh])
  pending _ _ hphase := absurd hphase (by simp [State.initial, State.phaseOf])

/-- The phase of a request that owns nothing changes, and it does not get an entry. -/
theorem of_searches (h : Conserved s) (hsearches : Searches s r) (hsearches' : Searches s' r)
    (hphase : ∀ r', r' ≠ r → s'.phaseOf r' = s.phaseOf r') (hentries : s'.entries = s.entries)
    (hqueue : s'.queue = s.queue) (hworkers : s'.workers = s.workers) : Conserved s' where
  unlocked := hentries ▸ h.unlocked
  owned i hused := by
    rw [hentries] at hused
    obtain ⟨r', hown⟩ := h.owned i hused
    have hne : r' ≠ r := by
      rintro rfl
      exact hsearches.not_owns i hown
    exact ⟨r', (owns_of_phaseOf (hphase r' hne)).mpr hown⟩
  pending r' i hwaiting hdone := by
    have hne : r' ≠ r := by
      rintro rfl
      exact hsearches'.not_owns i (.inr hwaiting)
    rw [hphase r' hne] at hwaiting
    rw [hentries] at hdone
    rw [State.InFlight, hqueue, hworkers]
    exact h.pending r' i hwaiting hdone

/-- An entry that nobody owns is taken. -/
theorem take (h : Conserved s) (hinv : Inv dirs s) {entry : Entry}
    (hphase : s.phaseOf r = some (.scanning i)) (hfree : (s.entries i).isUsed = false)
    (hmutex : entry.mutex = (s.entries i).mutex) :
    Conserved { (s.setEntry i entry).setPhase r (.claimed i) with globalMutex := none } := by
  have hphases : ∀ r', { (s.setEntry i entry).setPhase r (.claimed i) with
      globalMutex := none }.phaseOf r' = if r' = r then some (.claimed i) else s.phaseOf r' :=
    phaseOf_setPhase hphase (.claimed i)
  refine ⟨fun i' => ?_, fun i' hused => ?_, fun r' i' hwaiting hdone => ?_⟩
  · show (Function.update s.entries i entry i').mutex = false
    by_cases hi : i' = i
    · rw [hi, Function.update_self, hmutex, h.unlocked]
    · rw [Function.update_of_ne hi, h.unlocked]
  · -- the owner of the entry is the request, and the others keep theirs: it had none to give up
    by_cases hi : i' = i
    · exact ⟨r, .inl (by rw [hphases, if_pos rfl, hi])⟩
    · replace hused : (Function.update s.entries i entry i').isUsed = true := hused
      rw [Function.update_of_ne hi] at hused
      obtain ⟨r', hown⟩ := h.owned i' hused
      have hne : r' ≠ r := by
        rintro rfl
        exact Searches.not_owns (.inr ⟨_, hphase⟩) i' hown
      exact ⟨r', (owns_of_phaseOf ((hphases r').trans (if_neg hne))).mpr hown⟩
  · obtain ⟨-, hwaited⟩ := waiting_before hphases (by simp) hwaiting
    -- the entry of a waiter is used, so it is not the one that was taken
    have hi : i' ≠ i := by
      rintro rfl
      exact absurd (hinv.used (.inr hwaited)) (by simp [hfree])
    replace hdone : (Function.update s.entries i entry i').isDone = false := hdone
    rw [Function.update_of_ne hi] at hdone
    exact h.pending r' i' hwaited hdone

/-- The message of the request is under way from now on. -/
theorem send (h : Conserved s) (hphase : s.phaseOf r = some (.claimed i)) :
    Conserved { s.setPhase r (.waiting i) with queue := s.queue ++ [⟨i, r⟩] } := by
  have hphases : ∀ r', { s.setPhase r (.waiting i) with
      queue := s.queue ++ [(⟨i, r⟩ : Message n)] }.phaseOf r' =
        if r' = r then some (.waiting i) else s.phaseOf r' := phaseOf_setPhase hphase (.waiting i)
  refine ⟨h.unlocked, fun i' hused => ?_, fun r' i' hwaiting hdone => ?_⟩
  · obtain ⟨r', hown⟩ := h.owned i' hused
    refine ⟨r', ?_⟩
    by_cases hr : r' = r
    · subst hr
      -- it owns the entry that it has taken
      rcases hown with hclaimed | hwaiting
      · obtain rfl := Phase.claimed.inj (Option.some.inj (hphase.symm.trans hclaimed))
        exact .inr (by rw [hphases, if_pos rfl])
      · exact absurd (hphase.symm.trans hwaiting) (by simp)
    · exact (owns_of_phaseOf ((hphases r').trans (if_neg hr))).mpr hown
  · -- the new message is the last one of the queue
    by_cases hr : r' = r
    · subst hr
      rw [hphases, if_pos rfl] at hwaiting
      obtain rfl := Phase.waiting.inj (Option.some.inj hwaiting)
      exact .inl (List.mem_append_right _ List.mem_cons_self)
    · rw [hphases, if_neg hr] at hwaiting
      exact (h.pending r' i' hwaiting hdone).imp_left fun hm => List.mem_append_left _ hm

/-- A waiter frees its entry, which nobody else owns. -/
theorem release (h : Conserved s) (hinv : Inv dirs s) (hphase : s.phaseOf r = some (.waiting i))
    (by_ : Option ℕ) :
    Conserved ((s.setEntry i { s.entries i with isUsed := false, isDone := false }).setPhase r
      (.returned by_)) := by
  have hphases : ∀ r', ((s.setEntry i { s.entries i with
      isUsed := false, isDone := false }).setPhase r (.returned by_)).phaseOf r' =
        if r' = r then some (.returned by_) else s.phaseOf r' :=
    phaseOf_setPhase hphase (.returned by_)
  have hentry : ∀ i', i' ≠ i → ((s.setEntry i { s.entries i with
      isUsed := false, isDone := false }).setPhase r (.returned by_)).entries i' = s.entries i' :=
    fun i' hi => Function.update_of_ne hi _ _
  have hself : ((s.setEntry i { s.entries i with
      isUsed := false, isDone := false }).setPhase r (.returned by_)).entries i =
      { s.entries i with isUsed := false, isDone := false } := Function.update_self ..
  refine ⟨fun i' => ?_, fun i' hused => ?_, fun r' i' hwaiting hdone => ?_⟩
  · by_cases hi : i' = i
    · rw [hi, hself]
      exact h.unlocked i
    · rw [hentry i' hi]
      exact h.unlocked i'
  · have hi : i' ≠ i := by
      rintro rfl
      rw [hself] at hused
      exact absurd hused (by simp)
    rw [hentry i' hi] at hused
    -- the owner of another entry is another request
    obtain ⟨r', hown⟩ := h.owned i' hused
    have hne : r' ≠ r := by
      rintro rfl
      rcases hown with hclaimed | hwaiting
      · exact absurd (hphase.symm.trans hclaimed) (by simp)
      · exact hi (Phase.waiting.inj (Option.some.inj (hwaiting.symm.trans hphase)))
    exact ⟨r', (owns_of_phaseOf ((hphases r').trans (if_neg hne))).mpr hown⟩
  · obtain ⟨hne, hwaited⟩ := waiting_before hphases (by simp) hwaiting
    -- two waiters have two entries
    have hi : i' ≠ i := by
      rintro rfl
      exact hne (hinv.owner_unique r' r i' (.inr hwaited) (.inr hphase))
    rw [hentry i' hi] at hdone
    exact h.pending r' i' hwaited hdone

/-- Messages stay under way, and nothing else changes. -/
theorem of_inFlight (h : Conserved s) (hentries : s'.entries = s.entries)
    (hrequests : s'.requests = s.requests) (hflight : ∀ m, s.InFlight m → s'.InFlight m) :
    Conserved s' := by
  have hphases : ∀ r, s'.phaseOf r = s.phaseOf r := fun r => by
    rw [State.phaseOf, hrequests, State.phaseOf]
  refine ⟨hentries ▸ h.unlocked, fun i hused => ?_, fun r i hwaiting hdone => ?_⟩
  · rw [hentries] at hused
    obtain ⟨r, hown⟩ := h.owned i hused
    exact ⟨r, (owns_of_phaseOf (hphases r)).mpr hown⟩
  · rw [hphases] at hwaiting
    rw [hentries] at hdone
    exact hflight _ (h.pending r i hwaiting hdone)

/-- A worker that goes on has the message that it had. -/
theorem setWorker (h : Conserved s) {j : Fin w} {worker : Worker n}
    (hmessage : worker.message = (s.workers j).message) : Conserved (s.setWorker j worker) := by
  refine h.of_inFlight rfl rfl fun m hm => hm.imp_right fun ⟨j', hj'⟩ => ⟨j', ?_⟩
  show (Function.update s.workers j worker j').message = some m
  by_cases hj : j' = j
  · rw [hj, Function.update_self, hmessage, ← hj, hj']
  · rw [Function.update_of_ne hj, hj']

theorem receive (h : Conserved s) {j : Fin w} {m : Message n} {rest : List (Message n)}
    (hlistening : s.workers j = .listening) (hqueue : s.queue = m :: rest) :
    Conserved { s.setWorker j (.received m) with queue := rest } := by
  refine h.of_inFlight rfl rfl fun m' hm' => ?_
  -- the first message of the queue goes to the worker, which had none
  rcases hm' with hm' | ⟨j', hj'⟩
  · rw [hqueue] at hm'
    rcases List.mem_cons.mp hm' with rfl | hm'
    · refine .inr ⟨j, ?_⟩
      show (Function.update s.workers j (.received m') j).message = some m'
      rw [Function.update_self]
      rfl
    · exact .inl hm'
  · refine .inr ⟨j', ?_⟩
    show (Function.update s.workers j (.received m) j').message = some m'
    have hj : j' ≠ j := by
      rintro rfl
      rw [hlistening] at hj'
      exact absurd hj' (by simp [Worker.message])
    rw [Function.update_of_ne hj, hj']

/-- The message of the worker is no longer under way, and its entry is done. -/
theorem signal (h : Conserved s) {j : Fin w} {m : Message n} {signalledBy : Fin n → Option ℕ}
    {handled : List Handled} (hmessage : (s.workers j).message = some m) :
    Conserved { (s.setEntry m.index { s.entries m.index with isDone := true }).setWorker j .idle
      with signalledBy := signalledBy, handled := handled } := by
  have hself : Function.update s.entries m.index { s.entries m.index with isDone := true } m.index =
      { s.entries m.index with isDone := true } := Function.update_self ..
  refine ⟨fun i => ?_, fun i hused => h.owned i ?_, fun r i hwaiting hdone => ?_⟩
  · show (Function.update s.entries m.index _ i).mutex = false
    by_cases hi : i = m.index
    · rw [hi, hself]
      exact h.unlocked m.index
    · rw [Function.update_of_ne hi, h.unlocked]
  · replace hused : (Function.update s.entries m.index _ i).isUsed = true := hused
    by_cases hi : i = m.index
    · rw [hi, hself] at hused
      exact hi ▸ hused
    · rwa [Function.update_of_ne hi] at hused
  · replace hdone : (Function.update s.entries m.index _ i).isDone = false := hdone
    have hi : i ≠ m.index := by
      rintro rfl
      rw [hself] at hdone
      exact absurd hdone (by simp)
    rw [Function.update_of_ne hi] at hdone
    rcases h.pending r i hwaiting hdone with hqueued | ⟨j', hj'⟩
    · exact .inl hqueued
    · -- a message about another entry is in the hands of another worker
      have hj : j' ≠ j := by
        rintro rfl
        obtain rfl := Option.some.inj (hmessage.symm.trans hj')
        exact hi rfl
      refine .inr ⟨j', ?_⟩
      show (Function.update s.workers j .idle j').message = _
      rw [Function.update_of_ne hj, hj']

theorem step (h : Conserved s) (hinv : Inv dirs s) (hstep : Step dirs s l s') : Conserved s' := by
  cases hstep with
  | start path mode =>
    -- the new request owns nothing, and its number belonged to nobody
    have hphases := phaseOf_start s path mode
    have hnew : s.phaseOf s.started = none := by
      rw [State.phaseOf, hinv.fresh s.started le_rfl, Option.map_none]
    refine ⟨h.unlocked, fun i hused => ?_, fun r i hwaiting hdone => ?_⟩
    · obtain ⟨r, hown⟩ := h.owned i hused
      have hne : r ≠ s.started := by
        rintro rfl
        rcases hown with hclaimed | hwaiting
        · exact absurd (hnew.symm.trans hclaimed) (by simp)
        · exact absurd (hnew.symm.trans hwaiting) (by simp)
      exact ⟨r, (owns_of_phaseOf ((hphases r).trans (if_neg hne))).mpr hown⟩
    · have hne : r ≠ s.started := by
        rintro rfl
        rw [hphases, if_pos rfl] at hwaiting
        exact absurd hwaiting (by simp)
      rw [hphases, if_neg hne] at hwaiting
      exact h.pending r i hwaiting hdone
  | lock r hphase =>
    have hphases : ∀ r', { s.setPhase r (.scanning 0) with globalMutex := some r }.phaseOf r' =
        if r' = r then some (.scanning 0) else s.phaseOf r' := phaseOf_setPhase hphase (.scanning 0)
    exact h.of_searches (.inl hphase) (.inr ⟨0, by rw [hphases, if_pos rfl]⟩)
      (fun r' hr => by rw [hphases, if_neg hr]) rfl rfl rfl
  | pass r i hphase =>
    have hphases := phaseOf_setPhase hphase (.scanning (i + 1))
    exact h.of_searches (.inr ⟨_, hphase⟩) (.inr ⟨_, by rw [hphases, if_pos rfl]⟩)
      (fun r' hr => by rw [hphases, if_neg hr]) rfl rfl rfl
  | take r i path paths hphase hpath hfree => exact h.take hinv hphase hfree rfl
  | giveUp r request k hr hphase =>
    cases request.mode with
    | sync => exact ⟨h.unlocked, h.owned, h.pending⟩
    | async =>
      have hphases : ∀ r', { s.setPhase r .starting with globalMutex := none }.phaseOf r' =
          if r' = r then some .starting else s.phaseOf r' := phaseOf_setPhase hphase .starting
      exact h.of_searches (.inr ⟨k, hphase⟩) (.inl (by rw [State.giveUp, hphases, if_pos rfl]))
        (fun r' hr => by rw [State.giveUp, hphases, if_neg hr]) rfl rfl rfl
  | send r i hphase => exact h.send hphase
  | release r i hphase => exact h.release hinv hphase _
  | stay => exact h
  | enter j hidle => exact h.setWorker (by rw [hidle]; rfl)
  | receive j m rest hlistening hqueue => exact h.receive hlistening hqueue
  | openInput j m found hworker =>
    refine h.setWorker ?_
    rw [hworker]
    cases found <;> rfl
  | openOutput j m original hworker => exact h.setWorker (by rw [hworker]; rfl)
  | signal j m original compressed hworker => exact h.signal (by rw [hworker]; rfl)

end Conserved

/-- The waiter has returned. -/
def isReturned : Phase n → Bool
  | .returned _ => true
  | _ => false

/-- The request was started, and its waiter has not returned. -/
def Active (s : State n w) (r : ℕ) : Prop :=
  (s.phaseOf r).any (fun phase => !isReturned phase) = true

instance (s : State n w) (r : ℕ) : Decidable (Active s r) := inferInstanceAs (Decidable (_ = true))

theorem Active.of_phaseOf (h : s.phaseOf r = some phase) (hphase : isReturned phase = false) :
    Active s r := by
  rw [Active, h, Option.any_some, hphase]
  rfl

theorem active_of_owns (h : s.Owns r i) : Active s r := by
  rcases h with hclaimed | hwaiting
  · exact .of_phaseOf hclaimed rfl
  · exact .of_phaseOf hwaiting rfl

/-- The main thread of the client starts the requests, in one mode. With `SYNC` it starts the next
one when the last one has returned. The `client_t` of the workers is left alone. -/
def usage (dirs : Directories) (mode : Mode) (s : State n w) : Label n w → Prop
  | .start path mode' => WellNamed dirs path.bytes ∧ mode' = mode ∧
      (mode = .sync → ∀ r < s.started, ¬ Active s r)
  | .overwrite _ => False
  | _ => True

instance (dirs : Directories) (mode : Mode) (s : State n w) (l : Label n w) :
    Decidable (usage dirs mode s l) :=
  match l with
  | .start _ _ => inferInstanceAs (Decidable (_ ∧ _ ∧ _))
  | .overwrite _ => instDecidableFalse
  | .lock _ | .scan _ | .send _ | .poll _ => instDecidableTrue
  | .enter _ | .receive _ | .openInput _ _ | .openOutput _ | .signal _ => instDecidableTrue

theorem wellNamed_of_usage (h : usage dirs mode s l) : wellNamed dirs s l := by
  cases l with
  | start path mode' => exact h.1
  | overwrite => exact h
  | lock | scan | send | poll | enter | receive | openInput | openOutput | signal => exact trivial

/-- The client has not ended, the global mutex is held by the request that searches, and a `SYNC`
request is the only one, so that it takes the first entry. -/
structure Attended (mode : Mode) (s : State n w) : Prop where
  running : s.exited = false
  modes : ∀ r request, s.requests r = some request → request.mode = mode
  searching : ∀ r k, s.phaseOf r = some (.scanning k) → s.globalMutex = some r ∧ k ≤ n
  searcher : ∀ r, s.globalMutex = some r → ∃ k, s.phaseOf r = some (.scanning k)
  alone : mode = .sync → ∀ r r', Active s r → Active s r' → r = r'
  first : mode = .sync → ∀ r k, s.phaseOf r = some (.scanning k) → k = 0

namespace Attended

theorem initial (mode : Mode) : Attended mode (State.initial : State n w) where
  running := rfl
  modes _ _ h := absurd h (by simp [State.initial])
  searching _ _ h := absurd h (by simp [State.initial, State.phaseOf])
  searcher _ h := absurd h (by simp [State.initial])
  alone _ _ _ h := absurd h (by simp [Active, State.initial, State.phaseOf])
  first _ _ _ h := absurd h (by simp [State.initial, State.phaseOf])

theorem start (h : Attended mode s) (hinv : Inv dirs s) (path : Path)
    (halone : mode = .sync → ∀ r < s.started, ¬ Active s r) :
    Attended mode { s with
      requests := Function.update s.requests s.started (some ⟨path, mode, .starting⟩)
      started := s.started + 1 } := by
  have hphases := phaseOf_start s path mode
  have hfresh : ∀ r phase, s.phaseOf r = some phase → r < s.started := by
    intro r phase hphase
    by_contra hge
    rw [State.phaseOf, hinv.fresh r (Nat.le_of_not_lt hge)] at hphase
    exact absurd hphase (by simp)
  -- whoever searches has been started before
  have hsearch : ∀ r k, { s with
      requests := Function.update s.requests s.started (some ⟨path, mode, .starting⟩)
      started := s.started + 1 }.phaseOf r = some (.scanning k) →
      s.phaseOf r = some (.scanning k) := by
    intro r k hscanning
    by_cases hr : r = s.started
    · rw [hphases, if_pos hr] at hscanning
      exact absurd hscanning (by simp)
    · rwa [hphases, if_neg hr] at hscanning
  refine ⟨h.running, fun r request hrequest => ?_, fun r k hscanning => ?_, fun r hmutex => ?_,
    fun hsync r r' hr hr' => ?_, fun hsync r k hscanning => ?_⟩
  · -- the new request has the mode of the others
    replace hrequest : Function.update s.requests s.started _ r = some request := hrequest
    by_cases hr : r = s.started
    · rw [hr, Function.update_self] at hrequest
      exact Option.some.inj hrequest ▸ rfl
    · rw [Function.update_of_ne hr] at hrequest
      exact h.modes r request hrequest
  · exact h.searching r k (hsearch r k hscanning)
  · -- and the holder of the mutex goes on searching
    obtain ⟨k, hscanning⟩ := h.searcher r hmutex
    have hne : r ≠ s.started := Nat.ne_of_lt (hfresh r _ hscanning)
    exact ⟨k, by rw [hphases, if_neg hne, hscanning]⟩
  · -- all earlier requests have returned
    have hlast : ∀ r, Active { s with
        requests := Function.update s.requests s.started (some ⟨path, mode, .starting⟩)
        started := s.started + 1 } r → r = s.started := by
      intro r hactive
      by_contra hr
      rw [Active, hphases, if_neg hr] at hactive
      obtain ⟨phase, hphase, -⟩ := (Option.any_eq_true _ _).mp hactive
      exact halone hsync r (hfresh r phase hphase) hactive
    rw [hlast r hr, hlast r' hr']
  · exact h.first hsync r k (hsearch r k hscanning)

/-- One request goes on. -/
theorem of_phase (h : Attended mode s) (hphase : s.phaseOf r = some phase)
    (hactive : isReturned phase = false)
    (hrequests : s'.requests = (s.setPhase r phase').requests) (hexited : s'.exited = s.exited)
    (hsearching : ∀ r' k, s'.phaseOf r' = some (.scanning k) → s'.globalMutex = some r' ∧ k ≤ n)
    (hsearcher : ∀ r', s'.globalMutex = some r' → ∃ k, s'.phaseOf r' = some (.scanning k))
    (hfirst : mode = .sync → ∀ k, phase' = .scanning k → k = 0) : Attended mode s' := by
  have hphases := phaseOf_of_requests hrequests hphase
  -- whoever is active was active before
  have hbefore : ∀ r', Active s' r' → Active s r' := by
    intro r' hr'
    by_cases hr : r' = r
    · exact hr ▸ Active.of_phaseOf hphase hactive
    · rwa [Active, hphases, if_neg hr] at hr'
  refine ⟨hexited.trans h.running, fun r' request hrequest => ?_, hsearching, hsearcher,
    fun hsync r₁ r₂ h₁ h₂ => h.alone hsync r₁ r₂ (hbefore r₁ h₁) (hbefore r₂ h₂),
    fun hsync r' k hscanning => ?_⟩
  · rw [hrequests] at hrequest
    replace hrequest : Function.update s.requests r _ r' = some request := hrequest
    by_cases hr : r' = r
    · rw [hr, Function.update_self] at hrequest
      obtain ⟨request', hrequest', rfl⟩ := Option.map_eq_some_iff.mp hrequest
      exact h.modes r request' hrequest'
    · rw [Function.update_of_ne hr] at hrequest
      exact h.modes r' request hrequest
  · by_cases hr : r' = r
    · rw [hphases, if_pos hr] at hscanning
      exact hfirst hsync k (Option.some.inj hscanning)
    · rw [hphases, if_neg hr] at hscanning
      exact h.first hsync r' k hscanning

/-- A request that searches stops to search, and gives the global mutex back. -/
theorem of_stop (h : Attended mode s) {k : ℕ} (hphase : s.phaseOf r = some (.scanning k))
    (hrequests : s'.requests = (s.setPhase r phase').requests) (hexited : s'.exited = s.exited)
    (hmutex : s'.globalMutex = none) (hstops : ∀ k', phase' ≠ .scanning k') :
    Attended mode s' := by
  have hphases := phaseOf_of_requests hrequests hphase
  refine h.of_phase hphase rfl hrequests hexited (fun r' k' hscanning => ?_)
    (fun r' hmutex' => absurd (hmutex.symm.trans hmutex') (by simp))
    (fun _ k' hk' => absurd hk' (hstops k'))
  -- nobody else holds the mutex
  by_cases hr : r' = r
  · rw [hphases, if_pos hr] at hscanning
    exact absurd (Option.some.inj hscanning) (hstops k')
  · rw [hphases, if_neg hr] at hscanning
    have heq := (h.searching r' k' hscanning).1.symm.trans (h.searching r k hphase).1
    exact absurd (Option.some.inj heq) hr

/-- A request that owns an entry goes on. -/
theorem of_owner (h : Attended mode s) (hown : s.Owns r i)
    (hrequests : s'.requests = (s.setPhase r phase').requests) (hexited : s'.exited = s.exited)
    (hmutex : s'.globalMutex = s.globalMutex) (hstops : ∀ k', phase' ≠ .scanning k') :
    Attended mode s' := by
  -- a request that owns an entry has given the global mutex back
  obtain ⟨phase, hphase, hactive, hnot⟩ : ∃ phase, s.phaseOf r = some phase ∧
      isReturned phase = false ∧ ∀ k, phase ≠ .scanning k := by
    rcases hown with hclaimed | hwaiting
    · exact ⟨_, hclaimed, rfl, by simp⟩
    · exact ⟨_, hwaiting, rfl, by simp⟩
  have hphases := phaseOf_of_requests hrequests hphase
  refine h.of_phase hphase hactive hrequests hexited (fun r' k hscanning => ?_)
    (fun r' hmutex' => ?_) (fun _ k hk => absurd hk (hstops k))
  · by_cases hr : r' = r
    · rw [hphases, if_pos hr] at hscanning
      exact absurd (Option.some.inj hscanning) (hstops k)
    · rw [hphases, if_neg hr] at hscanning
      rw [hmutex]
      exact h.searching r' k hscanning
  · obtain ⟨k, hscanning⟩ := h.searcher r' (hmutex.symm.trans hmutex')
    have hr : r' ≠ r := by
      rintro rfl
      exact hnot k (Option.some.inj (hphase.symm.trans hscanning))
    exact ⟨k, by rw [hphases, if_neg hr, hscanning]⟩

/-- The requests are as before. -/
theorem of_requests (h : Attended mode s) (hrequests : s'.requests = s.requests)
    (hexited : s'.exited = s.exited) (hmutex : s'.globalMutex = s.globalMutex) :
    Attended mode s' := by
  have hphases : ∀ r, s'.phaseOf r = s.phaseOf r := fun r => by
    rw [State.phaseOf, hrequests, State.phaseOf]
  refine ⟨hexited.trans h.running, hrequests ▸ h.modes, fun r k hscanning => ?_,
    fun r hmutex' => ?_, fun hsync r r' hr hr' => ?_, fun hsync r k hscanning => ?_⟩
  · rw [hmutex]
    exact h.searching r k (hphases r ▸ hscanning)
  · rw [hphases]
    exact h.searcher r (hmutex.symm.trans hmutex')
  · rw [Active, hphases] at hr hr'
    exact h.alone hsync r r' hr hr'
  · exact h.first hsync r k (hphases r ▸ hscanning)

theorem lock (h : Attended mode s) (hphase : s.phaseOf r = some .starting)
    (hmutex : s.globalMutex = none) :
    Attended mode { s.setPhase r (.scanning 0) with globalMutex := some r } := by
  have hphases : ∀ r', { s.setPhase r (.scanning 0) with globalMutex := some r }.phaseOf r' =
      if r' = r then some (.scanning 0) else s.phaseOf r' := phaseOf_setPhase hphase (.scanning 0)
  refine h.of_phase hphase rfl rfl rfl (fun r' k hscanning => ?_) (fun r' hmutex' => ?_)
    (fun _ k hk => (Phase.scanning.inj hk).symm)
  · by_cases hr : r' = r
    · rw [hphases, if_pos hr] at hscanning
      obtain rfl := Phase.scanning.inj (Option.some.inj hscanning)
      exact ⟨congrArg some hr.symm, Nat.zero_le n⟩
    · rw [hphases, if_neg hr] at hscanning
      exact absurd (hmutex.symm.trans (h.searching r' k hscanning).1) (by simp)
  · obtain rfl := Option.some.inj hmutex'
    exact ⟨0, by rw [hphases, if_pos rfl]⟩

/-- An entry is in use, and so another request owns it. -/
theorem pass (h : Attended mode s) (hconserved : Conserved s)
    (hphase : s.phaseOf r = some (.scanning i)) (hused : (s.entries i).isUsed = true) :
    Attended mode (s.setPhase r (.scanning (i + 1))) := by
  have hphases := phaseOf_setPhase hphase (.scanning (i + 1))
  refine h.of_phase hphase rfl rfl rfl (fun r' k hscanning => ?_) (fun r' hmutex' => ?_)
    (fun hsync => ?_)
  · by_cases hr : r' = r
    · rw [hphases, if_pos hr] at hscanning
      obtain rfl := Phase.scanning.inj (Option.some.inj hscanning)
      exact ⟨hr ▸ (h.searching r i hphase).1, i.isLt⟩
    · rw [hphases, if_neg hr] at hscanning
      exact h.searching r' k hscanning
  · obtain rfl := Option.some.inj ((h.searching r i hphase).1.symm.trans hmutex')
    exact ⟨_, by rw [hphases, if_pos rfl]⟩
  · -- with `SYNC` there is no other request that could own the entry
    obtain ⟨r', hown⟩ := hconserved.owned i hused
    obtain rfl := h.alone hsync r r' (.of_phaseOf hphase rfl) (active_of_owns hown)
    exact absurd hown (Searches.not_owns (.inr ⟨_, hphase⟩) i)

theorem step (h : Attended mode s) (hn : 0 < n) (hinv : Inv dirs s) (hconserved : Conserved s)
    (hl : usage dirs mode s l) (hstep : Step dirs s l s') : Attended mode s' := by
  cases hstep with
  | start path mode' =>
    obtain ⟨-, rfl, halone⟩ := hl
    exact h.start hinv path halone
  | lock r hphase hmutex => exact h.lock hphase hmutex
  | pass r i hphase hused => exact h.pass hconserved hphase hused
  | take r i path paths hphase => exact h.of_stop hphase rfl rfl rfl (by simp)
  | giveUp r request k hr hphase hend =>
    cases hmode : request.mode with
    | sync =>
      -- it would have taken the first entry
      have hzero := h.first ((h.modes r request hr).symm.trans hmode) r k hphase
      omega
    | async => exact h.of_stop hphase rfl rfl rfl (by simp)
  | send r i hphase => exact h.of_owner (.inl hphase) rfl rfl rfl (by simp)
  | release r i hphase => exact h.of_owner (.inr hphase) rfl rfl rfl (by simp)
  | stay => exact h
  | enter | receive | openInput | openOutput | signal => exact h.of_requests rfl rfl rfl

end Attended

/-- What holds in every state of such a run. -/
structure Good (dirs : Directories) (mode : Mode) (s : State n w) : Prop where
  inv : Inv dirs s
  intact : Intact s
  conserved : Conserved s
  attended : Attended mode s

theorem Good.step (h : Good dirs mode s) (hn : 0 < n) (hl : usage dirs mode s l)
    (hstep : (slotSystem dirs n w).step s l = some s') : Good dirs mode s' := by
  have hstep := step_of_eq h.intact h.inv.named (wellNamed_of_usage hl) hstep
  exact
    { inv := h.inv.step hstep
      intact := h.intact.step hstep
      conserved := h.conserved.step h.inv hstep
      attended := h.attended.step hn h.inv h.conserved hl hstep }

theorem Good.of_reachable (hn : 0 < n)
    (hr : (slotSystem dirs n w).Reachable (usage dirs mode) s) : Good dirs mode s := by
  have hinit : Good dirs mode (slotSystem dirs n w).init :=
    ⟨Inv.initial, Intact.initial, Conserved.initial, Attended.initial mode⟩
  exact hr.invariant hinit fun _ _ _ _ h hl hstep => h.step hn hl hstep

/-! ### Messages under way can be handled -/

/-- No new request is started, and the `client_t` is left alone. -/
def noStart (_ : State n w) : Label n w → Prop
  | .start _ _ => False
  | .overwrite _ => False
  | _ => True

instance (s : State n w) (l : Label n w) : Decidable (noStart s l) :=
  match l with
  | .start _ _ | .overwrite _ => instDecidableFalse
  | .lock _ | .scan _ | .send _ | .poll _ => instDecidableTrue
  | .enter _ | .receive _ | .openInput _ _ | .openOutput _ | .signal _ => instDecidableTrue

theorem usage_of_noStart (h : noStart s l) : usage dirs mode s l := by
  cases l with
  | start | overwrite => exact absurd h id
  | lock | scan | send | poll | enter | receive | openInput | openOutput | signal => exact trivial

theorem Good.go (h : Good dirs mode s) (hn : 0 < n)
    (hstep : (slotSystem dirs n w).step s l = some s') (hl : noStart s l) :
    (slotSystem dirs n w).Leads noStart s s' ∧ Good dirs mode s' :=
  ⟨.single hl hstep, h.step hn (usage_of_noStart hl) hstep⟩

/-- No message is under way. -/
structure Quiet (s : State n w) : Prop where
  queue : s.queue = []
  workers : ∀ j, s.workers j = .listening

theorem Quiet.not_inFlight (h : Quiet s) (m : Message n) : ¬ s.InFlight m := by
  rintro (hm | ⟨j, hj⟩)
  · rw [h.queue] at hm
    exact absurd hm List.not_mem_nil
  · rw [h.workers j] at hj
    exact absurd hj (by simp [Worker.message])

/-- The steps that the worker has before it waits for a message. -/
def stepsLeft : Worker n → ℕ
  | .listening | .exited => 0
  | .received _ => 4
  | .reading _ _ _ => 3
  | .finished _ _ _ _ => 2
  | .idle => 1

/-- The steps that the workers have before no message is under way. -/
def workLeft (s : State n w) : ℕ := 5 * s.queue.length + ∑ j, stepsLeft (s.workers j)

theorem sum_stepsLeft_update (workers : Fin w → Worker n) (j : Fin w) (worker : Worker n) :
    (∑ j', stepsLeft (Function.update workers j worker j')) + stepsLeft (workers j) =
      (∑ j', stepsLeft (workers j')) + stepsLeft worker := by
  have hrest : ∑ j' ∈ Finset.univ.erase j, stepsLeft (Function.update workers j worker j') =
      ∑ j' ∈ Finset.univ.erase j, stepsLeft (workers j') :=
    Finset.sum_congr rfl fun j' hj' => by rw [Function.update_of_ne (Finset.ne_of_mem_erase hj')]
  have hnew := Finset.add_sum_erase Finset.univ
    (fun j' => stepsLeft (Function.update workers j worker j')) (Finset.mem_univ j)
  have hold := Finset.add_sum_erase Finset.univ (fun j' => stepsLeft (workers j'))
    (Finset.mem_univ j)
  rw [Function.update_self, hrest] at hnew
  omega

/-- A worker that goes on has less to do. -/
theorem workLeft_setWorker {j : Fin w} {worker : Worker n} (hqueue : s'.queue = s.queue)
    (hworkers : s'.workers = Function.update s.workers j worker)
    (hless : stepsLeft worker < stepsLeft (s.workers j)) : workLeft s' < workLeft s := by
  have hsum := sum_stepsLeft_update s.workers j worker
  rw [workLeft, workLeft, hqueue, hworkers]
  omega

/-- The requests stand still. -/
structure SameRequests (s s' : State n w) : Prop where
  requests : s'.requests = s.requests
  started : s'.started = s.started

/-- As long as a message is under way, a worker can go on. -/
theorem Good.exists_work (h : Good dirs mode s) (hw : 0 < w) (hwork : workLeft s ≠ 0) :
    ∃ l s', (slotSystem dirs n w).step s l = some s' ∧ noStart s l ∧
      SameRequests s s' ∧ workLeft s' < workLeft s := by
  by_cases hbusy : ∃ j, s.workers j ≠ .listening
  · obtain ⟨j, hj⟩ := hbusy
    cases hworker : s.workers j with
    | listening => exact absurd hworker hj
    | exited => exact absurd hworker (h.intact.running j)
    | idle =>
      refine ⟨.enter j, s.setWorker j .listening, ?_, trivial, ⟨rfl, rfl⟩,
        workLeft_setWorker rfl rfl ?_⟩
      · show workerStep s j (.enter j) = _
        rw [workerStep, hworker, h.intact.client]
        rfl
      · rw [hworker]
        exact Nat.one_pos
    | received m =>
      refine ⟨.openInput j true,
        s.setWorker j (.reading m .shared (s.entries m.index).paths.originalFilePath), ?_, trivial,
        ⟨rfl, rfl⟩, workLeft_setWorker rfl rfl ?_⟩
      · show workerStep s j (.openInput j true) = _
        rw [workerStep, hworker, h.intact.client]
        rfl
      · rw [hworker]
        exact Nat.lt_succ_self 3
    | reading m memory original =>
      obtain rfl := h.intact.memory j memory (by rw [hworker]; rfl)
      refine ⟨.openOutput j, s.setWorker j (.finished m .shared original
        (some (s.entries m.index).paths.compressedFilePath)), ?_, trivial, ⟨rfl, rfl⟩,
        workLeft_setWorker rfl rfl ?_⟩
      · show workerStep s j (.openOutput j) = _
        rw [workerStep, hworker]
        rfl
      · rw [hworker]
        exact Nat.lt_succ_self 2
    | finished m memory original compressed =>
      obtain rfl := h.intact.memory j memory (by rw [hworker]; rfl)
      have hunlocked : ¬ (s.entries m.index).mutex = true := by
        rw [h.conserved.unlocked]
        decide
      refine ⟨.signal j,
        { (s.setEntry m.index { s.entries m.index with isDone := true }).setWorker j .idle with
          signalledBy := Function.update s.signalledBy m.index (some m.sender)
          handled := s.handled ++ [⟨m.sender, original, compressed⟩] }, ?_, trivial, ⟨rfl, rfl⟩,
        workLeft_setWorker rfl rfl ?_⟩
      · show workerStep s j (.signal j) = _
        rw [workerStep, hworker]
        exact if_neg hunlocked
      · rw [hworker]
        exact Nat.lt_succ_self 1
  · -- all workers wait for a message, and the first of them can receive one
    have hlistening : ∀ j, s.workers j = .listening := fun j => by
      by_contra hj
      exact hbusy ⟨j, hj⟩
    have hzero : ∑ j, stepsLeft (s.workers j) = 0 :=
      Finset.sum_eq_zero fun j _ => by rw [hlistening j]; rfl
    cases hqueue : s.queue with
    | nil =>
      rw [workLeft, hqueue, hzero] at hwork
      exact absurd rfl hwork
    | cons m rest =>
      refine ⟨.receive ⟨0, hw⟩, { s.setWorker ⟨0, hw⟩ (.received m) with queue := rest }, ?_,
        trivial, ⟨rfl, rfl⟩, ?_⟩
      · show workerStep s ⟨0, hw⟩ (.receive ⟨0, hw⟩) = _
        rw [workerStep, hlistening, hqueue]
      · have hsum := sum_stepsLeft_update s.workers ⟨0, hw⟩ (.received m)
        rw [hlistening] at hsum
        show 5 * rest.length + ∑ j, stepsLeft (Function.update s.workers ⟨0, hw⟩ _ j) < _
        rw [workLeft, hqueue, List.length_cons]
        simp only [stepsLeft] at hsum ⊢
        omega

/-- All messages under way can be handled, while the requests stand still. -/
theorem Good.quiesce (h : Good dirs mode s) (hn : 0 < n) (hw : 0 < w) :
    ∃ s', (slotSystem dirs n w).Leads noStart s s' ∧ Good dirs mode s' ∧
      SameRequests s s' ∧ Quiet s' := by
  have hless : ∀ s₁, Good dirs mode s₁ ∧ SameRequests s s₁ → workLeft s₁ ≠ 0 →
      ∃ s', (slotSystem dirs n w).Leads noStart s₁ s' ∧
        (Good dirs mode s' ∧ SameRequests s s') ∧ workLeft s' < workLeft s₁ := by
    intro s₁ ⟨h₁, hsame₁⟩ hwork
    obtain ⟨l, s', hstep, hl, hsame, hlt⟩ := h₁.exists_work hw hwork
    obtain ⟨hleads, h'⟩ := h₁.go hn hstep hl
    exact ⟨s', hleads, ⟨h', hsame.requests.trans hsame₁.requests,
      hsame.started.trans hsame₁.started⟩, hlt⟩
  obtain ⟨s', hleads, ⟨h', hsame⟩, hdone⟩ := System.Leads.drain workLeft hless ⟨h, rfl, rfl⟩
  refine ⟨s', hleads, h', hsame, ?_⟩
  -- no work is left only if the queue is empty and every worker waits for a message
  obtain ⟨hqueue, hsum⟩ := Nat.add_eq_zero_iff.mp hdone
  refine ⟨List.eq_nil_of_length_eq_zero (by omega), fun j => ?_⟩
  have hzero := Finset.sum_eq_zero_iff.mp hsum j (Finset.mem_univ j)
  cases hworker : s'.workers j with
  | listening => rfl
  | exited => exact absurd hworker (h'.intact.running j)
  | idle | received | reading | finished =>
    rw [hworker] at hzero
    exact absurd hzero (by simp [stepsLeft])

/-! ### One request at a time -/

/-- Of the requests only `r` has gone on. -/
structure Advances (r : ℕ) (phase : Phase n) (s s' : State n w) : Prop where
  phases : ∀ r', s'.phaseOf r' = if r' = r then some phase else s.phaseOf r'
  started : s'.started = s.started

theorem SameRequests.phaseOf (h : SameRequests s s') (r : ℕ) : s'.phaseOf r = s.phaseOf r := by
  rw [State.phaseOf, h.requests, State.phaseOf]

theorem Advances.self (h : Advances r phase s s') : s'.phaseOf r = some phase := by
  rw [h.phases, if_pos rfl]

/-- The request goes on twice. -/
theorem Advances.trans {s'' : State n w} (h : Advances r phase s s')
    (h' : Advances r phase' s' s'') : Advances r phase' s s'' where
  phases r' := by
    rw [h'.phases]
    split
    · rfl
    · next hr => rw [h.phases, if_neg hr]
  started := h'.started.trans h.started

/-- A step of a request, from what `clientStep` says. -/
theorem step_eq {request : Request n} (h : Good dirs mode s) (hr : s.requests r = some request)
    (hl : l = .lock r ∨ l = .scan r ∨ l = .send r ∨ l = .poll r) :
    (slotSystem dirs n w).step s l = clientStep dirs s r request l := by
  have hrunning : ¬ s.exited = true := by
    rw [h.attended.running]
    decide
  rcases hl with rfl | rfl | rfl | rfl <;>
  · show (if s.exited then none else _) = _
    rw [if_neg hrunning, hr]
    rfl

theorem exists_request (hphase : s.phaseOf r = some phase) :
    ∃ request, s.requests r = some request ∧ request.phase = phase :=
  Option.map_eq_some_iff.mp hphase

/-- A waiter returns when no message is under way: its entry is done. -/
theorem Good.poll (h : Good dirs mode s) (hn : 0 < n) (hquiet : Quiet s)
    (hphase : s.phaseOf r = some (.waiting i)) :
    ∃ s', (slotSystem dirs n w).Leads noStart s s' ∧ Good dirs mode s' ∧
      Advances r (.returned (s.signalledBy i)) s s' := by
  obtain ⟨request, hr, hwaiting⟩ := exists_request hphase
  have hdone : (s.entries i).isDone = true := by
    by_contra hnot
    exact hquiet.not_inFlight _ (h.conserved.pending r i hphase (by simpa using hnot))
  have hunlocked : ¬ (s.entries i).mutex = true := by
    rw [h.conserved.unlocked]
    decide
  have hstep : (slotSystem dirs n w).step s (.poll r) = some ((s.setEntry i
      { s.entries i with isUsed := false, isDone := false }).setPhase r
        (.returned (s.signalledBy i))) := by
    rw [step_eq h hr (.inr (.inr (.inr rfl)))]
    simp only [clientStep, hwaiting, pollEntry, if_neg hunlocked, if_pos hdone]
  obtain ⟨hleads, h'⟩ := h.go hn hstep trivial
  exact ⟨_, hleads, h', ⟨phaseOf_setPhase hphase (.returned (s.signalledBy i)), rfl⟩⟩

/-- A request that has taken an entry sends its message, which is handled, and then it returns. -/
theorem Good.send (h : Good dirs mode s) (hn : 0 < n) (hw : 0 < w) (hquiet : Quiet s)
    (hphase : s.phaseOf r = some (.claimed i)) :
    ∃ s' by_, (slotSystem dirs n w).Leads noStart s s' ∧ Good dirs mode s' ∧
      Advances r (.returned by_) s s' := by
  obtain ⟨request, hr, hclaimed⟩ := exists_request hphase
  -- the queue is empty, so `mq_send` does not block
  have hroom : s.queue.length < maxmsg := by
    rw [hquiet.queue]
    exact Nat.zero_lt_succ 9
  have hstep : (slotSystem dirs n w).step s (.send r) =
      some { s.setPhase r (.waiting i) with queue := s.queue ++ [⟨i, r⟩] } := by
    rw [step_eq h hr (.inr (.inr (.inl rfl)))]
    simp only [clientStep, hclaimed, if_pos hroom]
  have hsent : Advances r (.waiting i) s
      { s.setPhase r (.waiting i) with queue := s.queue ++ [⟨i, r⟩] } :=
    ⟨phaseOf_setPhase hphase (.waiting i), rfl⟩
  obtain ⟨hleads₀, h₀⟩ := h.go hn hstep trivial
  -- the workers take it from here
  obtain ⟨s₁, hleads₁, h₁, hsame, hquiet₁⟩ := h₀.quiesce hn hw
  have hwaiting : s₁.phaseOf r = some (.waiting i) := (hsame.phaseOf r).trans hsent.self
  obtain ⟨s', hleads, h', hreturned⟩ := h₁.poll hn hquiet₁ hwaiting
  refine ⟨s', s₁.signalledBy i, hleads₀.trans (hleads₁.trans hleads), h', ?_⟩
  exact hsent.trans ⟨fun r' => by rw [hreturned.phases, hsame.phaseOf],
    hreturned.started.trans hsame.started⟩

/-- A request in front of an unused entry takes it. -/
theorem Good.scan (h : Good dirs mode s) (hn : 0 < n) (hphase : s.phaseOf r = some (.scanning i))
    (hfree : (s.entries i).isUsed = false) :
    ∃ s', (slotSystem dirs n w).Leads noStart s s' ∧ Good dirs mode s' ∧
      Advances r (.claimed i) s s' ∧ s'.queue = s.queue ∧ s'.workers = s.workers := by
  obtain ⟨request, hr, hscanning⟩ := exists_request hphase
  have hpath : WellNamed dirs request.path.bytes :=
    h.inv.named r request.path (by rw [State.pathOf, hr]; rfl)
  obtain ⟨paths, hset, -⟩ := findAndSetEntry_of_wellNamed hpath hfree
  have hunlocked : ¬ (s.entries i).mutex = true := by
    rw [h.conserved.unlocked]
    decide
  have hstep : (slotSystem dirs n w).step s (.scan r) =
      some { (s.setEntry i { s.entries i with isUsed := true, isDone := false, paths := paths
        }).setPhase r (.claimed i) with globalMutex := none } := by
    rw [step_eq h hr (.inr (.inl rfl))]
    simp only [clientStep, hscanning, scanEntry, dif_pos i.isLt, if_neg hunlocked, hset]
  obtain ⟨hleads, h'⟩ := h.go hn hstep trivial
  exact ⟨_, hleads, h', ⟨phaseOf_setPhase (s := s.setEntry i _) hphase (.claimed i), rfl⟩, rfl, rfl⟩

/-- A request takes the global mutex. -/
theorem Good.lock (h : Good dirs mode s) (hn : 0 < n) (hphase : s.phaseOf r = some .starting)
    (hmutex : s.globalMutex = none) :
    ∃ s', (slotSystem dirs n w).Leads noStart s s' ∧ Good dirs mode s' ∧
      Advances r (.scanning 0) s s' ∧ s'.entries = s.entries ∧ s'.queue = s.queue ∧
      s'.workers = s.workers := by
  obtain ⟨request, hr, hstarting⟩ := exists_request hphase
  have hstep : (slotSystem dirs n w).step s (.lock r) =
      some { s.setPhase r (.scanning 0) with globalMutex := some r } := by
    rw [step_eq h hr (.inl rfl)]
    simp only [clientStep, hstarting, hmutex]
  obtain ⟨hleads, h'⟩ := h.go hn hstep trivial
  exact ⟨_, hleads, h', ⟨phaseOf_setPhase hphase (.scanning 0), rfl⟩, rfl, rfl, rfl⟩

/-- An `ASYNC` request that has passed all entries starts over. -/
theorem Good.giveUp (h : Good dirs mode s) (hn : 0 < n) {k : ℕ}
    (hphase : s.phaseOf r = some (.scanning k)) (hend : n ≤ k) :
    ∃ s', (slotSystem dirs n w).Leads noStart s s' ∧ Good dirs mode s' ∧
      Advances r .starting s s' ∧ s'.globalMutex = none ∧ s'.entries = s.entries ∧
      s'.queue = s.queue ∧ s'.workers = s.workers := by
  obtain ⟨request, hr, hscanning⟩ := exists_request hphase
  have hmode : request.mode = .async := by
    cases hmode : request.mode with
    | async => rfl
    | sync =>
      have hzero := h.attended.first ((h.attended.modes r request hr).symm.trans hmode) r k hphase
      omega
  have hstep : (slotSystem dirs n w).step s (.scan r) =
      some { s.setPhase r .starting with globalMutex := none } := by
    rw [step_eq h hr (.inr (.inl rfl))]
    simp only [clientStep, hscanning, scanEntry, dif_neg (Nat.not_lt.mpr hend), State.giveUp, hmode]
  obtain ⟨hleads, h'⟩ := h.go hn hstep trivial
  exact ⟨_, hleads, h', ⟨phaseOf_setPhase hphase .starting, rfl⟩, rfl, rfl, rfl, rfl⟩

/-- When no entry is in use, a request in front of its search finds the first one. -/
theorem Good.search (h : Good dirs mode s) (hn : 0 < n) (hfree : ∀ i, (s.entries i).isUsed = false)
    (hphase : s.phaseOf r = some .starting) (hmutex : s.globalMutex = none) :
    ∃ s', (slotSystem dirs n w).Leads noStart s s' ∧ Good dirs mode s' ∧
      Advances r (.claimed ⟨0, hn⟩) s s' ∧ s'.queue = s.queue ∧ s'.workers = s.workers := by
  obtain ⟨s₁, hleads₁, h₁, hlocked, hentries, hqueue₁, hworkers₁⟩ := h.lock hn hphase hmutex
  obtain ⟨s', hleads, h', htaken, hqueue, hworkers⟩ :=
    h₁.scan (i := ⟨0, hn⟩) hn hlocked.self (by rw [hentries, hfree])
  exact ⟨s', hleads₁.trans hleads, h', hlocked.trans htaken, hqueue.trans hqueue₁,
    hworkers.trans hworkers₁⟩

/-- When no entry is in use, one of the requests that search can take one: the one that holds the
global mutex, or any if nobody does. -/
theorem Good.claim (h : Good dirs mode s) (hn : 0 < n) (hfree : ∀ i, (s.entries i).isUsed = false)
    (hsearches : Searches s r) :
    ∃ s' q i, (slotSystem dirs n w).Leads noStart s s' ∧ Good dirs mode s' ∧ Searches s q ∧
      Advances q (.claimed i) s s' ∧ s'.queue = s.queue ∧ s'.workers = s.workers := by
  cases hmutex : s.globalMutex with
  | none =>
    rcases hsearches with hstarting | ⟨k, hscanning⟩
    · obtain ⟨s', hleads, h', hrest⟩ := h.search hn hfree hstarting hmutex
      exact ⟨s', r, _, hleads, h', .inl hstarting, hrest⟩
    · exact absurd (hmutex.symm.trans (h.attended.searching r k hscanning).1) (by simp)
  | some q =>
    obtain ⟨k, hscanning⟩ := h.attended.searcher q hmutex
    by_cases hk : k < n
    · obtain ⟨s', hleads, h', hrest⟩ := h.scan (i := ⟨k, hk⟩) hn hscanning (hfree _)
      exact ⟨s', q, ⟨k, hk⟩, hleads, h', .inr ⟨k, hscanning⟩, hrest⟩
    · -- it has seen all entries in use, and searches again
      obtain ⟨s₁, hleads₁, h₁, hstarts, hmutex₁, hentries, hqueue₁, hworkers₁⟩ :=
        h.giveUp hn hscanning (Nat.le_of_not_lt hk)
      obtain ⟨s', hleads, h', htaken, hqueue, hworkers⟩ :=
        h₁.search hn (fun i => by rw [hentries, hfree]) hstarts.self hmutex₁
      exact ⟨s', q, _, hleads₁.trans hleads, h', .inr ⟨k, hscanning⟩, hstarts.trans htaken,
        hqueue.trans hqueue₁, hworkers.trans hworkers₁⟩

theorem Active.cases (h : Active s r) : Searches s r ∨ ∃ i, s.Owns r i := by
  obtain ⟨phase, hphase, hactive⟩ := (Option.any_eq_true _ _).mp h
  cases phase with
  | starting => exact .inl (.inl hphase)
  | scanning k => exact .inl (.inr ⟨k, hphase⟩)
  | claimed i => exact .inr ⟨i, .inl hphase⟩
  | waiting i => exact .inr ⟨i, .inr hphase⟩
  | returned by_ => exact absurd hactive (by simp [isReturned])

theorem Searches.active (h : Searches s r) : Active s r := by
  rcases h with hstarting | ⟨k, hscanning⟩
  · exact .of_phaseOf hstarting rfl
  · exact .of_phaseOf hscanning rfl

/-- When no message is under way, one of the requests that have not returned can return. -/
theorem Good.finish_of_quiet (h : Good dirs mode s) (hn : 0 < n) (hw : 0 < w) (hquiet : Quiet s)
    (hactive : Active s r) :
    ∃ s' q by_, (slotSystem dirs n w).Leads noStart s s' ∧ Good dirs mode s' ∧ Active s q ∧
      Advances q (.returned by_) s s' := by
  by_cases howner : ∃ q i, s.Owns q i
  · obtain ⟨q, i, hown⟩ := howner
    rcases hown with hclaimed | hwaiting
    · obtain ⟨s', by_, hleads, h', hreturned⟩ := h.send hn hw hquiet hclaimed
      exact ⟨s', q, by_, hleads, h', .of_phaseOf hclaimed rfl, hreturned⟩
    · obtain ⟨s', hleads, h', hreturned⟩ := h.poll hn hquiet hwaiting
      exact ⟨s', q, _, hleads, h', .of_phaseOf hwaiting rfl, hreturned⟩
  · -- an entry in use would have an owner
    have hfree : ∀ i, (s.entries i).isUsed = false := fun i => by
      by_contra hused
      obtain ⟨q, hown⟩ := h.conserved.owned i (by simpa using hused)
      exact howner ⟨q, i, hown⟩
    have hsearches : Searches s r :=
      hactive.cases.resolve_right fun ⟨i, hown⟩ => howner ⟨r, i, hown⟩
    obtain ⟨s₁, q, i, hleads₁, h₁, hq, hclaimed, hqueue, hworkers⟩ := h.claim hn hfree hsearches
    have hquiet₁ : Quiet s₁ := ⟨hqueue.trans hquiet.queue, hworkers ▸ hquiet.workers⟩
    obtain ⟨s', by_, hleads, h', hreturned⟩ := h₁.send hn hw hquiet₁ hclaimed.self
    exact ⟨s', q, by_, hleads₁.trans hleads, h', hq.active, hclaimed.trans hreturned⟩

theorem Good.finish (h : Good dirs mode s) (hn : 0 < n) (hw : 0 < w) (hactive : Active s r) :
    ∃ s' q by_, (slotSystem dirs n w).Leads noStart s s' ∧ Good dirs mode s' ∧ Active s q ∧
      Advances q (.returned by_) s s' := by
  obtain ⟨s₁, hleads₁, h₁, hsame, hquiet⟩ := h.quiesce hn hw
  have hactive₁ : ∀ r, Active s₁ r ↔ Active s r := fun r => by rw [Active, hsame.phaseOf, Active]
  obtain ⟨s', q, by_, hleads, h', hq, hreturned⟩ :=
    h₁.finish_of_quiet hn hw hquiet ((hactive₁ r).mpr hactive)
  refine ⟨s', q, by_, hleads₁.trans hleads, h', (hactive₁ q).mp hq, ?_, ?_⟩
  · exact fun r' => by rw [hreturned.phases, hsame.phaseOf]
  · exact hreturned.started.trans hsame.started

/-! ### All requests -/

/-- The requests that have not returned. -/
def activeRequests (s : State n w) : Finset ℕ := (Finset.range s.started).filter (Active s)

theorem mem_activeRequests (hinv : Inv dirs s) : r ∈ activeRequests s ↔ Active s r := by
  rw [activeRequests, Finset.mem_filter, Finset.mem_range]
  refine ⟨And.right, fun hactive => ⟨?_, hactive⟩⟩
  by_contra hge
  rw [Active, State.phaseOf, hinv.fresh r (Nat.le_of_not_lt hge)] at hactive
  exact absurd hactive (by simp)

theorem Advances.activeRequests_ssubset {by_ : Option ℕ} (h : Good dirs mode s)
    (h' : Good dirs mode s') (hactive : Active s r) (hreturned : Advances r (.returned by_) s s') :
    activeRequests s' ⊂ activeRequests s := by
  have hnot : ¬ Active s' r := by
    rw [Active, hreturned.self]
    simp [isReturned]
  refine (Finset.ssubset_iff_of_subset fun r' hr' => ?_).mpr ⟨r, ?_, ?_⟩
  · rw [mem_activeRequests h'.inv] at hr'
    have hne : r' ≠ r := by
      rintro rfl
      exact hnot hr'
    rw [Active, hreturned.phases, if_neg hne] at hr'
    exact (mem_activeRequests h.inv).mpr hr'
  · exact (mem_activeRequests h.inv).mpr hactive
  · exact fun hr => hnot ((mem_activeRequests h'.inv).mp hr)

/-- No request gets lost. -/
def Remains (s s' : State n w) : Prop := ∀ r, (s.phaseOf r).isSome → (s'.phaseOf r).isSome

theorem Advances.remains (h : Advances r phase s s') : Remains s s' := by
  intro r' hr'
  rw [h.phases]
  split
  · rfl
  · exact hr'

/-- The requests can return one after the other. -/
theorem Good.drain (h : Good dirs mode s) (hn : 0 < n) (hw : 0 < w) :
    ∃ s', (slotSystem dirs n w).Leads noStart s s' ∧ Good dirs mode s' ∧ Remains s s' ∧
      ∀ r, ¬ Active s' r := by
  have hless : ∀ s₁, Good dirs mode s₁ ∧ Remains s s₁ → (activeRequests s₁).card ≠ 0 →
      ∃ s', (slotSystem dirs n w).Leads noStart s₁ s' ∧ (Good dirs mode s' ∧ Remains s s') ∧
        (activeRequests s').card < (activeRequests s₁).card := by
    intro s₁ ⟨h₁, hremains₁⟩ hsome
    obtain ⟨r, hr⟩ := Finset.card_ne_zero.mp hsome
    obtain ⟨s', q, by_, hleads, h', hq, hreturned⟩ :=
      h₁.finish hn hw ((mem_activeRequests h₁.inv).mp hr)
    exact ⟨s', hleads, ⟨h', fun r' hr' => hreturned.remains r' (hremains₁ r' hr')⟩,
      Finset.card_lt_card (hreturned.activeRequests_ssubset h₁ h' hq)⟩
  obtain ⟨s', hleads, ⟨h', hremains⟩, hnone⟩ :=
    System.Leads.drain (fun s => (activeRequests s).card) hless ⟨h, fun _ hr => hr⟩
  refine ⟨s', hleads, h', hremains, fun r hactive => ?_⟩
  have hr := (mem_activeRequests h'.inv).mpr hactive
  rw [Finset.card_eq_zero.mp hnone] at hr
  exact absurd hr (Finset.notMem_empty r)

end Progress
end TinyFile
end OSLab
