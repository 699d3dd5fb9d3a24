import Mathlib.Data.List.Nodup
import Mathlib.Logic.Function.Basic
import AdvancedOSLab.Framework.System
import AdvancedOSLab.TinyFile.Entry

/-!
# The slot protocol of TinyFile

A request of a TinyFile client takes an unused entry of the shared memory, sends the index of the
entry to the server, and waits until the entry is marked done; then it frees the entry. On the
server side any of the worker threads of the client may receive the index; it compresses the file
whose path the entry shows and marks the entry done. Entries are used again and again while
messages about other entries are queued and handled.

## The model

`slotSystem` interleaves the steps of any number of requests and workers on any number of entries.
A section that is protected by the mutex of an entry is one step:

* a request scans the entries one after the other (`find_and_set_shared_memory_entry_index`, under
  the global mutex of the client), and takes the first unused one, shows its paths there and marks
  it used (`findAndSetEntry`). If there is none, a `SYNC` request ends the client, and an `ASYNC`
  request starts over;
* it sends its message, and then polls the entry (`wait_response_from_server`);
* a worker waits for a message in `mq_receive`. It opens the input file under the path that the
  entry shows at that moment, then the output file, and then marks the entry done
  (`handle_message`). If the input cannot be opened, the entry is marked done all the same.

All that a worker knows of the client it reads through a pointer: whether to go on, the queue, and
the address of the shared memory. The pointer is to a local variable of `register_client_to_server`,
which has returned when the workers use it. So the `ClientT` that they see is part of the state, and
the label `overwrite` puts anything into its place: a worker may then stop, listen elsewhere, or
handle a message with whatever lies at another address. There is one client; a worker that listens
elsewhere is lost to it, and the workers of other clients do not take its messages.

Three parts of the state are not in the program: the `sender` of a message, for every entry the
sender of the message whose handling set `is_done` last (`signalledBy`), and the list of what
workers have `handled`, with the paths they used.

## The result

`Protocol` says that entries are owned by one request at a time, that there is at most one message
about an entry, that messages are handled with the paths of the request that sent them, and that a
waiter returns after its own request has been handled, once, and because of that. `slot_protocol`
proves it for all runs in which the paths contain `/input/`, the folder of the result exists, the
path of the result fits its field, and the `client_t` of the workers is not overwritten. The last
two conditions are needed: `long_path_is_mangled` and `overwritten_client_is_not_served`.
-/

namespace OSLab

namespace TinyFile

/-- `communicate_file_sync` or `communicate_file_async`. -/
inductive Mode where
  | sync
  | async
deriving DecidableEq, Repr

/-- Where a request is. -/
inductive Phase (n : ℕ) where
  /-- Before the search for an entry. -/
  | starting
  /-- In the search, in front of entry `i`. -/
  | scanning (i : ℕ)
  /-- An entry is taken, the message is not sent. -/
  | claimed (i : Fin n)
  /-- The message is sent, the entry is polled. -/
  | waiting (i : Fin n)
  /-- The waiter has returned; the sender whose handling released it. -/
  | returned (by_ : Option ℕ)
deriving DecidableEq, Repr

structure Request (n : ℕ) where
  path : Path
  mode : Mode
  phase : Phase n
deriving DecidableEq

/-- `client_message_info_t`, and the request that sent it. -/
structure Message (n : ℕ) where
  index : Fin n
  sender : ℕ
deriving DecidableEq, Repr

/-- A request that was handled: the path of the input, and that of the output if it came to it. -/
structure Handled where
  sender : ℕ
  original : Bytes
  compressed : Option Bytes
deriving DecidableEq, Repr

/-- The memory that a `shared_memory_address` leads to. -/
inductive Memory (n : ℕ) where
  /-- The shared memory of the client. -/
  | shared
  /-- Other memory, with what its bytes are when they are read as entries. -/
  | other (entries : Fin n → Entry)
  /-- No memory. The server ends when it looks there. -/
  | unmapped

/-- What the workers read of the `client_t` whose address they have. -/
structure ClientT (n : ℕ) where
  isWorkerThreadActive : Bool
  /-- `send_q` is the queue of the client. -/
  sendQ : Bool
  sharedMemoryAddress : Memory n

/-- The `client_t` that `register_client_to_server` has filled in. -/
def ClientT.registered {n : ℕ} : ClientT n where
  isWorkerThreadActive := true
  sendQ := true
  sharedMemoryAddress := .shared

/-- A worker thread of the server. -/
inductive Worker (n : ℕ) where
  /-- In front of the test of its loop. -/
  | idle
  /-- In `mq_receive`, on the queue of the client. -/
  | listening
  | received (m : Message n)
  /-- The input file is open. `handle_message` has found the entry in this memory. -/
  | reading (m : Message n) (memory : Memory n) (original : Bytes)
  /-- `compress_file` has returned. -/
  | finished (m : Message n) (memory : Memory n) (original : Bytes) (compressed : Option Bytes)
  /-- The loop has ended. -/
  | exited

/-- The message that the worker handles. -/
def Worker.message {n : ℕ} : Worker n → Option (Message n)
  | .idle | .listening | .exited => none
  | .received m => some m
  | .reading m _ _ => some m
  | .finished m _ _ _ => some m

/-- The paths that the worker has used so far. -/
def Worker.record {n : ℕ} : Worker n → Option Handled
  | .idle | .listening | .exited | .received _ => none
  | .reading m _ original => some ⟨m.sender, original, none⟩
  | .finished m _ original compressed => some ⟨m.sender, original, compressed⟩

/-- The memory in which the worker has found the entry of its message. -/
def Worker.memory {n : ℕ} : Worker n → Option (Memory n)
  | .idle | .listening | .exited | .received _ => none
  | .reading _ memory _ => some memory
  | .finished _ memory _ _ => some memory

structure State (n w : ℕ) where
  entries : Fin n → Entry
  requests : ℕ → Option (Request n)
  started : ℕ
  globalMutex : Option ℕ
  exited : Bool
  queue : List (Message n)
  client : ClientT n
  workers : Fin w → Worker n
  signalledBy : Fin n → Option ℕ
  handled : List Handled

/-- `mq_maxmsg` of the queue. -/
def maxmsg : ℕ := 10

namespace State

variable {n w : ℕ}

/-- The state after the client has registered. -/
def initial : State n w where
  entries _ := .fresh
  requests _ := none
  started := 0
  globalMutex := none
  exited := false
  queue := []
  client := .registered
  workers _ := .idle
  signalledBy _ := none
  handled := []

def setPhase (s : State n w) (r : ℕ) (phase : Phase n) : State n w :=
  { s with
    requests := Function.update s.requests r
      ((s.requests r).map fun request => { request with phase := phase }) }

def setEntry (s : State n w) (i : Fin n) (entry : Entry) : State n w :=
  { s with entries := Function.update s.entries i entry }

def setWorker (s : State n w) (j : Fin w) (worker : Worker n) : State n w :=
  { s with workers := Function.update s.workers j worker }

/-- The entry with the given index, in the memory at an address. -/
def entryAt (s : State n w) (i : Fin n) : Memory n → Option Entry
  | .shared => some (s.entries i)
  | .other entries => some (entries i)
  | .unmapped => none

/-- `find_and_set_shared_memory_entry_index` returned `-1`: a `SYNC` request exits the process, an
`ASYNC` request tries again. -/
def giveUp (s : State n w) (r : ℕ) (mode : Mode) : State n w :=
  match mode with
  | .sync => { s with globalMutex := none, exited := true }
  | .async => { s.setPhase r .starting with globalMutex := none }

end State

/-- The steps of requests and workers, and what happens to the `client_t` of the workers. -/
inductive Label (n w : ℕ) where
  | start (path : Path) (mode : Mode)
  | lock (r : ℕ)
  | scan (r : ℕ)
  | send (r : ℕ)
  | poll (r : ℕ)
  | enter (j : Fin w)
  | receive (j : Fin w)
  | openInput (j : Fin w) (found : Bool)
  | openOutput (j : Fin w)
  | signal (j : Fin w)
  | overwrite (client : ClientT n)

section Steps

variable {n w : ℕ}

/-- One turn of the search loop of request `r`, which is in front of entry `i`. -/
def scanEntry (dirs : Directories) (s : State n w) (r : ℕ) (request : Request n) (i : ℕ) :
    Option (State n w) :=
  if hi : i < n then
    -- a mutex that a failed search has left locked is never released
    if (s.entries ⟨i, hi⟩).mutex then none
    else
      match findAndSetEntry dirs request.path.bytes (s.entries ⟨i, hi⟩) with
      -- the copy reaches into the mutex
      | none => none
      | some (.busy, _) => some (s.setPhase r (.scanning (i + 1)))
      | some (.taken, entry) =>
        some { (s.setEntry ⟨i, hi⟩ entry).setPhase r (.claimed ⟨i, hi⟩) with globalMutex := none }
      | some (.failed, entry) => some ((s.setEntry ⟨i, hi⟩ entry).giveUp r request.mode)
  else some (s.giveUp r request.mode)

/-- A poll of `wait_response_from_server`. -/
def pollEntry (s : State n w) (r : ℕ) (i : Fin n) : Option (State n w) :=
  if (s.entries i).mutex then none
  else if (s.entries i).isDone then
    some ((s.setEntry i { s.entries i with isUsed := false, isDone := false }).setPhase r
      (.returned (s.signalledBy i)))
  -- sleep, and poll again
  else some s

/-- A step of the client, for a request in the given phase. -/
def clientStep (dirs : Directories) (s : State n w) (r : ℕ) (request : Request n) :
    Label n w → Option (State n w)
  | .lock _ =>
    match request.phase, s.globalMutex with
    | .starting, none => some { s.setPhase r (.scanning 0) with globalMutex := some r }
    | _, _ => none
  | .scan _ =>
    match request.phase with
    | .scanning i => scanEntry dirs s r request i
    | _ => none
  | .send _ =>
    match request.phase with
    | .claimed i =>
      -- `mq_send` blocks while the queue is full
      if s.queue.length < maxmsg then
        some { s.setPhase r (.waiting i) with queue := s.queue ++ [⟨i, r⟩] }
      else none
    | _ => none
  | .poll _ =>
    match request.phase with
    | .waiting i => pollEntry s r i
    | _ => none
  | _ => none

/-- A step of worker `j`. -/
def workerStep (s : State n w) (j : Fin w) : Label n w → Option (State n w)
  | .enter _ =>
    match s.workers j with
    | .idle =>
      if s.client.isWorkerThreadActive then
        -- `mq_receive` fails on anything that is no queue, and the loop goes on
        some (if s.client.sendQ then s.setWorker j .listening else s)
      else some (s.setWorker j .exited)
    | _ => none
  | .receive _ =>
    match s.workers j, s.queue with
    | .listening, m :: rest => some { s.setWorker j (.received m) with queue := rest }
    | _, _ => none
  | .openInput _ found =>
    match s.workers j with
    | .received m =>
      -- the address of the entry is taken from the `client_t` once, and the paths are read from the
      -- entry without its mutex
      (s.entryAt m.index s.client.sharedMemoryAddress).map fun entry =>
        s.setWorker j
          (if found then .reading m s.client.sharedMemoryAddress entry.paths.originalFilePath
          else .finished m s.client.sharedMemoryAddress entry.paths.originalFilePath none)
    | _ => none
  | .openOutput _ =>
    match s.workers j with
    | .reading m memory original =>
      (s.entryAt m.index memory).map fun entry =>
        s.setWorker j (.finished m memory original (some entry.paths.compressedFilePath))
    | _ => none
  | .signal _ =>
    match s.workers j with
    | .finished m memory original compressed =>
      (s.entryAt m.index memory).bind fun entry =>
        if entry.mutex then none
        else
          let s := { s.setWorker j .idle with
            handled := s.handled ++ [⟨m.sender, original, compressed⟩] }
          match memory with
          | .shared =>
            some { s.setEntry m.index { entry with isDone := true } with
              signalledBy := Function.update s.signalledBy m.index (some m.sender) }
          -- nobody looks for the mark elsewhere
          | _ => some s
    | _ => none
  | _ => none

end Steps

/-- The client and the workers of the server that serve it, with `n` entries and `w` workers. -/
def slotSystem (dirs : Directories) (n w : ℕ) : System (State n w) (Label n w) where
  init := .initial
  step s l :=
    match l with
    | .start path mode =>
      if s.exited then none
      else some { s with
        requests := Function.update s.requests s.started (some ⟨path, mode, .starting⟩)
        started := s.started + 1 }
    | .lock r | .scan r | .send r | .poll r =>
      -- the requests are threads of one process, and end with it
      if s.exited then none else (s.requests r).bind fun request => clientStep dirs s r request l
    | .enter j | .receive j | .openInput j _ | .openOutput j | .signal j => workerStep s j l
    | .overwrite client => some { s with client := client }

/-! ### What the steps do -/

section Protocol

variable {n w : ℕ} {dirs : Directories} {s s' : State n w} {r r' : ℕ} {i : Fin n} {j : Fin w}
  {m : Message n} {phase phase' : Phase n}

/-- The phase of a request that was started. -/
def State.phaseOf (s : State n w) (r : ℕ) : Option (Phase n) := (s.requests r).map Request.phase

/-- The path of a request that was started. -/
def State.pathOf (s : State n w) (r : ℕ) : Option Path := (s.requests r).map Request.path

/-- The request owns the entry: it has taken it, and its waiter has not returned. -/
def State.Owns (s : State n w) (r : ℕ) (i : Fin n) : Prop :=
  s.phaseOf r = some (.claimed i) ∨ s.phaseOf r = some (.waiting i)

/-- The message is queued, or a worker handles it. -/
def State.InFlight (s : State n w) (m : Message n) : Prop :=
  m ∈ s.queue ∨ ∃ j, (s.workers j).message = some m

/-- How often a message of the request was handled. -/
def State.timesHandled (s : State n w) (r : ℕ) : ℕ := s.handled.countP fun h => h.sender = r

/-- The paths used are those of the request. -/
def State.Faithful (s : State n w) (h : Handled) : Prop :=
  ∃ path, s.pathOf h.sender = some path ∧ h.original = path.bytes ∧
    ∀ compressed, h.compressed = some compressed → resultFor path.bytes = some compressed

/-- At most one message about each entry is queued or handled. -/
structure State.Distinct (s : State n w) : Prop where
  queue : (s.queue.map Message.index).Nodup
  workers : ∀ j j' m m', (s.workers j).message = some m → (s.workers j').message = some m' →
    m.index = m'.index → j = j'
  queue_workers : ∀ m ∈ s.queue, ∀ j m', (s.workers j).message = some m' → m.index ≠ m'.index

/-- What the protocol guarantees. -/
structure Protocol (s : State n w) : Prop where
  /-- An entry is owned by at most one request. -/
  owner_unique : ∀ r r' i, s.Owns r i → s.Owns r' i → r = r'
  /-- At most one message about an entry is queued or handled. -/
  distinct : s.Distinct
  /-- A message is about the entry that its sender owns. -/
  sender_owns : ∀ m, s.InFlight m → s.Owns m.sender m.index
  /-- Workers use the paths of the request that sent the message. -/
  faithful : ∀ j h, (s.workers j).record = some h → s.Faithful h
  handled_faithful : ∀ h ∈ s.handled, s.Faithful h
  /-- No request is handled twice. -/
  handled_le_one : ∀ r, s.timesHandled r ≤ 1
  /-- A waiter returns after its request was handled, and is released by that. -/
  returned : ∀ r by_, s.phaseOf r = some (.returned by_) → by_ = some r ∧ s.timesHandled r = 1

/-- The workers see the `client_t` as it was filled in, and none of them has found an entry anywhere
else. -/
structure Intact (s : State n w) : Prop where
  client : s.client = .registered
  memory : ∀ j memory, (s.workers j).memory = some memory → memory = .shared
  running : ∀ j, s.workers j ≠ .exited

/-- The steps with their effect, as long as the paths fit and the `client_t` is intact. -/
inductive Step (dirs : Directories) (s : State n w) : Label n w → State n w → Prop
  | start (path : Path) (mode : Mode) (hpath : WellNamed dirs path.bytes) :
      Step dirs s (.start path mode) { s with
        requests := Function.update s.requests s.started (some ⟨path, mode, .starting⟩)
        started := s.started + 1 }
  | lock (r : ℕ) (hphase : s.phaseOf r = some .starting) (hmutex : s.globalMutex = none) :
      Step dirs s (.lock r) { s.setPhase r (.scanning 0) with globalMutex := some r }
  | pass (r : ℕ) (i : Fin n) (hphase : s.phaseOf r = some (.scanning i))
      (hused : (s.entries i).isUsed = true) :
      Step dirs s (.scan r) (s.setPhase r (.scanning (i + 1)))
  | take (r : ℕ) (i : Fin n) (path : Path) (paths : PathFields)
      (hphase : s.phaseOf r = some (.scanning i)) (hpath : s.pathOf r = some path)
      (hfree : (s.entries i).isUsed = false) (hshows : paths.Shows path.bytes) :
      Step dirs s (.scan r)
        { (s.setEntry i { s.entries i with isUsed := true, isDone := false, paths := paths
          }).setPhase r (.claimed i) with globalMutex := none }
  | giveUp (r : ℕ) (request : Request n) (k : ℕ) (hr : s.requests r = some request)
      (hphase : s.phaseOf r = some (.scanning k)) (hend : n ≤ k) :
      Step dirs s (.scan r) (s.giveUp r request.mode)
  | send (r : ℕ) (i : Fin n) (hphase : s.phaseOf r = some (.claimed i)) :
      Step dirs s (.send r) { s.setPhase r (.waiting i) with queue := s.queue ++ [⟨i, r⟩] }
  | release (r : ℕ) (i : Fin n) (hphase : s.phaseOf r = some (.waiting i))
      (hdone : (s.entries i).isDone = true) :
      Step dirs s (.poll r) ((s.setEntry i
        { s.entries i with isUsed := false, isDone := false }).setPhase r
          (.returned (s.signalledBy i)))
  | stay (r : ℕ) : Step dirs s (.poll r) s
  | enter (j : Fin w) (hidle : s.workers j = .idle) :
      Step dirs s (.enter j) (s.setWorker j .listening)
  | receive (j : Fin w) (m : Message n) (rest : List (Message n))
      (hlistening : s.workers j = .listening) (hqueue : s.queue = m :: rest) :
      Step dirs s (.receive j) { s.setWorker j (.received m) with queue := rest }
  | openInput (j : Fin w) (m : Message n) (found : Bool) (hworker : s.workers j = .received m) :
      Step dirs s (.openInput j found) (s.setWorker j
        (if found then .reading m .shared (s.entries m.index).paths.originalFilePath
          else .finished m .shared (s.entries m.index).paths.originalFilePath none))
  | openOutput (j : Fin w) (m : Message n) (original : Bytes)
      (hworker : s.workers j = .reading m .shared original) :
      Step dirs s (.openOutput j) (s.setWorker j
        (.finished m .shared original (some (s.entries m.index).paths.compressedFilePath)))
  | signal (j : Fin w) (m : Message n) (original : Bytes) (compressed : Option Bytes)
      (hworker : s.workers j = .finished m .shared original compressed) :
      Step dirs s (.signal j)
        { (s.setEntry m.index { s.entries m.index with isDone := true }).setWorker j .idle with
          signalledBy := Function.update s.signalledBy m.index (some m.sender)
          handled := s.handled ++ [⟨m.sender, original, compressed⟩] }

/-- Only requests with paths that fit are started, and the `client_t` of the workers stays. -/
def wellNamed (dirs : Directories) (_ : State n w) : Label n w → Prop
  | .start path _ => WellNamed dirs path.bytes
  | .overwrite _ => False
  | _ => True

instance (dirs : Directories) (s : State n w) (l : Label n w) : Decidable (wellNamed dirs s l) :=
  match l with
  | .start path _ => inferInstanceAs (Decidable (WellNamed dirs path.bytes))
  | .overwrite _ => instDecidableFalse
  | .lock _ | .scan _ | .send _ | .poll _ => instDecidableTrue
  | .enter _ | .receive _ | .openInput _ _ | .openOutput _ | .signal _ => instDecidableTrue

theorem phaseOf_eq {request : Request n} (h : s.requests r = some request) :
    s.phaseOf r = some request.phase := by
  rw [State.phaseOf, h, Option.map_some]

theorem step_scanEntry {request : Request n} {k : ℕ} (hr : s.requests r = some request)
    (hphase : request.phase = .scanning k) (hpath : WellNamed dirs request.path.bytes)
    (h : scanEntry dirs s r request k = some s') : Step dirs s (.scan r) s' := by
  have hphase' : s.phaseOf r = some (.scanning k) := by rw [phaseOf_eq hr, hphase]
  rw [scanEntry] at h
  split at h
  swap
  · next hk =>
    obtain rfl := Option.some.inj h
    exact .giveUp r request k hr hphase' (Nat.le_of_not_lt hk)
  next hk =>
    split at h
    · exact absurd h (by simp)
    by_cases hused : (s.entries ⟨k, hk⟩).isUsed = true
    · -- the entry is in use, and the search goes on
      rw [findAndSetEntry, if_pos hused] at h
      obtain rfl := Option.some.inj h
      exact .pass r ⟨k, hk⟩ hphase' hused
    · -- the path fits, so that the entry is taken
      have hfree : (s.entries ⟨k, hk⟩).isUsed = false := by simpa using hused
      obtain ⟨paths, hset, hshows⟩ := findAndSetEntry_of_wellNamed hpath hfree
      rw [hset] at h
      obtain rfl := Option.some.inj h
      exact .take r ⟨k, hk⟩ request.path paths hphase' (by rw [State.pathOf, hr, Option.map_some])
        hfree hshows

theorem step_clientStep {request : Request n} {l : Label n w} (hr : s.requests r = some request)
    (hpath : WellNamed dirs request.path.bytes)
    (hl : l = .lock r ∨ l = .scan r ∨ l = .send r ∨ l = .poll r)
    (h : clientStep dirs s r request l = some s') : Step dirs s l s' := by
  have hphase := phaseOf_eq hr
  rcases hl with rfl | rfl | rfl | rfl <;> simp only [clientStep] at h
  · -- the global mutex is taken
    split at h
    · next hstarting hmutex =>
      obtain rfl := Option.some.inj h
      exact .lock r (hphase.trans (congrArg some hstarting)) hmutex
    · exact absurd h (by simp)
  · split at h
    · next hscanning => exact step_scanEntry hr hscanning hpath h
    · exact absurd h (by simp)
  · split at h
    · next hclaimed =>
      split at h
      · obtain rfl := Option.some.inj h
        exact .send r _ (hphase.trans (congrArg some hclaimed))
      · exact absurd h (by simp)
    · exact absurd h (by simp)
  · split at h
    · next hwaiting =>
      rw [pollEntry] at h
      split at h
      · exact absurd h (by simp)
      · split at h
        · next hdone =>
          obtain rfl := Option.some.inj h
          exact .release r _ (hphase.trans (congrArg some hwaiting)) hdone
        · obtain rfl := Option.some.inj h
          exact .stay r
    · exact absurd h (by simp)

theorem step_workerStep {l : Label n w} (hintact : Intact s)
    (hl : l = .enter j ∨ l = .receive j ∨ (∃ found, l = .openInput j found) ∨ l = .openOutput j ∨
      l = .signal j) (h : workerStep s j l = some s') : Step dirs s l s' := by
  rcases hl with rfl | rfl | ⟨found, rfl⟩ | rfl | rfl <;> simp only [workerStep] at h
  · split at h
    · next hidle =>
      rw [hintact.client] at h
      obtain rfl := Option.some.inj h
      exact .enter j hidle
    · exact absurd h (by simp)
  · split at h
    · next hlistening hqueue =>
      obtain rfl := Option.some.inj h
      exact .receive j _ _ hlistening hqueue
    · exact absurd h (by simp)
  · split at h
    · next hworker =>
      -- the address in the `client_t` is that of the shared memory
      rw [hintact.client] at h
      obtain rfl := Option.some.inj h
      exact .openInput j _ found hworker
    · exact absurd h (by simp)
  · split at h
    · next hworker =>
      obtain rfl := hintact.memory j _ (by rw [hworker]; rfl)
      obtain rfl := Option.some.inj h
      exact .openOutput j _ _ hworker
    · exact absurd h (by simp)
  · split at h
    · next hworker =>
      obtain rfl := hintact.memory j _ (by rw [hworker]; rfl)
      obtain ⟨entry, hentry, h⟩ := Option.bind_eq_some_iff.mp h
      obtain rfl := Option.some.inj hentry
      split at h
      · exact absurd h (by simp)
      · obtain rfl := Option.some.inj h
        exact .signal j _ _ _ hworker
    · exact absurd h (by simp)

/-- Every step of the system has one of the listed effects, as long as the paths fit. -/
theorem step_of_eq {l : Label n w} (hintact : Intact s)
    (hnamed : ∀ r path, s.pathOf r = some path → WellNamed dirs path.bytes)
    (hl : wellNamed dirs s l) (h : (slotSystem dirs n w).step s l = some s') :
    Step dirs s l s' := by
  -- the four steps of a request, in one
  have hclient : ∀ r l', (l' = .lock r ∨ l' = .scan r ∨ l' = .send r ∨ l' = .poll r) →
      (if s.exited then none else
        (s.requests r).bind fun request => clientStep dirs s r request l') = some s' →
      Step dirs s l' s' := by
    intro r l' hl' h
    split at h
    · exact absurd h (by simp)
    · obtain ⟨request, hr, h⟩ := Option.bind_eq_some_iff.mp h
      exact step_clientStep hr (hnamed r request.path (by rw [State.pathOf, hr]; rfl)) hl' h
  cases l with
  | start path mode =>
    replace h : (if s.exited then none else some _) = some s' := h
    split at h
    · exact absurd h (by simp)
    · obtain rfl := Option.some.inj h
      exact .start path mode hl
  | lock r => exact hclient r _ (.inl rfl) h
  | scan r => exact hclient r _ (.inr (.inl rfl)) h
  | send r => exact hclient r _ (.inr (.inr (.inl rfl))) h
  | poll r => exact hclient r _ (.inr (.inr (.inr rfl))) h
  | enter j => exact step_workerStep hintact (.inl rfl) h
  | receive j => exact step_workerStep hintact (.inr (.inl rfl)) h
  | openInput j found => exact step_workerStep hintact (.inr (.inr (.inl ⟨found, rfl⟩))) h
  | openOutput j => exact step_workerStep hintact (.inr (.inr (.inr (.inl rfl)))) h
  | signal j => exact step_workerStep hintact (.inr (.inr (.inr (.inr rfl)))) h
  -- the guard leaves the `client_t` alone
  | overwrite client => exact hl.elim

/-! ### The invariant -/

/-- What holds of a request in the given phase, and of the entry that it owns: the entry is used
and shows the paths of the request, and it is done only after the request was handled. -/
def State.Consistent (s : State n w) (r : ℕ) : Option (Phase n) → Prop
  | some (.claimed i) => (s.entries i).isUsed = true ∧
      (∃ path, s.pathOf r = some path ∧ (s.entries i).paths.Shows path.bytes) ∧
      (s.entries i).isDone = false ∧ s.timesHandled r = 0
  | some (.waiting i) => (s.entries i).isUsed = true ∧
      (∃ path, s.pathOf r = some path ∧ (s.entries i).paths.Shows path.bytes) ∧
      ((s.entries i).isDone = false ∧ s.timesHandled r = 0 ∨
        (s.entries i).isDone = true ∧ s.signalledBy i = some r ∧ s.timesHandled r = 1)
  | some (.returned by_) => by_ = some r ∧ s.timesHandled r = 1
  | some .starting => s.timesHandled r = 0
  | some (.scanning _) => s.timesHandled r = 0
  | none => s.timesHandled r = 0

structure Inv (dirs : Directories) (s : State n w) : Prop where
  named : ∀ r path, s.pathOf r = some path → WellNamed dirs path.bytes
  fresh : ∀ r, s.started ≤ r → s.requests r = none
  owner_unique : ∀ r r' i, s.Owns r i → s.Owns r' i → r = r'
  consistent : ∀ r, s.Consistent r (s.phaseOf r)
  flight : ∀ m, s.InFlight m →
    s.phaseOf m.sender = some (.waiting m.index) ∧ (s.entries m.index).isDone = false
  distinct : s.Distinct
  faithful : ∀ j h, (s.workers j).record = some h → s.Faithful h
  handled_faithful : ∀ h ∈ s.handled, s.Faithful h

theorem phaseOf_setPhase (h : s.phaseOf r = some phase) (phase' : Phase n) (r' : ℕ) :
    (s.setPhase r phase').phaseOf r' = if r' = r then some phase' else s.phaseOf r' := by
  simp only [State.phaseOf, State.setPhase, Function.update_apply]
  split
  · next hr =>
    obtain ⟨request, hrequest, -⟩ := Option.map_eq_some_iff.mp h
    simp [hrequest]
  · rfl

theorem pathOf_setPhase (phase' : Phase n) (r' : ℕ) :
    (s.setPhase r phase').pathOf r' = s.pathOf r' := by
  simp only [State.pathOf, State.setPhase, Function.update_apply]
  split
  · next hr => rw [hr, Option.map_map]; rfl
  · rfl

theorem fresh_setPhase (h : s.phaseOf r = some phase) (phase' : Phase n)
    (hfresh : ∀ r, s.started ≤ r → s.requests r = none) (r' : ℕ) (hr' : s.started ≤ r') :
    (s.setPhase r phase').requests r' = none := by
  have hne : r' ≠ r := by
    rintro rfl
    simp [State.phaseOf, hfresh r' hr'] at h
  simp only [State.setPhase, Function.update_of_ne hne, hfresh r' hr']

theorem faithful_of_pathOf (hpath : ∀ r path, s.pathOf r = some path → s'.pathOf r = some path)
    {h : Handled} (hh : s.Faithful h) : s'.Faithful h := by
  obtain ⟨path, hp, hrest⟩ := hh
  exact ⟨path, hpath _ path hp, hrest⟩

/-- What a worker has after worker `j` was set, it has as the new worker or had before. -/
theorem workers_update_cases {α : Type} {worker : Worker n} {j' : Fin w} {a : α}
    (f : Worker n → Option α) (h : f (Function.update s.workers j worker j') = some a) :
    j' = j ∧ f worker = some a ∨ j' ≠ j ∧ f (s.workers j') = some a := by
  by_cases hj : j' = j
  · rw [hj, Function.update_self] at h
    exact .inl ⟨hj, h⟩
  · rw [Function.update_of_ne hj] at h
    exact .inr ⟨hj, h⟩

/-- The condition on a request is kept when nothing of its entry and its history changes. -/
theorem consistent_congr (h : s.Consistent r (s.phaseOf r))
    (hphase : s'.phaseOf r = s.phaseOf r)
    (hpath : ∀ path, s.pathOf r = some path → s'.pathOf r = some path)
    (hentries : ∀ i, s.Owns r i →
      s'.entries i = s.entries i ∧ s'.signalledBy i = s.signalledBy i)
    (htimes : s'.timesHandled r = s.timesHandled r) : s'.Consistent r (s'.phaseOf r) := by
  rw [hphase]
  cases hcase : s.phaseOf r with
  | none =>
    rw [hcase] at h
    exact htimes.trans h
  | some phase =>
    rw [hcase] at h
    cases phase with
    | starting => exact htimes.trans h
    | scanning k => exact htimes.trans h
    | returned by_ => exact ⟨h.1, htimes.trans h.2⟩
    -- in the last two phases the condition is about an entry, which stays
    | claimed i =>
      obtain ⟨hused, ⟨path, hp, hshows⟩, hrest⟩ := h
      obtain ⟨heq, -⟩ := hentries i (.inl hcase)
      simp only [State.Consistent, heq, htimes]
      exact ⟨hused, ⟨path, hpath path hp, hshows⟩, hrest⟩
    | waiting i =>
      obtain ⟨hused, ⟨path, hp, hshows⟩, hrest⟩ := h
      obtain ⟨heq, hsignalled⟩ := hentries i (.inr hcase)
      simp only [State.Consistent, heq, hsignalled, htimes]
      exact ⟨hused, ⟨path, hpath path hp, hshows⟩, hrest⟩

namespace Inv

theorem initial : Inv dirs (State.initial : State n w) where
  named _ _ h := by simp [State.initial, State.pathOf] at h
  fresh _ _ := rfl
  owner_unique _ _ _ h := by simp [State.Owns, State.initial, State.phaseOf] at h
  consistent _ := rfl
  flight _ h := by simp [State.InFlight, State.initial, Worker.message] at h
  distinct := ⟨List.nodup_nil, fun _ _ _ _ h => by simp [State.initial, Worker.message] at h,
    fun _ h => absurd h List.not_mem_nil⟩
  faithful _ _ h := by simp [State.initial, Worker.record] at h
  handled_faithful _ h := absurd h List.not_mem_nil

theorem used (h : Inv dirs s) (hown : s.Owns r i) : (s.entries i).isUsed = true := by
  have hcons := h.consistent r
  rcases hown with hphase | hphase <;> rw [hphase] at hcons <;> exact hcons.1

theorem shows (h : Inv dirs s) (hown : s.Owns r i) :
    ∃ path, s.pathOf r = some path ∧ (s.entries i).paths.Shows path.bytes := by
  have hcons := h.consistent r
  rcases hown with hphase | hphase <;> rw [hphase] at hcons <;> exact hcons.2.1

/-- The entry of a message under way shows the paths of the sender. -/
theorem shows_of_inFlight (h : Inv dirs s) (hm : s.InFlight m) :
    ∃ path, s.pathOf m.sender = some path ∧ (s.entries m.index).paths.Shows path.bytes :=
  h.shows (.inr (h.flight m hm).1)

/-- A message under way has not been handled. -/
theorem not_handled_of_inFlight (h : Inv dirs s) (hm : s.InFlight m) :
    s.timesHandled m.sender = 0 := by
  obtain ⟨hphase, hdone⟩ := h.flight m hm
  have hcons := h.consistent m.sender
  rw [hphase] at hcons
  obtain ⟨-, -, ⟨-, htimes⟩ | ⟨hdone', -⟩⟩ := hcons
  · exact htimes
  · simp [hdone] at hdone'

/-- A step that changes request `r` and what belongs to it. The entries of the other requests stay
as they are, and `r` does not get one of them. -/
theorem of_frame (h : Inv dirs s) (r : ℕ)
    (hnamed : ∀ r' path, s'.pathOf r' = some path → WellNamed dirs path.bytes)
    (hfresh : ∀ r', s'.started ≤ r' → s'.requests r' = none)
    (hpath : ∀ r' path, s.pathOf r' = some path → s'.pathOf r' = some path)
    (hphase : ∀ r', r' ≠ r → s'.phaseOf r' = s.phaseOf r')
    (htimes : ∀ r', r' ≠ r → s'.timesHandled r' = s.timesHandled r')
    (hother : ∀ r', r' ≠ r → ∀ i, s.Owns r' i → s'.entries i = s.entries i ∧
      s'.signalledBy i = s.signalledBy i ∧ ¬ s'.Owns r i)
    (hconsistent : s'.Consistent r (s'.phaseOf r))
    (hflight : ∀ m, s'.InFlight m → s.InFlight m ∧ m.sender ≠ r ∨
      s'.phaseOf m.sender = some (.waiting m.index) ∧ (s'.entries m.index).isDone = false)
    (hdistinct : s'.Distinct)
    (hfaithful : ∀ j record, (s'.workers j).record = some record → s'.Faithful record)
    (hhandled : ∀ record ∈ s'.handled, s'.Faithful record) : Inv dirs s' := by
  have howns : ∀ {r' i}, r' ≠ r → s'.Owns r' i → s.Owns r' i := fun hr hown => by
    simpa only [State.Owns, hphase _ hr] using hown
  refine ⟨hnamed, hfresh, fun r₁ r₂ i h₁ h₂ => ?_, fun r' => ?_, fun m hm => ?_, hdistinct,
    hfaithful, hhandled⟩
  -- an entry of another request is not one of `r`
  · by_cases hr₁ : r₁ = r <;> by_cases hr₂ : r₂ = r
    · rw [hr₁, hr₂]
    · subst hr₁
      exact absurd h₁ (hother r₂ hr₂ i (howns hr₂ h₂)).2.2
    · subst hr₂
      exact absurd h₂ (hother r₁ hr₁ i (howns hr₁ h₁)).2.2
    · exact h.owner_unique r₁ r₂ i (howns hr₁ h₁) (howns hr₂ h₂)
  · by_cases hr : r' = r
    · rw [hr]
      exact hconsistent
    · exact consistent_congr (h.consistent r') (hphase r' hr) (hpath r')
        (fun i hown => ⟨(hother r' hr i hown).1, (hother r' hr i hown).2.1⟩) (htimes r' hr)
  -- a message of another request is under way as before
  · obtain ⟨hold, hsender⟩ | hnew := hflight m hm
    · obtain ⟨hwaiting, hdone⟩ := h.flight m hold
      rw [hphase _ hsender, (hother _ hsender _ (.inr hwaiting)).1]
      exact ⟨hwaiting, hdone⟩
    · exact hnew

/-- A request that has no message under way: it does not wait, or its entry is done. -/
theorem sender_ne (h : Inv dirs s) (hm : s.InFlight m)
    (hr : ∀ i, s.phaseOf r = some (.waiting i) → (s.entries i).isDone = true) : m.sender ≠ r := by
  rintro rfl
  obtain ⟨hwaiting, hdone⟩ := h.flight m hm
  simp [hr _ hwaiting] at hdone

/-! ### Steps of requests -/

theorem start (h : Inv dirs s) {path : Path} (mode : Mode) (hpath : WellNamed dirs path.bytes) :
    Inv dirs { s with
      requests := Function.update s.requests s.started (some ⟨path, mode, .starting⟩)
      started := s.started + 1 } := by
  have hnone := h.fresh s.started le_rfl
  have hphase : s.phaseOf s.started = none := by rw [State.phaseOf, hnone, Option.map_none]
  generalize hs' : ({ s with
    requests := Function.update s.requests s.started (some ⟨path, mode, .starting⟩)
    started := s.started + 1 } : State n w) = s'
  have hnew : s'.requests s.started = some ⟨path, mode, .starting⟩ :=
    hs' ▸ Function.update_self ..
  have hkeep : ∀ r', r' ≠ s.started → s'.requests r' = s.requests r' :=
    hs' ▸ fun r' hr => Function.update_of_ne hr _ _
  have hpath' : ∀ r' path', s.pathOf r' = some path' → s'.pathOf r' = some path' := by
    intro r' path' hp
    have hr : r' ≠ s.started := by
      rintro rfl
      simp [State.pathOf, hnone] at hp
    rw [State.pathOf, hkeep r' hr]
    exact hp
  have hphase' : s'.phaseOf s.started = some .starting := by
    rw [State.phaseOf, hnew, Option.map_some]
  refine h.of_frame s.started (fun r' path' hp => ?_) ?_ hpath'
    (fun r' hr => by rw [State.phaseOf, hkeep r' hr, State.phaseOf]) (hs' ▸ fun _ _ => rfl)
    (fun r' hr i _ => ⟨hs' ▸ rfl, hs' ▸ rfl, by simp [State.Owns, hphase']⟩) ?_
    (hs' ▸ fun m hm => .inl ⟨hm, h.sender_ne hm (by simp [hphase])⟩)
    (hs' ▸ ⟨h.distinct.queue, h.distinct.workers, h.distinct.queue_workers⟩) ?_ ?_
  · by_cases hr : r' = s.started
    · rw [hr, State.pathOf, hnew, Option.map_some] at hp
      obtain rfl := Option.some.inj hp
      exact hpath
    · rw [State.pathOf, hkeep r' hr] at hp
      exact h.named r' path' hp
  · subst hs'
    intro r' hr
    exact (hkeep r' (Nat.ne_of_gt hr)).trans (h.fresh r' (Nat.le_of_succ_le hr))
  · -- a request that does not exist was never handled
    have hcons := h.consistent s.started
    rw [hphase] at hcons
    rw [hphase']
    subst hs'
    exact hcons
  · subst hs'
    exact fun j record hrecord => faithful_of_pathOf hpath' (h.faithful j record hrecord)
  · subst hs'
    exact fun record hrecord => faithful_of_pathOf hpath' (h.handled_faithful record hrecord)

/-- The frame rule for steps that set the phase of one request and leave the workers alone. -/
theorem of_setPhase (h : Inv dirs s) (hphase : s.phaseOf r = some phase)
    (hrequests : s'.requests = (s.setPhase r phase').requests) (hstarted : s'.started = s.started)
    (hworkers : s'.workers = s.workers) (hhandled : s'.handled = s.handled)
    (hsignalled : s'.signalledBy = s.signalledBy)
    (hentries : ∀ r', r' ≠ r → ∀ i, s.Owns r' i → s'.entries i = s.entries i)
    (hclaims : ∀ r', r' ≠ r → ∀ i, s.Owns r' i →
      phase' ≠ .claimed i ∧ phase' ≠ .waiting i)
    (hconsistent : s'.Consistent r (some phase'))
    (hquiet : ∀ i, phase = .waiting i → (s.entries i).isDone = true)
    (hqueue : ∀ m ∈ s'.queue, m ∈ s.queue ∨
      s'.phaseOf m.sender = some (.waiting m.index) ∧ (s'.entries m.index).isDone = false)
    (hdistinct : s'.Distinct) : Inv dirs s' := by
  have hphase' : ∀ r', s'.phaseOf r' = if r' = r then some phase' else s.phaseOf r' := by
    intro r'
    rw [State.phaseOf, hrequests]
    exact phaseOf_setPhase hphase phase' r'
  have hpath' : ∀ r', s'.pathOf r' = s.pathOf r' := by
    intro r'
    rw [State.pathOf, hrequests]
    exact pathOf_setPhase phase' r'
  have hfaithful : ∀ {record}, s.Faithful record → s'.Faithful record :=
    faithful_of_pathOf fun r' _ hp => (hpath' r').trans hp
  refine h.of_frame r (fun r' path hp => h.named r' path ((hpath' r').symm.trans hp))
    (fun r' hr => ?_) (fun r' path hp => (hpath' r').trans hp)
    (fun r' hr => by rw [hphase', if_neg hr])
    (fun r' _ => by simp only [State.timesHandled, hhandled])
    (fun r' hr i hown => ⟨hentries r' hr i hown, by rw [hsignalled], ?_⟩)
    (by rw [hphase', if_pos rfl]; exact hconsistent) (fun m hm => ?_) hdistinct
    (fun j record hrecord => hfaithful (h.faithful j record (hworkers ▸ hrecord)))
    (fun record hrecord => hfaithful (h.handled_faithful record (hhandled ▸ hrecord)))
  · rw [hrequests]
    exact fresh_setPhase hphase phase' h.fresh r' (hstarted ▸ hr)
  · obtain ⟨hclaimed, hwaiting⟩ := hclaims r' hr i hown
    simp [State.Owns, hphase', hclaimed, hwaiting]
  -- the messages that are under way are not from `r`: its own was handled
  · have hsender : s.InFlight m → m.sender ≠ r := fun hold => h.sender_ne hold fun i hi =>
      hquiet i (Option.some.inj (hphase.symm.trans hi))
    rcases hm with hm | ⟨j, hj⟩
    · rcases hqueue m hm with hold | hnew
      · exact .inl ⟨.inl hold, hsender (.inl hold)⟩
      · exact .inr hnew
    · have hold : s.InFlight m := .inr ⟨j, hworkers ▸ hj⟩
      exact .inl ⟨hold, hsender hold⟩

/-- A request that searches, before and after the step, owns nothing and was never handled. -/
theorem search (h : Inv dirs s) (hphase : s.phaseOf r = some phase)
    (hsearch : phase = .starting ∨ ∃ k, phase = .scanning k)
    (hsearch' : phase' = .starting ∨ ∃ k, phase' = .scanning k) (globalMutex : Option ℕ) :
    Inv dirs { s.setPhase r phase' with globalMutex := globalMutex } := by
  have hcons := h.consistent r
  rw [hphase] at hcons
  refine h.of_setPhase hphase rfl rfl rfl rfl rfl (fun _ _ _ _ => rfl) ?_ ?_ ?_
    (fun m hm => .inl hm) ⟨h.distinct.queue, h.distinct.workers, h.distinct.queue_workers⟩
  · intro r' _ i _
    rcases hsearch' with rfl | ⟨k, rfl⟩ <;> simp
  · rcases hsearch with rfl | ⟨k, rfl⟩ <;> rcases hsearch' with rfl | ⟨k', rfl⟩ <;> exact hcons
  · intro i
    rcases hsearch with rfl | ⟨k, rfl⟩ <;> simp

/-- An unused entry is taken: no request owns it. -/
theorem take {k : ℕ} {path : Path} {entry : Entry} (h : Inv dirs s)
    (hphase : s.phaseOf r = some (.scanning k)) (hpath : s.pathOf r = some path)
    (hfree : (s.entries i).isUsed = false) (hused : entry.isUsed = true)
    (hdone : entry.isDone = false) (hshows : entry.paths.Shows path.bytes) :
    Inv dirs { (s.setEntry i entry).setPhase r (.claimed i) with globalMutex := none } := by
  have hcons := h.consistent r
  rw [hphase] at hcons
  -- entries that are owned are used, and this one was not
  have hne : ∀ {r' i'}, s.Owns r' i' → i' ≠ i := by
    rintro r' i' hown rfl
    simpa [hfree] using h.used hown
  refine h.of_setPhase hphase rfl rfl rfl rfl rfl (fun r' _ i' hown => ?_) (fun r' _ i' hown => ?_)
    ?_ (by simp) (fun m hm => .inl hm)
    ⟨h.distinct.queue, h.distinct.workers, h.distinct.queue_workers⟩
  · exact Function.update_of_ne (hne hown) _ _
  · simp [(hne hown).symm]
  · have hentry : Function.update s.entries i entry i = entry := Function.update_self ..
    have hpath' := (pathOf_setPhase (s := s.setEntry i entry) (r := r) (.claimed i) r).trans hpath
    refine ⟨?_, ⟨path, hpath', ?_⟩, ?_, hcons⟩
    · exact (congrArg Entry.isUsed hentry).trans hused
    · exact (congrArg Entry.paths hentry).symm ▸ hshows
    · exact (congrArg Entry.isDone hentry).trans hdone

/-- The message is sent: it is the only one about the entry. -/
theorem send (h : Inv dirs s) (hphase : s.phaseOf r = some (.claimed i)) :
    Inv dirs { s.setPhase r (.waiting i) with queue := s.queue ++ [⟨i, r⟩] } := by
  have hcons := h.consistent r
  rw [hphase] at hcons
  obtain ⟨hused, ⟨path, hpath, hshows⟩, hdone, htimes⟩ := hcons
  -- whoever has a message under way about the entry owns it, and has sent it
  have hindex : ∀ {m}, s.InFlight m → m.index ≠ i := by
    rintro m hm rfl
    obtain ⟨hwaiting, -⟩ := h.flight m hm
    obtain rfl := h.owner_unique r m.sender m.index (.inl hphase) (.inr hwaiting)
    simp [hphase] at hwaiting
  refine h.of_setPhase hphase rfl rfl rfl rfl rfl (fun _ _ _ _ => rfl) (fun r' hr i' hown => ?_)
    ?_ (by simp) (fun m hm => ?_) ⟨?_, h.distinct.workers, fun m hm j m' hm' => ?_⟩
  · have hi : i' ≠ i := by
      rintro rfl
      exact hr (h.owner_unique r' r i' hown (.inl hphase))
    simp [hi.symm]
  · exact ⟨hused, ⟨path, (pathOf_setPhase _ r).trans hpath, hshows⟩, .inl ⟨hdone, htimes⟩⟩
  · rcases List.mem_append.mp hm with hm | hm
    · exact .inl hm
    · obtain rfl := List.mem_singleton.mp hm
      refine .inr ⟨?_, hdone⟩
      exact (phaseOf_setPhase hphase (.waiting i) r).trans (if_pos rfl)
  · rw [List.map_append, List.nodup_append]
    refine ⟨h.distinct.queue, List.nodup_singleton _, fun a ha b hb hab => ?_⟩
    obtain ⟨m, hm, rfl⟩ := List.mem_map.mp ha
    exact hindex (.inl hm) (hab.trans (List.mem_singleton.mp hb))
  · rcases List.mem_append.mp hm with hm | hm
    · exact h.distinct.queue_workers m hm j m' hm'
    · obtain rfl := List.mem_singleton.mp hm
      exact (hindex (.inr ⟨j, hm'⟩)).symm

/-- The waiter returns: the entry is done, so its own message was handled. -/
theorem release (h : Inv dirs s) (hphase : s.phaseOf r = some (.waiting i))
    (hdone : (s.entries i).isDone = true) :
    Inv dirs ((s.setEntry i { s.entries i with isUsed := false, isDone := false }).setPhase r
      (.returned (s.signalledBy i))) := by
  have hcons := h.consistent r
  rw [hphase] at hcons
  -- an entry that is done was marked by the handling of this request
  obtain ⟨-, -, ⟨hnot, -⟩ | ⟨-, hsignalled, htimes⟩⟩ := hcons
  · simp [hdone] at hnot
  refine h.of_setPhase hphase rfl rfl rfl rfl rfl (fun r' hr i' hown => ?_) (by simp)
    ⟨hsignalled, htimes⟩ (fun i' hi' => ?_) (fun m hm => .inl hm)
    ⟨h.distinct.queue, h.distinct.workers, h.distinct.queue_workers⟩
  · refine Function.update_of_ne ?_ _ _
    rintro rfl
    exact hr (h.owner_unique r' r i' hown (.inr hphase))
  · obtain rfl := Phase.waiting.inj hi'
    exact hdone

/-! ### Steps of workers -/

/-- The frame rule for steps that set one worker and take messages from the queue. -/
theorem of_setWorker {worker : Worker n} {queue : List (Message n)} (h : Inv dirs s)
    (hflight : ∀ m, { s.setWorker j worker with queue := queue }.InFlight m → s.InFlight m)
    (hdistinct : { s.setWorker j worker with queue := queue }.Distinct)
    (hrecord : ∀ record, worker.record = some record → s.Faithful record) :
    Inv dirs { s.setWorker j worker with queue := queue } where
  named := h.named
  fresh := h.fresh
  owner_unique := h.owner_unique
  consistent := h.consistent
  flight m hm := h.flight m (hflight m hm)
  distinct := hdistinct
  faithful j' record hj' := by
    rcases workers_update_cases Worker.record hj' with ⟨-, hnew⟩ | ⟨-, hold⟩
    · exact hrecord record hnew
    · exact h.faithful j' record hold
  handled_faithful := h.handled_faithful

/-- A worker goes on with its message. -/
theorem of_record {worker : Worker n} (h : Inv dirs s)
    (hmessage : worker.message = (s.workers j).message)
    (hrecord : ∀ record, worker.record = some record → s.Faithful record) :
    Inv dirs (s.setWorker j worker) := by
  have hsame : ∀ j', ((s.setWorker j worker).workers j').message = (s.workers j').message := by
    intro j'
    by_cases hj : j' = j
    · rw [hj]
      exact (congrArg Worker.message (Function.update_self j worker s.workers)).trans hmessage
    · exact congrArg Worker.message (Function.update_of_ne hj ..)
  show Inv dirs { s.setWorker j worker with queue := s.queue }
  refine h.of_setWorker (fun m hm => ?_) ⟨h.distinct.queue, ?_, ?_⟩ hrecord
  · exact hm.imp_right fun ⟨j', hj'⟩ => ⟨j', (hsame j').symm.trans hj'⟩
  · exact fun j₁ j₂ m₁ m₂ h₁ h₂ => h.distinct.workers j₁ j₂ m₁ m₂ ((hsame j₁).symm.trans h₁)
      ((hsame j₂).symm.trans h₂)
  · exact fun m hm j' m' hj' => h.distinct.queue_workers m hm j' m' ((hsame j').symm.trans hj')

/-- A message goes from the queue to a worker. -/
theorem receive {rest : List (Message n)} (h : Inv dirs s) (hqueue : s.queue = m :: rest) :
    Inv dirs { s.setWorker j (.received m) with queue := rest } := by
  have hm : m ∈ s.queue := hqueue ▸ List.mem_cons_self
  have hrest : ∀ {m'}, m' ∈ rest → m' ∈ s.queue := fun h => hqueue ▸ List.mem_cons_of_mem m h
  have hnodup := h.distinct.queue
  rw [hqueue, List.map_cons, List.nodup_cons] at hnodup
  -- the messages of the workers are the old ones and `m`
  have hworkers : ∀ {j' m'}, ((s.setWorker j (.received m)).workers j').message = some m' →
      j' = j ∧ m' = m ∨ j' ≠ j ∧ (s.workers j').message = some m' := by
    intro j' m' hj'
    exact (workers_update_cases Worker.message hj').imp_left fun ⟨hj, hnew⟩ =>
      ⟨hj, (Option.some.inj hnew).symm⟩
  refine h.of_setWorker (fun m' hm' => ?_) ⟨hnodup.2, fun j₁ j₂ m₁ m₂ h₁ h₂ heq => ?_,
    fun m' hm' j' m'' hj' => ?_⟩ (by simp [Worker.record])
  · rcases hm' with hm' | ⟨j', hj'⟩
    · exact .inl (hrest hm')
    · rcases hworkers hj' with ⟨-, rfl⟩ | ⟨-, hold⟩
      · exact .inl hm
      · exact .inr ⟨j', hold⟩
  · rcases hworkers h₁ with ⟨hj₁, rfl⟩ | ⟨hj₁, hold₁⟩ <;>
      rcases hworkers h₂ with ⟨hj₂, rfl⟩ | ⟨hj₂, hold₂⟩
    · rw [hj₁, hj₂]
    · exact absurd heq (h.distinct.queue_workers _ hm j₂ m₂ hold₂)
    · exact absurd heq.symm (h.distinct.queue_workers _ hm j₁ m₁ hold₁)
    · exact h.distinct.workers j₁ j₂ m₁ m₂ hold₁ hold₂ heq
  · rcases hworkers hj' with ⟨-, rfl⟩ | ⟨-, hold⟩
    · exact fun heq => hnodup.1 (heq ▸ List.mem_map_of_mem hm')
    · exact h.distinct.queue_workers m' (hrest hm') j' m'' hold

/-- The worker opens the input file under the path of the sender. -/
theorem openInput (h : Inv dirs s) (hworker : s.workers j = .received m) (found : Bool) :
    Inv dirs (s.setWorker j
      (if found then .reading m .shared (s.entries m.index).paths.originalFilePath
        else .finished m .shared (s.entries m.index).paths.originalFilePath none)) := by
  have hm : s.InFlight m := .inr ⟨j, by rw [hworker]; rfl⟩
  obtain ⟨path, hpath, hshows⟩ := h.shows_of_inFlight hm
  refine h.of_record (by rw [hworker]; cases found <;> rfl) fun record hrecord => ?_
  have hrecord' : record = ⟨m.sender, (s.entries m.index).paths.originalFilePath, none⟩ := by
    cases found <;> exact (Option.some.inj hrecord).symm
  rw [hrecord']
  exact ⟨path, hpath, hshows.1, by simp⟩

/-- The worker writes the result to the path for the file of the sender. -/
theorem openOutput {original : Bytes} (h : Inv dirs s)
    (hworker : s.workers j = .reading m .shared original) :
    Inv dirs (s.setWorker j
      (.finished m .shared original (some (s.entries m.index).paths.compressedFilePath))) := by
  have hm : s.InFlight m := .inr ⟨j, by rw [hworker]; rfl⟩
  obtain ⟨path, hpath, hshows⟩ := h.shows_of_inFlight hm
  obtain ⟨path', hpath', horiginal, -⟩ := h.faithful j ⟨m.sender, original, none⟩
    (by rw [hworker]; rfl)
  obtain rfl : path = path' := Option.some.inj (hpath.symm.trans hpath')
  refine h.of_record (by rw [hworker]; rfl) fun record hrecord => ?_
  obtain rfl := Option.some.inj hrecord
  refine ⟨path, hpath, horiginal, fun compressed hcompressed => ?_⟩
  obtain rfl := Option.some.inj hcompressed
  exact hshows.2

/-- The entry is marked done: the message that was handled is that of the request that owns it. -/
theorem signal {original : Bytes} {compressed : Option Bytes} (h : Inv dirs s)
    (hworker : s.workers j = .finished m .shared original compressed) :
    Inv dirs { (s.setEntry m.index { s.entries m.index with isDone := true }).setWorker j .idle with
      signalledBy := Function.update s.signalledBy m.index (some m.sender)
      handled := s.handled ++ [⟨m.sender, original, compressed⟩] } := by
  have hmessage : (s.workers j).message = some m := by rw [hworker]; rfl
  have hrecord : (s.workers j).record = some ⟨m.sender, original, compressed⟩ := by
    rw [hworker]; rfl
  have hm : s.InFlight m := .inr ⟨j, hmessage⟩
  obtain ⟨hwaiting, hdone⟩ := h.flight m hm
  have htimes := h.not_handled_of_inFlight hm
  -- the worker of a message that stays under way is another one
  have hworkers : ∀ {j' m'}, (Function.update s.workers j .idle j').message = some m' →
      j' ≠ j ∧ (s.workers j').message = some m' := by
    intro j' m' hj'
    exact (workers_update_cases Worker.message hj').resolve_left (by simp [Worker.message])
  refine h.of_frame m.sender h.named h.fresh (fun _ _ hp => hp) (fun _ _ => rfl) (fun r' hr => ?_)
    (fun r' hr i hown => ?_) ?_ (fun m' hm' => ?_) ⟨h.distinct.queue, ?_, ?_⟩
    (fun j' record hj' => ?_) (fun record hmem => ?_)
  · simp [State.timesHandled, List.countP_append, hr.symm]
  · have hi : i ≠ m.index := by
      rintro rfl
      exact hr (h.owner_unique r' m.sender m.index hown (.inr hwaiting))
    refine ⟨Function.update_of_ne hi _ _, Function.update_of_ne hi _ _, fun hsender => hr ?_⟩
    exact h.owner_unique r' m.sender i hown hsender
  · -- the sender now waits for an entry that is done, handled once and by itself
    have hentry : Function.update s.entries m.index { s.entries m.index with isDone := true }
        m.index = { s.entries m.index with isDone := true } := Function.update_self ..
    obtain ⟨path, hpath, hshows⟩ := h.shows_of_inFlight hm
    show State.Consistent _ m.sender (s.phaseOf m.sender)
    rw [hwaiting]
    refine ⟨?_, ⟨path, hpath, ?_⟩, .inr ⟨congrArg Entry.isDone hentry, Function.update_self .., ?_⟩⟩
    · exact (congrArg Entry.isUsed hentry).trans (h.used (.inr hwaiting))
    · exact (congrArg Entry.paths hentry).symm ▸ hshows
    · show (s.handled ++ [_]).countP _ = 1
      rw [List.countP_append, show s.handled.countP _ = 0 from htimes]
      simp
  · -- another message under way is about another entry, so it has another sender
    have hold : s.InFlight m' ∧ m'.index ≠ m.index := by
      rcases hm' with hm' | ⟨j', hj'⟩
      · exact ⟨.inl hm', h.distinct.queue_workers m' hm' j m hmessage⟩
      · obtain ⟨hj, hj'⟩ := hworkers hj'
        exact ⟨.inr ⟨j', hj'⟩, fun heq => hj (h.distinct.workers j' j m' m hj' hmessage heq)⟩
    refine .inl ⟨hold.1, fun hsender => hold.2 ?_⟩
    have hwaiting' := (h.flight m' hold.1).1
    rw [hsender, hwaiting] at hwaiting'
    exact (Phase.waiting.inj (Option.some.inj hwaiting')).symm
  · exact fun j₁ j₂ m₁ m₂ h₁ h₂ =>
      h.distinct.workers j₁ j₂ m₁ m₂ (hworkers h₁).2 (hworkers h₂).2
  · exact fun m' hm' j' m'' hj' => h.distinct.queue_workers m' hm' j' m'' (hworkers hj').2
  · obtain ⟨-, hold⟩ :=
      (workers_update_cases Worker.record hj').resolve_left (by simp [Worker.record])
    exact h.faithful j' record hold
  · rcases List.mem_append.mp hmem with hmem | hmem
    · exact h.handled_faithful record hmem
    · obtain rfl := List.mem_singleton.mp hmem
      exact h.faithful j _ hrecord

theorem step {l : Label n w} (h : Inv dirs s) (hstep : Step dirs s l s') : Inv dirs s' := by
  cases hstep with
  | start path mode hpath => exact h.start mode hpath
  | lock r hphase => exact h.search hphase (.inl rfl) (.inr ⟨0, rfl⟩) (some r)
  | pass r i hphase =>
    exact h.search hphase (.inr ⟨i, rfl⟩) (.inr ⟨i + 1, rfl⟩) s.globalMutex
  | take r i path paths hphase hpath hfree hshows => exact h.take hphase hpath hfree rfl rfl hshows
  | giveUp r request k hr hphase =>
    cases request.mode with
    | sync =>
      -- the client ends, and leaves everything as it is
      exact ⟨h.named, h.fresh, h.owner_unique, h.consistent, h.flight,
        ⟨h.distinct.queue, h.distinct.workers, h.distinct.queue_workers⟩, h.faithful,
        h.handled_faithful⟩
    | async => exact h.search hphase (.inr ⟨k, rfl⟩) (.inl rfl) none
  | send r i hphase => exact h.send hphase
  | release r i hphase hdone => exact h.release hphase hdone
  | stay => exact h
  | enter j hidle => exact h.of_record (by rw [hidle]; rfl) (by simp [Worker.record])
  | receive j m rest hlistening hqueue => exact h.receive hqueue
  | openInput j m found hworker => exact h.openInput hworker found
  | openOutput j m original hworker => exact h.openOutput hworker
  | signal j m original compressed hworker => exact h.signal hworker

theorem protocol (h : Inv dirs s) : Protocol s where
  owner_unique := h.owner_unique
  distinct := h.distinct
  sender_owns m hm := .inr (h.flight m hm).1
  faithful := h.faithful
  handled_faithful := h.handled_faithful
  handled_le_one r := by
    have hcons := h.consistent r
    unfold State.Consistent at hcons
    split at hcons <;> omega
  returned r by_ hphase := by
    have hcons := h.consistent r
    rw [hphase] at hcons
    exact hcons

end Inv

/-! ### The `client_t` of the workers -/

namespace Intact

theorem initial : Intact (State.initial : State n w) :=
  ⟨rfl, fun _ _ h => absurd h (by simp [State.initial, Worker.memory]), fun _ => by
    simp [State.initial]⟩

/-- A worker goes on, with the shared memory of the client if with any. -/
theorem setWorker {worker : Worker n} (h : Intact s) (hclient : s'.client = s.client)
    (hworkers : s'.workers = Function.update s.workers j worker)
    (hmemory : ∀ memory, worker.memory = some memory → memory = .shared)
    (hrunning : worker ≠ .exited) : Intact s' := by
  refine ⟨hclient.trans h.client, fun j' memory hj' => ?_, fun j' => ?_⟩
  · rw [hworkers] at hj'
    rcases workers_update_cases Worker.memory hj' with ⟨-, hnew⟩ | ⟨-, hold⟩
    · exact hmemory memory hnew
    · exact h.memory j' memory hold
  · rw [hworkers]
    by_cases hj : j' = j
    · rw [hj, Function.update_self]
      exact hrunning
    · rw [Function.update_of_ne hj]
      exact h.running j'

theorem step {l : Label n w} (h : Intact s) (hstep : Step dirs s l s') : Intact s' := by
  cases hstep with
  | start | lock | pass | take | send | release | stay => exact ⟨h.client, h.memory, h.running⟩
  | giveUp r request =>
    cases request.mode <;> exact ⟨h.client, h.memory, h.running⟩
  | enter | receive => exact h.setWorker rfl rfl (by simp [Worker.memory]) (by simp)
  | openInput j m found =>
    refine h.setWorker rfl rfl (fun memory hmemory => ?_) (by cases found <;> simp)
    cases found <;> exact (Option.some.inj hmemory).symm
  | openOutput =>
    exact h.setWorker rfl rfl (fun memory hmemory => (Option.some.inj hmemory).symm) (by simp)
  | signal => exact h.setWorker rfl rfl (by simp [Worker.memory]) (by simp)

end Intact

/-- What holds in every run in which the paths fit and the `client_t` is left alone. -/
theorem inv_of_reachable (hr : (slotSystem dirs n w).Reachable (wellNamed dirs) s) :
    Inv dirs s ∧ Intact s := by
  induction hr with
  | init => exact ⟨Inv.initial, Intact.initial⟩
  | step _ hl hs ih =>
    obtain ⟨h, hintact⟩ := ih
    have hstep := step_of_eq hintact h.named hl hs
    exact ⟨h.step hstep, hintact.step hstep⟩

/-! ### The protocol -/

/-- In every interleaving of requests and workers, on any number of entries, in which the paths fit
and the `client_t` of the workers is not overwritten: entries have one owner at a time and at most
one message under way, messages are handled with the paths of the request that sent them, and every
waiter returns after its own request was handled once, released by that. -/
theorem slot_protocol (dirs : Directories)
    (hr : (slotSystem dirs n w).Reachable (wellNamed dirs) s) : Protocol s :=
  (inv_of_reachable hr).1.protocol

end Protocol

/-- Two requests share one entry, one after the other, while the second request searches. -/
theorem slot_protocol_recycled :
    ∃ s, (slotSystem allFolders 1 2).Reachable (wellNamed allFolders) s ∧
      s.phaseOf 0 = some (.returned (some 0)) ∧ s.phaseOf 1 = some (.returned (some 1)) ∧
      s.handled.length = 2 ∧ Protocol s := by
  have hrun : ((slotSystem allFolders 1 2).guardedRun (wellNamed allFolders)
      (slotSystem allFolders 1 2).init
      [.start ⟨ascii "a/input/f", by decide⟩ .sync, .start ⟨ascii "a/input/g", by decide⟩ .async,
        .lock 0, .scan 0, .send 0,
        -- the only entry is in use, and the second request starts over
        .lock 1, .scan 1, .scan 1,
        .enter 1, .receive 1, .openInput 1 true, .poll 0, .openOutput 1, .signal 1, .poll 0,
        .lock 1, .scan 1, .send 1, .enter 0, .receive 0,
        .openInput 0 false, .signal 0, .poll 1]).any
      (fun s => decide (s.phaseOf 0 = some (.returned (some 0)) ∧
        s.phaseOf 1 = some (.returned (some 1)) ∧ s.handled.length = 2)) = true := by
    decide +kernel
  obtain ⟨s, hr, hs⟩ := System.Reachable.of_any hrun
  obtain ⟨h₀, h₁, hhandled⟩ : s.phaseOf 0 = some (.returned (some 0)) ∧
      s.phaseOf 1 = some (.returned (some 1)) ∧ s.handled.length = 2 := of_decide_eq_true hs
  exact ⟨s, hr, h₀, h₁, hhandled, slot_protocol allFolders hr⟩

/-! ### Paths that do not fit -/

/-- Only requests for files in an input folder are started, and the folder of the result exists. The
`client_t` of the workers is left alone. -/
def inInputFolder {n w : ℕ} (dirs : Directories) (_ : State n w) : Label n w → Prop
  | .start path _ => ∃ split ∈ splitAtInput path.bytes, dirs.stat (outputFolder split.1) = true
  | .overwrite _ => False
  | _ => True

instance {n w : ℕ} (dirs : Directories) (s : State n w) (l : Label n w) :
    Decidable (inInputFolder dirs s l) :=
  match l with
  | .start path _ => inferInstanceAs (Decidable (∃ split ∈ splitAtInput path.bytes, _))
  | .overwrite _ => instDecidableFalse
  | .lock _ | .scan _ | .send _ | .poll _ => instDecidableTrue
  | .enter _ | .receive _ | .openInput _ _ | .openOutput _ | .signal _ => instDecidableTrue

/-- A path that fills its field of 100 bytes, so that its terminator is the first byte of the field
for the result. -/
def longPath : Path := ⟨ascii "/input/" ++ List.replicate 93 97, by decide⟩

/-- The path of the result is written over the terminator of a path of 100 bytes, and the worker
looks for the input under the two paths joined. -/
theorem long_path_is_mangled :
    ¬ ∀ s, (slotSystem allFolders 1 1).Reachable (inInputFolder allFolders) s → Protocol s := by
  intro h
  have hrun : ((slotSystem allFolders 1 1).guardedRun (inInputFolder allFolders)
      (slotSystem allFolders 1 1).init
      [.start longPath .sync, .lock 0, .scan 0, .send 0, .enter 0, .receive 0,
        .openInput 0 false]).any
      (fun s => decide (s.pathOf 0 = some longPath ∧ (s.workers 0).record = some
        ⟨0, longPath.bytes ++ ascii "/output/" ++ List.replicate 92 97, none⟩)) = true := by
    decide +kernel
  obtain ⟨s, hr, hs⟩ := System.Reachable.of_any hrun
  obtain ⟨hpath, hrecord⟩ : s.pathOf 0 = some longPath ∧ (s.workers 0).record = some
      ⟨0, longPath.bytes ++ ascii "/output/" ++ List.replicate 92 97, none⟩ :=
    of_decide_eq_true hs
  obtain ⟨path, hpath', horiginal, -⟩ := (h s hr).faithful 0 _ hrecord
  obtain rfl : longPath = path := Option.some.inj (hpath.symm.trans hpath')
  -- the two paths do not even have the same length
  have hlen := congrArg List.length horiginal
  simp only [List.length_append, List.length_replicate] at hlen
  omega

/-! ### A pointer that leads elsewhere -/

/-- Only requests with paths that fit are started. -/
def pathsFit {n w : ℕ} (dirs : Directories) (_ : State n w) : Label n w → Prop
  | .start path _ => WellNamed dirs path.bytes
  | _ => True

instance {n w : ℕ} (dirs : Directories) (s : State n w) (l : Label n w) :
    Decidable (pathsFit dirs s l) :=
  match l with
  | .start path _ => inferInstanceAs (Decidable (WellNamed dirs path.bytes))
  | .lock _ | .scan _ | .send _ | .poll _ | .overwrite _ => instDecidableTrue
  | .enter _ | .receive _ | .openInput _ _ | .openOutput _ | .signal _ => instDecidableTrue

/-- The `client_t` is overwritten while the worker waits for its first message, with the address of
memory that is zero. The worker looks for a file without a name, and marks an entry there. The
request that sent the message waits, and no message is under way that could end that. -/
theorem overwritten_client_is_not_served :
    ∃ s, (slotSystem allFolders 1 1).Reachable (pathsFit allFolders) s ∧
      s.handled = [⟨0, [], none⟩] ∧ s.phaseOf 0 = some (.waiting 0) ∧
      (s.entries 0).isDone = false ∧ s.queue = [] ∧ (s.workers 0).message = none := by
  have hrun : ((slotSystem allFolders 1 1).guardedRun (pathsFit allFolders)
      (slotSystem allFolders 1 1).init
      [.enter 0, .overwrite ⟨true, true, .other fun _ => .fresh⟩,
        .start ⟨ascii "a/input/f", by decide⟩ .sync, .lock 0, .scan 0, .send 0, .receive 0,
        .openInput 0 false, .signal 0]).any
      (fun s => decide (s.handled = [⟨0, [], none⟩] ∧ s.phaseOf 0 = some (.waiting 0) ∧
        (s.entries 0).isDone = false ∧ s.queue = [] ∧ (s.workers 0).message = none)) = true := by
    decide +kernel
  obtain ⟨s, hr, hs⟩ := System.Reachable.of_any hrun
  exact ⟨s, hr, of_decide_eq_true hs⟩

end TinyFile

end OSLab
