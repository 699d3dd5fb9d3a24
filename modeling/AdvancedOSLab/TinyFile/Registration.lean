import Mathlib.Data.List.Nodup
import AdvancedOSLab.Framework.LinkedList

/-!
# The registration of TinyFile clients

The server has one thread that reads the queue on which clients register and unregister
(`register_client_handler`). A client that registers takes one of `n_sms` shared memories and gets a
node at the end of the list of clients; when it unregisters, the node is taken out and freed. If a
client registers while no shared memory is left, the thread reports an error and waits until there
is one. But it is the thread itself that gives shared memories back, so it waits forever; and it has
already taken the message off the queue, so that the client would not be registered if it went on.

## The model

`Server` is what the thread works on. The list of clients is a doubly linked list on a heap. `turn`
is one turn of the loop of the thread, or one turn of the loop in which it waits. The system calls
that registering and unregistering make are taken to succeed, and the thread is not told to exit.

## The result

`Processes n msgs` says that after some number of turns the queue is empty, the thread is back at
its head, and the list holds the clients that `remain`. Below the limit every message takes one turn
(`Holds.turn_register`, `Holds.turn_unregister`). At the limit the thread is stuck, and it stays
stuck (`Stuck.turn`). So the messages are processed if and only if the limit is never reached when a
client registers (`processes_iff`).
-/

namespace OSLab

namespace TinyFile

namespace Registration

open LinkedList

/-- `enum client_register_command`. -/
inductive Command where
  | register
  | unregister
deriving DecidableEq, Repr

/-- The part of `client_register_message_entry_t` that the handler looks at. -/
structure Message where
  command : Command
  clientPid : ℤ
deriving DecidableEq, Repr

/-- The globals of the server that the handler uses, and where it is. A client is its pid. -/
structure Server where
  clientList : DList ℤ
  numSharedMemory : ℕ
  /-- the messages that were not received yet -/
  registerClientQueue : List Message
  /-- the handler is in the loop that waits for a shared memory -/
  waiting : Bool

/-- `unregister_client_from_server`. A pid that is not found is reported, and nothing happens. -/
def unregisterClientFromServer (clientPid : ℤ) (s : Server) : Option Server := do
  let node ← s.clientList.find fun pid => pid = clientPid
  match node with
  | none => some s
  | some node => do
    let clientList ← s.clientList.unlink node
    some { s with clientList := clientList, numSharedMemory := s.numSharedMemory + 1 }

/-- What `register_client_handler` does with a message that it has received. -/
def handle (msg : Message) (s : Server) : Option Server :=
  match msg.command with
  | .register =>
    if 0 < s.numSharedMemory then do
      let clientList ← s.clientList.append msg.clientPid
      some { s with clientList := clientList, numSharedMemory := s.numSharedMemory - 1 }
    else some { s with waiting := true }
  | .unregister => unregisterClientFromServer msg.clientPid s

/-- One turn of the loop that the handler is in. -/
def turn (s : Server) : Option Server :=
  if s.waiting then some (if s.numSharedMemory = 0 then s else { s with waiting := false })
  else
    match s.registerClientQueue with
    -- no message received
    | [] => some s
    | msg :: msgs => handle msg { s with registerClientQueue := msgs }

/-- Some turns. -/
def turns : ℕ → Server → Option Server
  | 0, s => some s
  | k + 1, s => (turn s).bind (turns k)

/-- The server with `n` shared memories and nobody registered, in front of a sequence of
messages. -/
def start (n : ℕ) (msgs : List Message) : Server where
  clientList := .empty
  numSharedMemory := n
  registerClientQueue := msgs
  waiting := false

/-! ### What is expected -/

/-- The pids that register, in this order. -/
def registering (msgs : List Message) : List ℤ :=
  (msgs.filter fun msg => msg.command = .register).map Message.clientPid

/-- The clients that register and do not unregister, in the order in which they register. -/
def remaining (msgs : List Message) : List ℤ :=
  (registering msgs).filter fun pid => ⟨.unregister, pid⟩ ∉ msgs

/-- The pids that register are different, and a client unregisters only after it has registered;
`seen` are the pids that have registered before. -/
def OrderedFrom : List ℤ → List Message → Prop
  | _, [] => True
  | seen, ⟨.register, pid⟩ :: msgs => pid ∉ seen ∧ OrderedFrom (seen ++ [pid]) msgs
  | seen, ⟨.unregister, pid⟩ :: msgs => pid ∈ seen ∧ OrderedFrom seen msgs

/-- A sequence of messages from clients with different pids. -/
def Ordered (msgs : List Message) : Prop := OrderedFrom [] msgs

/-- The handler processes all messages, and the list then holds the clients that remain. -/
def Processes (n : ℕ) (msgs : List Message) : Prop :=
  ∃ k s, turns k (start n msgs) = some s ∧ s.registerClientQueue = [] ∧ s.waiting = false ∧
    s.clientList.values = some (remaining msgs)

/-- Whenever a client registers, fewer than `n` clients are registered. -/
def BelowLimit (n : ℕ) (msgs : List Message) : Prop :=
  ∀ j < msgs.length, ∀ msg ∈ msgs[j]?, msg.command = .register →
    (remaining (msgs.take j)).length < n

variable {s : Server} {n k : ℕ} {pid : ℤ} {seen pids : List ℤ} {msg : Message}
  {msgs before rest : List Message}

theorem registering_append (msgs msgs' : List Message) :
    registering (msgs ++ msgs') = registering msgs ++ registering msgs' := by
  simp [registering]

@[simp] theorem registering_nil : registering [] = [] := rfl

@[simp] theorem registering_register (pid : ℤ) (msgs : List Message) :
    registering (⟨.register, pid⟩ :: msgs) = pid :: registering msgs := rfl

@[simp] theorem registering_unregister (pid : ℤ) (msgs : List Message) :
    registering (⟨.unregister, pid⟩ :: msgs) = registering msgs := rfl

theorem orderedFrom_append : OrderedFrom seen (before ++ rest) ↔
    OrderedFrom seen before ∧ OrderedFrom (seen ++ registering before) rest := by
  induction before generalizing seen with
  | nil => simp [OrderedFrom]
  | cons msg before ih =>
    obtain ⟨command, pid⟩ := msg
    cases command with
    | register =>
      rw [List.cons_append, OrderedFrom, OrderedFrom, ih, registering_register, List.append_assoc,
        List.singleton_append, and_assoc]
    | unregister =>
      rw [List.cons_append, OrderedFrom, OrderedFrom, ih, registering_unregister, and_assoc]

/-- In an ordered sequence no pid registers twice. -/
theorem OrderedFrom.nodup (h : OrderedFrom seen msgs) (hseen : seen.Nodup) :
    (seen ++ registering msgs).Nodup := by
  induction msgs generalizing seen with
  | nil => simpa using hseen
  | cons msg msgs ih =>
    obtain ⟨command, pid⟩ := msg
    cases command with
    | register =>
      rw [registering_register, ← List.singleton_append, ← List.append_assoc]
      refine ih h.2 (List.nodup_append.mpr ⟨hseen, List.nodup_singleton pid, ?_⟩)
      intro a ha b hb hab
      obtain rfl := List.mem_singleton.mp hb
      exact h.1 (hab ▸ ha)
    | unregister => exact ih h.2 hseen

/-- In an ordered sequence only pids that have registered unregister. -/
theorem OrderedFrom.mem_of_unregister (h : OrderedFrom seen msgs)
    (hmem : ⟨.unregister, pid⟩ ∈ msgs) : pid ∈ seen ++ registering msgs := by
  induction msgs generalizing seen with
  | nil => exact absurd hmem List.not_mem_nil
  | cons msg msgs ih =>
    obtain ⟨command, pid'⟩ := msg
    cases command with
    | register =>
      have htail : ⟨.unregister, pid⟩ ∈ msgs := by simpa using hmem
      rw [registering_register, ← List.singleton_append, ← List.append_assoc]
      exact ih h.2 htail
    | unregister =>
      obtain heq | htail := List.mem_cons.mp hmem
      · obtain rfl : pid = pid' := congrArg Message.clientPid heq
        exact List.mem_append_left _ h.1
      · exact ih h.2 htail

/-- A client that registers is the last one of those that remain. -/
theorem remaining_register (h : Ordered (before ++ [⟨.register, pid⟩])) :
    remaining (before ++ [⟨.register, pid⟩]) = remaining before ++ [pid] := by
  obtain ⟨hbefore, hlast⟩ := orderedFrom_append.mp h
  -- it has not unregistered before
  have hnot : ⟨.unregister, pid⟩ ∉ before := fun hmem => hlast.1 (hbefore.mem_of_unregister hmem)
  simp [remaining, registering_append, hnot]

/-- A client that unregisters does not remain. -/
theorem remaining_unregister (h : Ordered (before ++ [⟨.unregister, pid⟩])) :
    remaining (before ++ [⟨.unregister, pid⟩]) = (remaining before).erase pid := by
  obtain ⟨hbefore, -⟩ := orderedFrom_append.mp h
  have hnodup : (registering before).Nodup := hbefore.nodup List.nodup_nil
  have hremaining : (remaining before).Nodup := hnodup.filter _
  rw [hremaining.erase_eq_filter, remaining, remaining, List.filter_filter, registering_append,
    registering_unregister, registering_nil, List.append_nil]
  refine List.filter_congr fun a _ => ?_
  simp [and_comm, bne, beq_eq_decide]

/-! ### The turns of the handler -/

/-- The list of clients holds the given pids, and the rest of the `n` shared memories is free. -/
structure Holds (s : Server) (n : ℕ) (pids : List ℤ) : Prop where
  represents : ∃ cells, Represents s.clientList cells ∧ cells.map Prod.snd = pids
  counter : s.numSharedMemory + pids.length = n
  active : s.waiting = false

/-- The handler waits for a shared memory, and there is none. -/
def Stuck (s : Server) : Prop := s.waiting = true ∧ s.numSharedMemory = 0

/-- Nothing changes anymore: nobody else gives shared memories back. -/
theorem Stuck.turn (h : Stuck s) : turn s = some s := by
  rw [Registration.turn, if_pos h.1, if_pos h.2]

theorem Stuck.turns (h : Stuck s) (k : ℕ) : turns k s = some s := by
  induction k with
  | zero => rfl
  | succ k ih => rw [Registration.turns, h.turn, Option.bind_some, ih]

theorem turns_add (j k : ℕ) (s : Server) : turns (j + k) s = (turns j s).bind (turns k) := by
  induction j generalizing s with
  | zero => rw [Nat.zero_add, turns, Option.bind_some]
  | succ j ih =>
    rw [Nat.succ_add, turns, turns, Option.bind_assoc]
    exact congrArg _ (funext ih)

theorem turn_of_active (hactive : s.waiting = false)
    (hqueue : s.registerClientQueue = msg :: msgs) :
    turn s = handle msg { s with registerClientQueue := msgs } := by
  rw [turn, hactive, hqueue]
  rfl

/-- A client gets a shared memory and a node at the end of the list. -/
theorem Holds.turn_register (h : Holds s n pids) (hlt : pids.length < n)
    (hqueue : s.registerClientQueue = ⟨.register, pid⟩ :: msgs) :
    ∃ s', turn s = some s' ∧ Holds s' n (pids ++ [pid]) ∧ s'.registerClientQueue = msgs := by
  obtain ⟨⟨cells, hcells, rfl⟩, hcounter, hactive⟩ := h
  obtain ⟨clientList, happend, hcells'⟩ := hcells.append pid
  have hfree : 0 < s.numSharedMemory := by omega
  have hturn : turn s = some { s with
      registerClientQueue := msgs
      clientList := clientList
      numSharedMemory := s.numSharedMemory - 1 } := by
    simp only [turn_of_active hactive hqueue, handle, if_pos hfree, happend, Option.bind_eq_bind,
      Option.bind_some]
  refine ⟨_, hturn, ⟨⟨_, hcells', by simp⟩, ?_, hactive⟩, rfl⟩
  rw [List.length_append, List.length_singleton]
  show s.numSharedMemory - 1 + _ = n
  omega

/-- At the limit the handler starts to wait, with the message in its hands. -/
theorem Holds.turn_wait (h : Holds s n pids) (hle : n ≤ pids.length)
    (hqueue : s.registerClientQueue = ⟨.register, pid⟩ :: msgs) :
    turn s = some { s with registerClientQueue := msgs, waiting := true } ∧
      s.numSharedMemory = 0 := by
  obtain ⟨-, hcounter, hactive⟩ := h
  have hnone : s.numSharedMemory = 0 := by omega
  exact ⟨by simp [turn_of_active hactive hqueue, handle, hnone], hnone⟩

/-- At the limit the handler gets stuck. -/
theorem Holds.turn_full (h : Holds s n pids) (hle : n ≤ pids.length)
    (hqueue : s.registerClientQueue = ⟨.register, pid⟩ :: msgs) :
    ∃ s', turn s = some s' ∧ Stuck s' := by
  obtain ⟨hturn, hnone⟩ := h.turn_wait hle hqueue
  exact ⟨_, hturn, rfl, hnone⟩

/-- A client that unregisters gives its shared memory back and leaves the list. -/
theorem Holds.turn_unregister (h : Holds s n pids)
    (hqueue : s.registerClientQueue = ⟨.unregister, pid⟩ :: msgs) :
    ∃ s', turn s = some s' ∧ Holds s' n (pids.erase pid) ∧ s'.registerClientQueue = msgs := by
  obtain ⟨⟨cells, hcells, rfl⟩, hcounter, hactive⟩ := h
  have hfind := hcells.find fun pid' => pid' = pid
  have hturn : turn s = unregisterClientFromServer pid { s with registerClientQueue := msgs } := by
    rw [turn_of_active hactive hqueue]
    rfl
  cases hcell : cells.find? (fun c => c.2 = pid) with
  | none =>
    -- nobody has this pid
    have hnot : pid ∉ cells.map Prod.snd := by
      intro hmem
      obtain ⟨c, hc, rfl⟩ := List.mem_map.mp hmem
      exact List.find?_eq_none.mp hcell c hc (by simp)
    rw [hcell, Option.map_none] at hfind
    have hsame : turn s = some { s with registerClientQueue := msgs } := by
      simp only [hturn, unregisterClientFromServer, hfind, Option.bind_eq_bind, Option.bind_some]
    exact ⟨_, hsame, ⟨⟨cells, hcells, (List.erase_of_not_mem hnot).symm⟩,
      by rwa [List.erase_of_not_mem hnot], hactive⟩, rfl⟩
  | some c =>
    obtain ⟨a, pid'⟩ := c
    obtain ⟨hpid, front, back, rfl, hfront⟩ := List.find?_eq_some_iff_append.mp hcell
    obtain rfl : pid' = pid := by simpa using hpid
    rw [hcell, Option.map_some] at hfind
    obtain ⟨clientList, hunlink, hcells'⟩ := hcells.unlink
    have hleft : turn s = some { s with
        registerClientQueue := msgs
        clientList := clientList
        numSharedMemory := s.numSharedMemory + 1 } := by
      simp only [hturn, unregisterClientFromServer, hfind, hunlink, Option.bind_eq_bind,
        Option.bind_some]
    -- it is the first node with this pid that is taken out
    have hnot : pid' ∉ front.map Prod.snd := by
      intro hmem
      obtain ⟨c, hc, heq⟩ := List.mem_map.mp hmem
      simpa [heq] using hfront c hc
    have herase : ((front ++ (a, pid') :: back).map Prod.snd).erase pid'
        = (front ++ back).map Prod.snd := by
      rw [List.map_append, List.map_cons, List.erase_append_right _ hnot, List.erase_cons_head,
        ← List.map_append]
    refine ⟨_, hleft, ⟨⟨_, hcells', herase.symm⟩, ?_, hactive⟩, rfl⟩
    rw [herase]
    simp only [List.length_map, List.length_append, List.length_cons] at hcounter ⊢
    omega

/-- What the handler does with the next message: it processes it in one turn, unless a client
registers at the limit. -/
theorem Holds.turn (h : Holds s n (remaining before)) (hordered : Ordered (before ++ msg :: rest))
    (hqueue : s.registerClientQueue = msg :: rest) :
    (∃ s', turn s = some s' ∧ Holds s' n (remaining (before ++ [msg])) ∧
        s'.registerClientQueue = rest ∧
        (msg.command = .register → (remaining before).length < n)) ∨
      (msg.command = .register ∧ n ≤ (remaining before).length ∧
        ∃ s', turn s = some s' ∧ Stuck s') := by
  have hfirst : Ordered (before ++ [msg]) := by
    rw [← List.singleton_append, ← List.append_assoc] at hordered
    exact (orderedFrom_append.mp hordered).1
  obtain ⟨command, pid⟩ := msg
  cases command with
  | register =>
    obtain hlt | hle := Nat.lt_or_ge (remaining before).length n
    · obtain ⟨s', hturn, hholds, hqueue'⟩ := h.turn_register hlt hqueue
      exact .inl ⟨s', hturn, remaining_register hfirst ▸ hholds, hqueue', fun _ => hlt⟩
    · exact .inr ⟨rfl, hle, h.turn_full hle hqueue⟩
  | unregister =>
    obtain ⟨s', hturn, hholds, hqueue'⟩ := h.turn_unregister hqueue
    exact .inl ⟨s', hturn, remaining_unregister hfirst ▸ hholds, hqueue', by simp⟩

/-! ### All messages -/

/-- Below the limit, every message takes one turn. -/
theorem Holds.processes (h : Holds s n (remaining before)) (hmsgs : msgs = before ++ rest)
    (hordered : Ordered msgs) (hbelow : BelowLimit n msgs) (hqueue : s.registerClientQueue = rest) :
    ∃ s', turns rest.length s = some s' ∧ s'.registerClientQueue = [] ∧ s'.waiting = false ∧
      s'.clientList.values = some (remaining msgs) := by
  induction rest generalizing before s with
  | nil =>
    rw [List.append_nil] at hmsgs
    obtain ⟨cells, hcells, hpids⟩ := h.represents
    exact ⟨s, rfl, hqueue, h.active, by rw [hcells.values, hpids, hmsgs]⟩
  | cons msg rest ih =>
    obtain ⟨s₁, hturn, hholds, hqueue₁, -⟩ | ⟨hregister, hle, -⟩ := h.turn (hmsgs ▸ hordered) hqueue
    · obtain ⟨s', hturns, hs'⟩ := ih hholds (by rw [hmsgs, List.append_assoc]; rfl) hqueue₁
      refine ⟨s', ?_, hs'⟩
      rw [List.length_cons, turns, hturn, Option.bind_some, hturns]
    · -- the message stands behind those in `before`
      have hlt := hbelow before.length (by simp [hmsgs]) msg (by simp [hmsgs]) hregister
      rw [hmsgs, List.take_left] at hlt
      exact absurd hlt (Nat.not_lt.mpr hle)

/-- The handler is stuck, or it will be when it comes to the message at position `j`. -/
def Doomed (n : ℕ) (msgs : List Message) (j : ℕ) (s : Server) : Prop :=
  Stuck s ∨ ∃ before, before.length ≤ j ∧ msgs = before ++ s.registerClientQueue ∧
    Holds s n (remaining before)

theorem Doomed.turn {j : ℕ} (h : Doomed n msgs j s) (hordered : Ordered msgs)
    (hmsg : msgs[j]? = some msg) (hregister : msg.command = .register)
    (hfull : n ≤ (remaining (msgs.take j)).length) :
    ∃ s', turn s = some s' ∧ Doomed n msgs j s' := by
  obtain hstuck | ⟨before, hbefore, hmsgs, hholds⟩ := h
  · exact ⟨s, hstuck.turn, .inl hstuck⟩
  cases hqueue : s.registerClientQueue with
  | nil =>
    -- position `j` is still ahead
    have hj : j < msgs.length := (List.getElem?_eq_some_iff.mp hmsg).1
    rw [hmsgs, hqueue, List.append_nil] at hj
    omega
  | cons next rest =>
    rw [hqueue] at hmsgs
    obtain ⟨s', hturn, hholds', hqueue', hlt⟩ | ⟨-, -, s', hturn, hstuck⟩ :=
      hholds.turn (hmsgs ▸ hordered) hqueue
    · refine ⟨s', hturn, .inr ⟨before ++ [next], ?_, ?_, hholds'⟩⟩
      · rw [List.length_append, List.length_singleton]
        refine Nat.lt_of_le_of_ne hbefore ?_
        rintro rfl
        -- a client that registers at the limit is not processed
        rw [hmsgs, List.getElem?_append_right le_rfl, Nat.sub_self] at hmsg
        obtain rfl : next = msg := by simpa using hmsg
        rw [hmsgs, List.take_left] at hfull
        exact absurd (hlt hregister) (Nat.not_lt.mpr hfull)
      · rw [hqueue', hmsgs, List.append_assoc, List.singleton_append]
    · exact ⟨s', hturn, .inl hstuck⟩

theorem Doomed.turns {j : ℕ} (h : Doomed n msgs j s) (hordered : Ordered msgs)
    (hmsg : msgs[j]? = some msg) (hregister : msg.command = .register)
    (hfull : n ≤ (remaining (msgs.take j)).length) (k : ℕ) :
    ∃ s', turns k s = some s' ∧ Doomed n msgs j s' := by
  induction k generalizing s with
  | zero => exact ⟨s, rfl, h⟩
  | succ k ih =>
    obtain ⟨s₁, hturn, h₁⟩ := h.turn hordered hmsg hregister hfull
    obtain ⟨s', hturns, h'⟩ := ih h₁
    exact ⟨s', by rw [Registration.turns, hturn, Option.bind_some, hturns], h'⟩

theorem holds_start (n : ℕ) (msgs : List Message) : Holds (start n msgs) n (remaining []) :=
  ⟨⟨[], .empty, rfl⟩, rfl, rfl⟩

/-- A client that registers at the limit stops the handler. -/
theorem not_processes_of_full {j : ℕ} (hordered : Ordered msgs) (hmsg : msgs[j]? = some msg)
    (hregister : msg.command = .register) (hfull : n ≤ (remaining (msgs.take j)).length) :
    ¬ Processes n msgs := by
  rintro ⟨k, s, hturns, hqueue, hactive, -⟩
  have hdoomed : Doomed n msgs j (start n msgs) :=
    .inr ⟨[], Nat.zero_le j, rfl, holds_start n msgs⟩
  obtain ⟨s', hturns', h'⟩ := hdoomed.turns hordered hmsg hregister hfull k
  obtain rfl := Option.some.inj (hturns.symm.trans hturns')
  obtain hstuck | ⟨before, hbefore, hmsgs, -⟩ := h'
  · exact absurd (hstuck.1.symm.trans hactive) (by simp)
  · have hj : j < msgs.length := (List.getElem?_eq_some_iff.mp hmsg).1
    rw [hmsgs, hqueue, List.append_nil] at hj
    omega

/-- **The handler processes all messages exactly if it never has to wait.** For every number of
shared memories and every sequence of messages from clients with different pids, each unregistering
after registering: all messages are processed, and the list then holds the clients that registered
and did not unregister in the order in which they registered, if and only if fewer than `n` clients
are registered whenever one registers. -/
theorem processes_iff (n : ℕ) (msgs : List Message) (hordered : Ordered msgs) :
    Processes n msgs ↔ BelowLimit n msgs := by
  constructor
  · intro hprocesses j _ msg hmsg hregister
    by_contra hfull
    exact not_processes_of_full hordered hmsg hregister (Nat.not_lt.mp hfull) hprocesses
  · intro hbelow
    obtain ⟨s, hturns, hs⟩ := (holds_start n msgs).processes rfl hordered hbelow rfl
    exact ⟨msgs.length, s, hturns, hs⟩

/-- Two shared memories for three clients, one of which has left when the third one comes. -/
theorem processes_three :
    Processes 2 [⟨.register, 7⟩, ⟨.register, 8⟩, ⟨.unregister, 7⟩, ⟨.register, 9⟩] ∧
      remaining [⟨.register, 7⟩, ⟨.register, 8⟩, ⟨.unregister, 7⟩, ⟨.register, 9⟩] = [8, 9] := by
  refine ⟨(processes_iff 2 _ ?_).mpr ?_, by decide⟩
  · simp [Ordered, OrderedFrom]
  · unfold BelowLimit
    decide

/-- One shared memory for two clients. The second one is taken off the queue and not registered, and
the handler waits forever in front of the message with which the first one unregisters. -/
theorem second_client_is_lost :
    ¬ Processes 1 [⟨.register, 7⟩, ⟨.register, 8⟩, ⟨.unregister, 7⟩] ∧
      ∃ s, (∀ k, turns (2 + k) (start 1 [⟨.register, 7⟩, ⟨.register, 8⟩, ⟨.unregister, 7⟩]) =
          some s) ∧
        s.waiting = true ∧ s.registerClientQueue = [⟨.unregister, 7⟩] ∧
        s.clientList.values = some [7] := by
  have hordered : Ordered [⟨.register, 7⟩, ⟨.register, 8⟩, ⟨.unregister, 7⟩] := by
    simp [Ordered, OrderedFrom]
  refine ⟨not_processes_of_full (j := 1) hordered rfl rfl (by decide), ?_⟩
  have hrun : (turns 2 (start 1 [⟨.register, 7⟩, ⟨.register, 8⟩, ⟨.unregister, 7⟩])).any
      (fun s => decide ((s.waiting = true ∧ s.numSharedMemory = 0) ∧
        s.registerClientQueue = [⟨.unregister, 7⟩] ∧ s.clientList.values = some [7])) = true := by
    decide +kernel
  obtain ⟨s, hturns, hs⟩ := (Option.any_eq_true _ _).mp hrun
  obtain ⟨hstuck, hqueue, hvalues⟩ : (s.waiting = true ∧ s.numSharedMemory = 0) ∧
      s.registerClientQueue = [⟨.unregister, 7⟩] ∧ s.clientList.values = some [7] :=
    of_decide_eq_true hs
  refine ⟨s, fun k => ?_, hstuck.1, hqueue, hvalues⟩
  rw [turns_add, hturns, Option.bind_some, Stuck.turns hstuck]

end Registration

end TinyFile

end OSLab
