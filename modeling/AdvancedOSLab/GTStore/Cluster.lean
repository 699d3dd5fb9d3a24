import AdvancedOSLab.Framework.System
import AdvancedOSLab.GTStore.Placement

/-!
# A GTStore cluster

The storage nodes of a cluster, their two listen queues and the clients, as one
labelled system. A step is one of the following.

* `start`: a client that has no unfinished call begins a `put` or a `get`. Its
  dead list may be any list of nodes that have crashed.
* `connect`: the next turn of the retry loop of a call. A connection to a node
  that is alive is queued there together with the request; a connection to a
  crashed node fails and the loop moves on; without attempts left the call fails.
* `notice`: a call whose node crashed before it answered receives nothing and
  moves on.
* `iterate`: one iteration of the main loop of `GTStoreStorage::run`. It serves
  the first client connection of the queue (`serve`), then takes at most one
  connection of the node-to-node queue (`takeReplication`).
* `crash`: a node stops for good.

A text that does not fit the buffer it is received into is cut there, and its
terminator is written past the end of that buffer. The source leaves that undefined,
and here there is no such step: results that depend on a node serving its calls ask
for texts that fit (`Op.Fits`).

A node crashes between two iterations, never inside of one, and the listen queues have
no bound. In the source a `connect` to a node whose queue is full waits, so the runs
here are those in which no queue fills up.

Three components are not part of the program: the step counter `clock`, from
which calls take the stamps of their start and return, the list `handled` of the
calls each node has served, and the list `written` of the calls whose value each
node has stored under each key.

Results about every interleaving go through `Micro`: it says once what a step
can do, with the two halves of an iteration apart, and is parametrised by a
`Policy` that restricts what the environment may do. `reached_of_reachable` is
the link back to the labelled system.
-/

namespace OSLab
namespace GTStore
namespace Cluster

open Text Bytes

/-! ### States -/

/-- A cluster whose setup messages fit the buffers of the nodes. -/
structure Config where
  numNodes : ℕ
  numReplicas : ℕ
  one_le : 1 ≤ numReplicas
  le : numReplicas ≤ numNodes
  fits : ∀ i < numNodes, SetupFits numNodes numReplicas i

/-- Two nodes, each the replica of the other. -/
def pairConfig : Config := ⟨2, 2, by decide, by decide, by decide⟩

/-- Two nodes without replicas. -/
def apartConfig : Config := ⟨2, 1, by decide, by decide, by decide⟩

/-- Where a call is: in front of its next connection with `left` attempts to go,
waiting for the answer of a node with `left` more attempts to go, or back with a
result at a time. -/
inductive Phase where
  | trying (node left : ℕ)
  | waiting (node left : ℕ)
  | done (result : Result) (time : ℕ)
  deriving DecidableEq

def Phase.isDone : Phase → Bool
  | .done _ _ => true
  | _ => false

/-- A call of a client. Calls are named by their position in the list of all
calls. -/
structure Invocation where
  client : ℕ
  op : Op
  startedAt : ℕ
  phase : Phase
  deriving DecidableEq

/-- A node-to-node connection: its message, and the call it was sent for. -/
structure Replication where
  msg : Bytes
  origin : ℕ

structure State where
  clock : ℕ
  node : ℕ → Node
  crashed : ℕ → Bool
  clientQueue : ℕ → List ℕ
  nodeQueue : ℕ → List Replication
  calls : List Invocation
  handled : ℕ → List Op
  written : ℕ → Bytes → List ℕ

/-- Every node has connected to the manager, and nothing has happened since. -/
def initial (cfg : Config) : State where
  clock := 0
  node := fun i => (connectToManager cfg.numNodes cfg.numReplicas i).getD ⟨[], [], fun _ => none⟩
  crashed := fun _ => false
  clientQueue := fun _ => []
  nodeQueue := fun _ => []
  calls := []
  handled := fun _ => []
  written := fun _ _ => []

/-! ### What the steps do -/

/-- Note that node `n` has stored the value of call `i` under `key`. -/
def recordWrite (written : ℕ → Bytes → List ℕ) (n : ℕ) (key : Bytes) (i : ℕ) :
    ℕ → Bytes → List ℕ :=
  Function.update written n (Function.update (written n) key (written n key ++ [i]))

/-- The loop over `replica_node_addresses`: the connection is queued at every
replica that still listens. -/
def sendReplication (N : ℕ) (crashed : ℕ → Bool) (replicaNodeAddresses : List Bytes)
    (r : Replication) (queue : ℕ → List Replication) : ℕ → List Replication :=
  replicaNodeAddresses.foldl (fun q replicaPath =>
    match listener N replicaPath with
    | some m => if crashed m then q else Function.update q m (q m ++ [r])
    | none => q) queue

namespace State

variable (s : State)

/-- The call a node takes next. -/
def nextCall (n : ℕ) : Option Invocation := (s.clientQueue n).head?.bind fun i => s.calls[i]?

def setPhase (i : ℕ) (c : Invocation) (phase : Phase) : State :=
  { s with calls := s.calls.set i { c with phase := phase }, clock := s.clock + 1 }

/-- A client starts a call. -/
def started (cfg : Config) (client : ℕ) (op : Op) (dead : List ℕ) : State :=
  let first := skipDead cfg.numNodes dead (hashNode cfg.numNodes op.key) cfg.numReplicas
  { s with
    calls := s.calls ++ [⟨client, op, s.clock, .trying first.1 first.2⟩]
    clock := s.clock + 1 }

/-- The connection of call `i` is queued at node `n`. -/
def connected (i : ℕ) (c : Invocation) (n left : ℕ) : State :=
  { s.setPhase i c (.waiting n left) with
    clientQueue := Function.update s.clientQueue n (s.clientQueue n ++ [i]) }

/-- Node `n` has served call `i`, the first of its queue: `received` is the
request as the node sees it and `answer` the reply as the client sees it. -/
def served (N n i : ℕ) (rest : List ℕ) (c : Invocation) (received answer : Bytes) : State :=
  { s.setPhase i c (.done (c.op.result answer) s.clock) with
    node := Function.update s.node n (handleClientMessage (s.node n) received).node
    clientQueue := Function.update s.clientQueue n rest
    nodeQueue :=
      (handleClientMessage (s.node n) received).replication.elim s.nodeQueue fun msg =>
        sendReplication N s.crashed (s.node n).replicaNodeAddresses ⟨msg, i⟩ s.nodeQueue
    -- the history of the run, which the program does not keep
    handled := Function.update s.handled n (s.handled n ++ [c.op])
    written := (storedBy received).elim s.written fun kv => recordWrite s.written n kv.1 i }

/-- Node `n` has taken the first connection of its node-to-node queue. -/
def replicated (n : ℕ) (r : Replication) (rest : List Replication) (received : Bytes) : State :=
  { s with
    node := Function.update s.node n (handleReplicaMessage (s.node n) received)
    nodeQueue := Function.update s.nodeQueue n rest
    written := recordWrite s.written n (parseKeyValue received).1 r.origin }

/-- Node `n` has crashed. -/
def stopped (n : ℕ) : State :=
  { s with crashed := Function.update s.crashed n true, clock := s.clock + 1 }

end State

/-- The client half of an iteration of node `n`. -/
def serve (cfg : Config) (n : ℕ) (s : State) : Option State :=
  match s.clientQueue n with
  | [] => none
  | i :: rest => do
    let c ← s.calls[i]?
    match c.phase with
    | .waiting m _ =>
      -- a call turns away from a node only after that node crashed, so `m` is `n`
      if m = n then do
        -- a text that is longer than its buffer has no step, on either side
        let received ← recvString nodeClientSocketBufferSize c.op.request
        let reply ← (handleClientMessage (s.node n) received).reply
        let answer ← recvString nodeClientSocketBufferSize reply
        some (s.served cfg.numNodes n i rest c received answer)
      else none
    | _ => none

/-- The node-to-node half of an iteration of node `n`, whose `accept` does not
wait. -/
def takeReplication (n : ℕ) (s : State) : Option State :=
  match s.nodeQueue n with
  | [] => some s
  | r :: rest => do
    let received ← recvString nodeNodeSocketBufferSize r.msg
    some (s.replicated n r rest received)

/-- The next turn of the retry loop of call `i`. -/
def connect (cfg : Config) (i : ℕ) (s : State) : Option State := do
  let c ← s.calls[i]?
  match c.phase with
  | .trying _ 0 =>
    -- the loop is over: `put` returns false, and `get` the error value
    some (s.setPhase i c (.done c.op.failure s.clock))
  | .trying n (left + 1) =>
    if s.crashed n then some (s.setPhase i c (.trying ((n + 1) % cfg.numNodes) left))
    else some (s.connected i c n left)
  | _ => none

/-- The client of call `i` finds the connection to its node closed. -/
def notice (cfg : Config) (i : ℕ) (s : State) : Option State := do
  let c ← s.calls[i]?
  match c.phase with
  | .waiting n left =>
    if s.crashed n then some (s.setPhase i c (.trying ((n + 1) % cfg.numNodes) left))
    else none
  | _ => none

inductive Label where
  | start (client : ℕ) (op : Op) (dead : List ℕ)
  | connect (i : ℕ)
  | notice (i : ℕ)
  | iterate (n : ℕ)
  | crash (n : ℕ)

/-- The cluster as a labelled system. -/
def cluster (cfg : Config) : System State Label where
  init := initial cfg
  step s
    | .start client op dead =>
      -- a client makes one call at a time, and its dead list names nodes that it saw fail
      if (∀ c ∈ s.calls, c.client = client → c.phase.isDone) ∧ ∀ d ∈ dead, s.crashed d then
        some (s.started cfg client op dead)
      else none
    | .connect i => connect cfg i s
    | .notice i => notice cfg i s
    | .iterate n =>
      -- the `accept` of the client socket waits: an iteration starts with a client
      if n < cfg.numNodes ∧ s.crashed n = false then (serve cfg n s).bind (takeReplication n)
      else none
    | .crash n => some (s.stopped n)

/-! ### What a step can do -/

/-- What the environment may do: which calls may start, which calls a node may
take, and which nodes may crash. -/
structure Policy where
  start : State → Op → Prop
  serve : State → ℕ → Invocation → Prop
  crash : State → ℕ → Prop

/-- The labels a policy allows. -/
def Policy.allows (P : Policy) (s : State) : Label → Prop
  | .start _ op _ => P.start s op
  | .iterate n => ∀ c ∈ s.nextCall n, P.serve s n c
  | .crash n => P.crash s n
  | _ => True

/-- The changes that steps are made of. An iteration is `served`, then possibly
`replicated`; every other step is one change. -/
inductive Micro (cfg : Config) (P : Policy) (s : State) : State → Prop
  | start (client : ℕ) (op : Op) (dead : List ℕ) (hdead : ∀ d ∈ dead, s.crashed d)
      (hP : P.start s op) : Micro cfg P s (s.started cfg client op dead)
  | exhausted (i : ℕ) (c : Invocation) (n : ℕ) (hc : s.calls[i]? = some c)
      (hph : c.phase = .trying n 0) :
      Micro cfg P s (s.setPhase i c (.done c.op.failure s.clock))
  | movedOn (i : ℕ) (c : Invocation) (n left : ℕ) (hc : s.calls[i]? = some c)
      (hph : c.phase = .trying n (left + 1) ∨ c.phase = .waiting n left)
      (hdown : s.crashed n = true) :
      Micro cfg P s (s.setPhase i c (.trying ((n + 1) % cfg.numNodes) left))
  | connected (i : ℕ) (c : Invocation) (n left : ℕ) (hc : s.calls[i]? = some c)
      (hph : c.phase = .trying n (left + 1)) (hup : s.crashed n = false) :
      Micro cfg P s (s.connected i c n left)
  | served (n i : ℕ) (rest : List ℕ) (c : Invocation) (left : ℕ) (received reply answer : Bytes)
      (hn : n < cfg.numNodes) (hup : s.crashed n = false) (hq : s.clientQueue n = i :: rest)
      (hc : s.calls[i]? = some c) (hph : c.phase = .waiting n left)
      (hrecv : recvString nodeClientSocketBufferSize c.op.request = some received)
      (hreply : (handleClientMessage (s.node n) received).reply = some reply)
      (hanswer : recvString nodeClientSocketBufferSize reply = some answer)
      (hP : P.serve s n c) : Micro cfg P s (s.served cfg.numNodes n i rest c received answer)
  | replicated (n : ℕ) (r : Replication) (rest : List Replication) (received : Bytes)
      (hq : s.nodeQueue n = r :: rest)
      (hrecv : recvString nodeNodeSocketBufferSize r.msg = some received) :
      Micro cfg P s (s.replicated n r rest received)
  | crash (n : ℕ) (hP : P.crash s n) : Micro cfg P s (s.stopped n)

/-- The states reached by such changes. -/
inductive Reached (cfg : Config) (P : Policy) : State → Prop
  | initial : Reached cfg P (initial cfg)
  | micro {s s' : State} (hr : Reached cfg P s) (h : Micro cfg P s s') : Reached cfg P s'

section Inversion

variable {cfg : Config} {P : Policy} {s s' : State}

theorem micro_of_connect {i : ℕ} (h : connect cfg i s = some s') : Micro cfg P s s' := by
  obtain ⟨c, hc, h⟩ := Option.bind_eq_some_iff.mp h
  split at h
  · next n hph =>
    obtain rfl := Option.some.inj h
    exact .exhausted i c n hc hph
  · next n left hph =>
    split at h
    · next hdown =>
      obtain rfl := Option.some.inj h
      exact .movedOn i c n left hc (.inl hph) hdown
    · next hup =>
      obtain rfl := Option.some.inj h
      exact .connected i c n left hc hph (by simpa using hup)
  · exact absurd h (by simp)

theorem micro_of_notice {i : ℕ} (h : notice cfg i s = some s') : Micro cfg P s s' := by
  obtain ⟨c, hc, h⟩ := Option.bind_eq_some_iff.mp h
  split at h
  · next n left hph =>
    split at h
    · next hdown =>
      obtain rfl := Option.some.inj h
      exact .movedOn i c n left hc (.inr hph) hdown
    · exact absurd h (by simp)
  · exact absurd h (by simp)

theorem micro_of_serve {n : ℕ} (hn : n < cfg.numNodes) (hup : s.crashed n = false)
    (hP : ∀ c ∈ s.nextCall n, P.serve s n c) (h : serve cfg n s = some s') :
    Micro cfg P s s' := by
  unfold serve at h
  split at h
  · exact absurd h (by simp)
  · next i rest hq =>
    obtain ⟨c, hc, h⟩ := Option.bind_eq_some_iff.mp h
    have hnext : c ∈ s.nextCall n := by
      unfold State.nextCall
      rw [hq]
      exact hc
    split at h
    · next m left hph =>
      split at h
      · next hm =>
        subst hm
        -- the request fits, the node answers, and the answer fits
        obtain ⟨received, hrecv, h⟩ := Option.bind_eq_some_iff.mp h
        obtain ⟨reply, hreply, h⟩ := Option.bind_eq_some_iff.mp h
        obtain ⟨answer, hanswer, h⟩ := Option.bind_eq_some_iff.mp h
        obtain rfl := Option.some.inj h
        exact .served m i rest c left received reply answer hn hup hq hc hph hrecv hreply hanswer
          (hP c hnext)
      · exact absurd h (by simp)
    · exact absurd h (by simp)

theorem micro_of_takeReplication {n : ℕ} (h : takeReplication n s = some s') :
    s' = s ∨ Micro cfg P s s' := by
  unfold takeReplication at h
  split at h
  · exact .inl (Option.some.inj h).symm
  · next r rest hq =>
    obtain ⟨received, hrecv, h⟩ := Option.bind_eq_some_iff.mp h
    obtain rfl := Option.some.inj h
    exact .inr (.replicated n r rest received hq hrecv)

/-- Every run of the labelled system is made of such changes. -/
theorem reached_of_reachable (hr : (cluster cfg).Reachable P.allows s) : Reached cfg P s := by
  refine System.Reachable.invariant .initial ?_ hr
  intro s l s' _ ih hP hstep
  cases l with
  | start client op dead =>
    replace hstep : (if _ then _ else none) = some s' := hstep
    split at hstep
    · next hcan =>
      obtain rfl := Option.some.inj hstep
      exact .micro ih (.start client op dead hcan.2 hP)
    · exact absurd hstep (by simp)
  | connect i => exact .micro ih (micro_of_connect hstep)
  | notice i => exact .micro ih (micro_of_notice hstep)
  | iterate n =>
    replace hstep : (if _ then _ else none) = some s' := hstep
    split at hstep
    · next hcan =>
      obtain ⟨s₁, hserve, htake⟩ := Option.bind_eq_some_iff.mp hstep
      have h₁ : Reached cfg P s₁ := .micro ih (micro_of_serve hcan.1 hcan.2 hP hserve)
      -- the second half finds the other queue empty, or makes one more change
      rcases micro_of_takeReplication htake with rfl | h
      · exact h₁
      · exact .micro h₁ h
    · exact absurd hstep (by simp)
  | crash n =>
    obtain rfl := Option.some.inj hstep
    exact .micro ih (.crash n hP)

end Inversion

end Cluster
end GTStore
end OSLab
