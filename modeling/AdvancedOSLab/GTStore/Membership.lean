import AdvancedOSLab.GTStore.Table

/-!
# What the manager remembers of dead nodes

A client that finds a node dead tells the manager, so that clients that come
later pass over the node from the start. This module follows a report through
the three processes: the text that `notify_manager_of_dead_nodes` builds, the
handler of the manager, and the table of the next client.

* `Manager.started` is the manager when all nodes have introduced themselves.
* `Manager.handle` is the body of the accept loop of
  `create_manager_client_socket`. The manager understands a report and
  acknowledges it (`handle_deadNodesMessage`).
* `Manager.tableAfter` is the table of a client that initialises after some
  connections.

The handler collects the ids of a report in a vector `dead_node_ids`. It is
declared in the branch, so it hides the global of this name, and the global list
that the answer to `INITIALIZE_CLIENT` is made from never changes
(`handle_manager`). So no report is ever remembered: `remembers_iff`.
-/

namespace OSLab
namespace GTStore

open Text Bytes

/-! ### The manager after its start -/

/-- The path on which the node with this process id listens for clients. -/
def nodeClientPath (pid : ℕ) : Bytes := ascii "/tmp/gtstore_node_client_socket_" ++ decimal pid

/-- A byte of the path is one of the prefix, or a digit. -/
theorem notMem_nodeClientPath {b : UInt8}
    (hpath : b ∉ ascii "/tmp/gtstore_node_client_socket_") (hdigit : isDigit b = false)
    (pid : ℕ) : b ∉ nodeClientPath pid := by
  unfold nodeClientPath
  rw [List.mem_append, not_or]
  exact ⟨hpath, notMem_decimal hdigit pid⟩

namespace Manager

/-- The manager when the nodes with these process ids have introduced themselves,
in the order of their connections. -/
def started (numRep : CInt) (pids : List ℕ) : Manager where
  numRep := numRep
  nodeAddressMap := pids.map fun pid =>
    ⟨nodeClientPath pid, notMem_nodeClientPath (by decide) (by decide) pid⟩
  deadNodeIds := []

/-- The table of a started manager can be told to clients. -/
theorem listable_started (numRep : CInt) {pids : List ℕ} (h : pids ≠ []) :
    (started numRep pids).Listable := by
  refine ⟨fun hnil => h (List.map_eq_nil_iff.mp hnil), fun address haddress => ?_,
    fun address haddress => ?_⟩
  · obtain ⟨pid, -, rfl⟩ := List.mem_map.mp haddress
    exact notMem_nodeClientPath (by decide) (by decide) pid
  · obtain ⟨pid, -, rfl⟩ := List.mem_map.mp haddress
    -- a path starts with a slash
    intro heq
    exact absurd (congrArg List.head? heq) (by simp [nodeClientPath, ascii])

/-! ### The handler -/

/-- The loop that reads the ids of a report. -/
def parseDeadNodes (deadNodesStr : Bytes) : Option (List ℤ) :=
  (split comma deadNodesStr).mapM stoi

/-- The vector `dead_node_ids` of the branch for reports, at its end: the ids
that were read, and once more those that are below `node_address_map.size()`.
The loop that appends them runs over the vector itself; it is taken to run over
the elements that the vector had when the loop started. -/
def localDeadNodeIds (m : Manager) (deadNodesStr : Bytes) : Option (List ℤ) :=
  (parseDeadNodes deadNodesStr).map fun deadNodeIds =>
    deadNodeIds ++ deadNodeIds.filter fun nodeId => 0 ≤ nodeId ∧ nodeId < m.nodeAddressMap.length

/-- One connection of a client: the reply, and the globals afterwards. -/
def handle (m : Manager) (msg : Bytes) : Option (Bytes × Manager) := do
  let receivedMsg ← recvString managerClientSocketBufferSize msg
  if receivedMsg = ascii "INITIALIZE_CLIENT" then some (m.initializeResponse, m)
  else if find (ascii "DEAD_NODES:") receivedMsg = some 0 then
    -- the vector of the branch goes out of scope here
    let _ ← m.localDeadNodeIds (receivedMsg.drop (ascii "DEAD_NODES:").length)
    some (ascii "DEAD_NODES_RECEIVED", m)
  else some (ascii "ERROR: Unknown message", m)

end Manager

/-- The message that `notify_manager_of_dead_nodes` builds. -/
def deadNodesMessage (deadNodes : List CInt) : Bytes :=
  ascii "DEAD_NODES:" ++ [comma].intercalate (deadNodes.map fun id => decimalInt id.val)

/-- What a client can connect to the manager for. -/
inductive Connection where
  | initializeClient
  | deadNodes (ids : List CInt)
  /-- some other message -/
  | other (msg : Bytes)
deriving DecidableEq

namespace Connection

/-- The message that the client sends. -/
def message : Connection → Bytes
  | initializeClient => ascii "INITIALIZE_CLIENT"
  | deadNodes ids => deadNodesMessage ids
  | other msg => msg

/-- The connection is a report of this node. -/
def reports : Connection → ℤ → Bool
  | deadNodes ids, id => ids.any fun deadNode => deadNode.val = id
  | _, _ => false

end Connection

namespace Manager

/-- The manager serves connections one after the other. -/
def serve (m : Manager) (connections : List Connection) : Option Manager :=
  connections.foldlM (fun m c => (m.handle c.message).map Prod.snd) m

/-- The table of a new client process that initialises after the connections. -/
def tableAfter (m : Manager) (connections : List Connection) : Option Table := do
  let m ← m.serve connections
  let (response, _) ← m.handle Connection.initializeClient.message
  Table.initial.init response

/-- Whenever a client initialises after a report of a node that exists, its table
has the node among the dead ones. -/
def Remembers (m : Manager) (connections : List Connection) : Prop :=
  ∀ j : ℕ, connections[j]? = some .initializeClient →
    ∀ id : ℕ, id < m.nodeAddressMap.length → (∃ c ∈ connections.take j, c.reports id) →
      ∃ t, m.tableAfter (connections.take j) = some t ∧ (id : ℤ) ∈ t.deadNodeIds

/-- Some client initialises after a report of one of the `N` nodes. -/
def AskedAfterReport (N : ℕ) (connections : List Connection) : Prop :=
  ∃ j < connections.length, connections[j]? = some .initializeClient ∧
    ∃ id < N, ∃ c ∈ connections.take j, c.reports id

instance (N : ℕ) (connections : List Connection) : Decidable (AskedAfterReport N connections) :=
  inferInstanceAs (Decidable (∃ j < connections.length, connections[j]? = some .initializeClient ∧
    ∃ id < N, ∃ c ∈ connections.take j, c.reports id))

/-! ### A report is understood and dropped -/

variable {m m' : Manager}

/-- The manager reads the ids that the client wrote. -/
theorem localDeadNodeIds_report (m : Manager) (deadNodes : List CInt) :
    m.localDeadNodeIds ([comma].intercalate (deadNodes.map fun id => decimalInt id.val))
      = some (deadNodes.map Subtype.val ++ (deadNodes.map Subtype.val).filter
          fun nodeId : ℤ => 0 ≤ nodeId ∧ nodeId < m.nodeAddressMap.length) := by
  -- neither digits nor a sign are separators
  have hsplit : split comma ([comma].intercalate (deadNodes.map fun id => decimalInt id.val))
      = deadNodes.map fun id => decimalInt id.val := by
    rw [intercalate_eq_dropLast_terminated]
    refine split_dropLast_terminated (fun x hx => ?_) fun x hx => ?_
    · obtain ⟨id, -, rfl⟩ := List.mem_map.mp hx
      exact notMem_decimalInt (by decide) (by decide) _
    · obtain ⟨id, -, rfl⟩ := List.mem_map.mp hx
      exact decimalInt_ne_nil _
  have hread : parseDeadNodes ([comma].intercalate (deadNodes.map fun id => decimalInt id.val))
      = some (deadNodes.map Subtype.val) := by
    unfold parseDeadNodes
    rw [hsplit]
    -- each piece is read back by `stoi`
    clear hsplit
    induction deadNodes with
    | nil => rfl
    | cons id deadNodes ih =>
      rw [List.map_cons, List.mapM_cons, ih, stoi_decimalInt id.property.1 id.property.2]
      rfl
  rw [localDeadNodeIds, hread, Option.map_some]

/-- A report that fits the buffer is acknowledged. -/
theorem handle_deadNodesMessage (m : Manager) (deadNodes : List CInt)
    (hfits : (deadNodesMessage deadNodes).length < managerClientSocketBufferSize) :
    m.handle (deadNodesMessage deadNodes) = some (ascii "DEAD_NODES_RECEIVED", m) := by
  -- the buffer ends at the first NUL, and the message has none
  have hzero : 0 ∉ deadNodesMessage deadNodes := by
    unfold deadNodesMessage
    rw [List.mem_append, not_or, intercalate_eq_dropLast_terminated]
    refine ⟨by decide, fun hzero => ?_⟩
    obtain heq | ⟨x, hx, hzero⟩ := mem_terminated (List.mem_of_mem_dropLast hzero)
    · exact absurd heq (by decide)
    · obtain ⟨id, -, rfl⟩ := List.mem_map.mp hx
      exact notMem_decimalInt (by decide) (by decide) _ hzero
  -- the two messages differ in their first letter
  have hne : deadNodesMessage deadNodes ≠ ascii "INITIALIZE_CLIENT" := fun heq =>
    absurd (congrArg List.head? heq) (by simp [deadNodesMessage, ascii])
  have hfind : find (ascii "DEAD_NODES:") (deadNodesMessage deadNodes) = some 0 :=
    find_append_self _ _
  have hdrop : (deadNodesMessage deadNodes).drop (ascii "DEAD_NODES:").length
      = [comma].intercalate (deadNodes.map fun id => decimalInt id.val) := List.drop_left
  unfold handle
  rw [recvString_eq_some hfits hzero]
  simp only [Option.bind_eq_bind, Option.bind_some, if_neg hne, hfind, if_true, hdrop,
    localDeadNodeIds_report]

/-- Whatever a client sends, the globals of the manager stay as they are. -/
theorem handle_manager {msg reply : Bytes} (h : m.handle msg = some (reply, m')) : m' = m := by
  obtain ⟨receivedMsg, -, h⟩ := Option.bind_eq_some_iff.mp h
  split at h
  · exact (Prod.mk.inj (Option.some.inj h)).2.symm
  · split at h
    · obtain ⟨_, -, h⟩ := Option.bind_eq_some_iff.mp h
      exact (Prod.mk.inj (Option.some.inj h)).2.symm
    · exact (Prod.mk.inj (Option.some.inj h)).2.symm

/-- So they do over any sequence of connections. -/
theorem serve_eq {connections : List Connection} (h : m.serve connections = some m') : m' = m := by
  induction connections generalizing m with
  | nil => exact (Option.some.inj h).symm
  | cons c connections ih =>
    rw [serve, List.foldlM_cons] at h
    obtain ⟨m₁, hfirst, hrest⟩ := Option.bind_eq_some_iff.mp h
    obtain ⟨⟨reply, m₂⟩, hhandle, rfl⟩ := Option.map_eq_some_iff.mp hfirst
    obtain rfl : m₂ = m := handle_manager hhandle
    exact ih hrest

/-- Every client gets the table that the manager started with. -/
theorem eq_table_of_tableAfter {connections : List Connection} {t : Table} (h : m.Listable)
    (ht : m.tableAfter connections = some t) : t = m.table := by
  obtain ⟨m₁, hserve, hask⟩ := Option.bind_eq_some_iff.mp ht
  obtain rfl : m₁ = m := serve_eq hserve
  obtain ⟨⟨response, m₂⟩, hhandle, hinit⟩ := Option.bind_eq_some_iff.mp hask
  have hresponse : response = m₁.initializeResponse := by
    have hreply : m₁.handle Connection.initializeClient.message
        = some (m₁.initializeResponse, m₁) := rfl
    exact (Prod.mk.inj (Option.some.inj (hhandle.symm.trans hreply))).1
  rw [hresponse] at hinit
  exact Table.eq_table_of_init h hinit

/-- A manager without dead nodes stays one, so it remembers a report only where no
client asks. -/
theorem not_askedAfterReport_of_remembers (h : m.Listable) (hstart : m.deadNodeIds = [])
    {connections : List Connection} (hremembers : m.Remembers connections) :
    ¬ AskedAfterReport m.nodeAddressMap.length connections := by
  rintro ⟨j, -, hask, id, hid, hreport⟩
  obtain ⟨t, ht, hdead⟩ := hremembers j hask id hid hreport
  rw [eq_table_of_tableAfter h ht, table, hstart] at hdead
  exact absurd hdead List.not_mem_nil

/-- **No report is remembered.** For every number of nodes and every sequence of
connections: the reports are remembered if and only if there is nobody to see it,
because no client initialises after one. -/
theorem remembers_iff (numRep : CInt) (pids : List ℕ) (hN : 1 ≤ pids.length)
    (connections : List Connection) :
    (started numRep pids).Remembers connections ↔
      ¬ AskedAfterReport pids.length connections := by
  have hlength : (started numRep pids).nodeAddressMap.length = pids.length := List.length_map ..
  constructor
  · intro hremembers
    have hlistable := listable_started numRep (List.ne_nil_of_length_pos hN)
    rw [← hlength]
    exact not_askedAfterReport_of_remembers hlistable rfl hremembers
  · intro hnot j hask id hid hreport
    have hj : j < connections.length := (List.getElem?_eq_some_iff.mp hask).1
    exact absurd ⟨j, hj, hask, id, hlength ▸ hid, hreport⟩ hnot

/-- Two nodes. -/
def pair : Manager := started ⟨1, by decide⟩ [11, 12]

/-- Clients that initialise before the reports, or after reports of nodes that do not exist. -/
theorem remembers_pair :
    pair.Remembers [.initializeClient, .deadNodes [⟨2, by decide⟩, ⟨-1, by decide⟩],
      .initializeClient, .deadNodes [⟨1, by decide⟩], .other (ascii "HELLO")] :=
  (remembers_iff ⟨1, by decide⟩ [11, 12] (by decide) _).mpr (by decide)

/-- The second node is reported and the report acknowledged, and the next client learns of no dead
node. -/
theorem report_is_forgotten :
    pair.handle (Connection.deadNodes [⟨1, by decide⟩]).message
        = some (ascii "DEAD_NODES_RECEIVED", pair) ∧
      (pair.tableAfter [.deadNodes [⟨1, by decide⟩]]).map Table.deadNodeIds = some [] ∧
      ¬ pair.Remembers [.deadNodes [⟨1, by decide⟩], .initializeClient] := by
  have htable : (pair.tableAfter [.deadNodes [⟨1, by decide⟩]]).map Table.deadNodeIds
      = some [] := by decide +kernel
  refine ⟨handle_deadNodesMessage pair _ (by decide), htable, fun hremembers => ?_⟩
  obtain ⟨t, ht, hdead⟩ := hremembers 1 rfl 1 (by decide) (by decide)
  have hnil : t.deadNodeIds = [] := by
    change (pair.tableAfter [.deadNodes [⟨1, by decide⟩]]) = some t at ht
    rw [ht] at htable
    exact Option.some.inj htable
  rw [hnil] at hdead
  exact absurd hdead List.not_mem_nil

end Manager

end GTStore
end OSLab
