import AdvancedOSLab.Framework.Bytes

/-!
# A GTStore storage node

The storage node of `storage.cpp`, at the level of the texts it exchanges. A
node holds its id, the node-to-node socket paths of its replicas and the table
`storage_key_value_map`.

* `storeKeyValue` cuts a value text at its spaces and stores the pieces.
* `handleClientMessage` is the body of the inner client loop of
  `GTStoreStorage::run`: it dispatches on the *substrings* `PUT:`, `GET:` and
  `CLIENT_CLOSE` of the whole message, in this order, and takes the key and the
  value from what stands behind the first colon.
* `handleReplicaMessage` is the body of the node-to-node loop.
* `parseNodeConnectionMsg` reads the replica paths out of the manager's message.

The second half of the file says what these do to well-formed texts. The two
writers of a key, a client's `PUT` and another node's `REPLICATE`, share the
decoder `parseKeyValue`, so one lemma (`parseKeyValue_tagged`) serves both.
-/

namespace OSLab
namespace GTStore

open Text

/-! ### Constants of `gtstore.hpp` -/

/-- `MANAGER_NODES_SOCKET_BUFFER_SIZE`. -/
def managerNodesSocketBufferSize : ℕ := 1024

/-- `NODE_CLIENT_SOCKET_BUFFER_SIZE`. -/
def nodeClientSocketBufferSize : ℕ := 1100

/-- `NODE_NODE_SOCKET_BUFFER_SIZE`. -/
def nodeNodeSocketBufferSize : ℕ := 1100

/-- `MAX_KEY_BYTE_PER_REQUEST`. -/
def maxKeyBytePerRequest : ℕ := 20

/-- `MAX_VALUE_BYTE_PER_REQUEST`. -/
def maxValueBytePerRequest : ℕ := 1000

/-- The space, which separates the key from the value and the values from each
other. -/
def space : UInt8 := 32

/-- The comma, which separates paths and the fields of a reply. -/
def comma : UInt8 := 44

/-- The colon behind the tag of a message. -/
def colon : UInt8 := 58

/-! ### The node -/

/-- A value list, `val_t`. -/
abbrev Val := List Bytes

/-- The state of a storage node. -/
structure Node where
  nodeId : Bytes
  replicaNodeAddresses : List Bytes
  storageKeyValueMap : Bytes → Option Val

/-- `GTStoreStorage::store_key_value`. -/
def storeKeyValue (key valueList : Bytes) (n : Node) : Node :=
  { n with
    storageKeyValueMap :=
      Function.update n.storageKeyValueMap key (some (split space valueList)) }

/-- The key and the value text of a message: what stands behind its first colon,
cut at the first space. Without a space `substr(0, npos)` and `substr(npos + 1)`
are both the whole rest. -/
def parseKeyValue (receivedMsg : Bytes) : Bytes × Bytes :=
  let keyValue := receivedMsg.drop (after (find [colon] receivedMsg))
  match find [space] keyValue with
  | none => (keyValue, keyValue)
  | some spacePos => (keyValue.take spacePos, keyValue.drop (spacePos + 1))

/-- What a node does with one message of a client: its new state, the text it
sends to each of its replicas (if any), the answer to the client (if any), and
whether it leaves the client loop. -/
structure Handled where
  node : Node
  replication : Option Bytes
  reply : Option Bytes
  close : Bool

/-- The `REPLICATE` message for a key and a value text. -/
def replicationMsg (key value : Bytes) : Bytes :=
  ascii "REPLICATE:" ++ key ++ [space] ++ value

/-- The reply to a `GET` of a stored key. -/
def getReply (n : Node) (key : Bytes) (values : Val) : Bytes :=
  key ++ ascii ", " ++ terminated space values ++ ascii ", SERVER_" ++ n.nodeId

/-- One message of a client, by the substrings it contains. -/
def handleClientMessage (n : Node) (receivedMsg : Bytes) : Handled :=
  if (find (ascii "PUT:") receivedMsg).isSome then
    -- also a `GET` of a key that contains `PUT:`
    let key := (parseKeyValue receivedMsg).1
    let value := (parseKeyValue receivedMsg).2
    { node := storeKeyValue key value n
      replication := some (replicationMsg key value)
      reply := some (ascii "OK, SERVER_" ++ n.nodeId)
      close := false }
  else if (find (ascii "GET:") receivedMsg).isSome then
    let key := receivedMsg.drop (after (find [colon] receivedMsg))
    match n.storageKeyValueMap key with
    | none =>
      { node := n, replication := none, reply := some (ascii "KEY_NOT_FOUND"), close := false }
    | some values =>
      { node := n, replication := none, reply := some (getReply n key values), close := false }
  else if (find (ascii "CLIENT_CLOSE") receivedMsg).isSome then
    { node := n, replication := none, reply := none, close := true }
  else
    -- "Invalid message received from client": nothing is sent back
    { node := n, replication := none, reply := none, close := false }

/-- One message of another node. `NODE_CLOSE` and everything else change
nothing. -/
def handleReplicaMessage (n : Node) (receivedMsg : Bytes) : Node :=
  if (find (ascii "REPLICATE:") receivedMsg).isSome then
    storeKeyValue (parseKeyValue receivedMsg).1 (parseKeyValue receivedMsg).2 n
  else n

/-- `GTStoreStorage::parse_node_connection_msg`: the replica paths it appends to
`replica_node_addresses`. A message without one of the two tags appends none. -/
def parseNodeConnectionMsg (buffer : Bytes) : List Bytes :=
  match find (ascii "NUM_REPLICAS:") buffer, find (ascii "REPLICA_PATHS:") buffer with
  | some _, some replicaPathsPos =>
    split comma (buffer.drop (replicaPathsPos + (ascii "REPLICA_PATHS:").length))
  | _, _ => []

/-! ### What the writers do -/

theorem storeKeyValue_map (key value : Bytes) (n : Node) (k : Bytes) :
    (storeKeyValue key value n).storageKeyValueMap k
      = if k = key then some (split space value) else n.storageKeyValueMap k := by
  change Function.update n.storageKeyValueMap key (some (split space value)) k = _
  rw [Function.update_apply]

/-- The decoder gives back the key and the value text behind a tag that ends in
the first colon, for every key without a space. -/
theorem parseKeyValue_tagged {tag key : Bytes} (htag : colon ∉ tag) (hkey : space ∉ key)
    (value : Bytes) :
    parseKeyValue (tag ++ [colon] ++ key ++ [space] ++ value) = (key, value) := by
  have hshape : tag ++ [colon] ++ key ++ [space] ++ value
      = tag ++ colon :: (key ++ space :: value) := by simp
  have hdrop : (tag ++ colon :: (key ++ space :: value)).drop (tag.length + 1)
      = key ++ space :: value := by
    rw [List.drop_append, List.drop_of_length_le (by omega)]
    simp
  unfold parseKeyValue
  -- the first colon ends the tag, and the first space behind it ends the key
  rw [hshape, find_singleton_append htag, after_some, hdrop]
  simp only [find_singleton_append hkey, List.take_left]
  rw [List.drop_append, List.drop_of_length_le (by omega)]
  simp

/-- The decoder on the `REPLICATE` message the node itself builds. -/
theorem parseKeyValue_replicationMsg {key : Bytes} (hkey : space ∉ key) (value : Bytes) :
    parseKeyValue (replicationMsg key value) = (key, value) :=
  @parseKeyValue_tagged (ascii "REPLICATE") key (by decide) hkey value

/-- A key decoded from any message contains no space. -/
theorem space_notMem_parseKeyValue (msg : Bytes) : space ∉ (parseKeyValue msg).1 := by
  unfold parseKeyValue
  dsimp only
  generalize msg.drop (after (find [colon] msg)) = kv
  cases hf : find [space] kv with
  | none =>
    -- the key is the whole rest, which has no space
    intro hmem
    exact (find_eq_none_iff.mp hf) (List.singleton_infix_iff space kv |>.mpr hmem)
  | some p =>
    obtain ⟨a, b, rfl, ha, rfl⟩ := find_singleton_eq_some hf
    change space ∉ (a ++ space :: b).take a.length
    rw [List.take_left]
    exact ha

/-- The key and the value text of a message without NUL have none. -/
theorem zero_notMem_parseKeyValue {msg : Bytes} (h : 0 ∉ msg) :
    0 ∉ (parseKeyValue msg).1 ∧ 0 ∉ (parseKeyValue msg).2 := by
  have hdrop : 0 ∉ msg.drop (after (find [colon] msg)) := fun h0 => h (List.mem_of_mem_drop h0)
  unfold parseKeyValue
  dsimp only
  split
  · exact ⟨hdrop, hdrop⟩
  · exact ⟨fun h0 => hdrop (List.mem_of_mem_take h0), fun h0 => hdrop (List.mem_of_mem_drop h0)⟩

/-- Nor has the `REPLICATE` message that is made of them. -/
theorem zero_notMem_replicationMsg {msg : Bytes} (h : 0 ∉ msg) :
    0 ∉ replicationMsg (parseKeyValue msg).1 (parseKeyValue msg).2 := by
  obtain ⟨hkey, hvalue⟩ := zero_notMem_parseKeyValue h
  unfold replicationMsg
  simp only [List.mem_append, not_or]
  exact ⟨⟨⟨by decide, hkey⟩, by decide⟩, hvalue⟩

/-- A `REPLICATE` message is recognised as one. -/
theorem find_replicate_isSome (key value : Bytes) :
    (find (ascii "REPLICATE:") (replicationMsg key value)).isSome = true := by
  unfold replicationMsg
  rw [List.append_assoc, List.append_assoc, find_append_self]
  rfl

theorem handleReplicaMessage_nodeId (n : Node) (msg : Bytes) :
    (handleReplicaMessage n msg).nodeId = n.nodeId := by
  unfold handleReplicaMessage
  split <;> rfl

theorem handleReplicaMessage_replicaNodeAddresses (n : Node) (msg : Bytes) :
    (handleReplicaMessage n msg).replicaNodeAddresses = n.replicaNodeAddresses := by
  unfold handleReplicaMessage
  split <;> rfl

/-- The key and the value text a client's message stores: those of a `PUT`. -/
def storedBy (receivedMsg : Bytes) : Option (Bytes × Bytes) :=
  if (find (ascii "PUT:") receivedMsg).isSome then some (parseKeyValue receivedMsg) else none

theorem eq_parseKeyValue_of_storedBy {msg : Bytes} {kv : Bytes × Bytes}
    (h : storedBy msg = some kv) : kv = parseKeyValue msg := by
  unfold storedBy at h
  split at h
  · exact (Option.some.inj h).symm
  · exact absurd h (by simp)

/-- A client's message changes the table by what it stores, and by nothing else. -/
theorem handleClientMessage_node (n : Node) (msg : Bytes) :
    (handleClientMessage n msg).node
      = (storedBy msg).elim n fun kv => storeKeyValue kv.1 kv.2 n := by
  unfold handleClientMessage storedBy
  split
  · rfl
  · -- a `GET`, a close or an unknown message: the node stays as it is
    split
    · dsimp only
      split <;> rfl
    · split <;> rfl

/-- What a client's message stores is what is passed on. -/
theorem handleClientMessage_replication (n : Node) (msg : Bytes) :
    (handleClientMessage n msg).replication
      = (storedBy msg).map fun kv => replicationMsg kv.1 kv.2 := by
  unfold handleClientMessage storedBy
  split
  · rfl
  · split
    · dsimp only
      split <;> rfl
    · split <;> rfl

theorem handleClientMessage_nodeId (n : Node) (msg : Bytes) :
    (handleClientMessage n msg).node.nodeId = n.nodeId := by
  rw [handleClientMessage_node]
  cases storedBy msg <;> rfl

theorem handleClientMessage_replicaNodeAddresses (n : Node) (msg : Bytes) :
    (handleClientMessage n msg).node.replicaNodeAddresses = n.replicaNodeAddresses := by
  rw [handleClientMessage_node]
  cases storedBy msg <;> rfl

end GTStore
end OSLab
