import AdvancedOSLab.GTStore.Client

/-!
# When a `get` only reads

A node tells the messages of clients apart by the substrings they contain, and it looks for `PUT:`
first and in the whole message. The message of a `get` is `GET:` and the key. If the key contains
`PUT:`, the node takes the message for a `put`: what stands behind the first colon is the key, it
has no space, so it is the value as well, and the node stores the key under itself and passes this
on to its replicas.

`get_readOnly_iff` says exactly when handling the message of a `get` leaves the table of the node
alone and sends nothing to its replicas. A key with a NUL in it ends there, as far as the node is
concerned. Apart from keys without `PUT:`, there is the node that stores the key under itself
already and reaches no replica.
-/

namespace OSLab
namespace GTStore

open Text Bytes

/-- The messages that a node sends to its replicas when it handles a message of a client: to each of
them that accepts the connection. -/
def replications (up : Bytes → Bool) (n : Node) (receivedMsg : Bytes) : List (Bytes × Bytes) :=
  match (handleClientMessage n receivedMsg).replication with
  | none => []
  | some replicationMsg =>
    (n.replicaNodeAddresses.filter up).map fun replicaPath => (replicaPath, replicationMsg)

/-- The node receives the message of a `get`; handling it leaves the table as it is, and nothing is
sent to the replicas. -/
def ReadOnly (up : Bytes → Bool) (n : Node) (key : Bytes) : Prop :=
  ∃ receivedMsg, recvString nodeClientSocketBufferSize (getMessage key) = some receivedMsg ∧
    (handleClientMessage n receivedMsg).node.storageKeyValueMap = n.storageKeyValueMap ∧
    replications up n receivedMsg = []

variable {n : Node} {key : Bytes} {up : Bytes → Bool}

/-- What the node receives is the message of a `get` of the key as a C string. -/
theorem cstr_getMessage (key : Bytes) : cstr (getMessage key) = getMessage (cstr key) :=
  cstr_append (by decide) key

theorem recvString_getMessage (h : key.length ≤ maxKeyBytePerRequest) :
    recvString nodeClientSocketBufferSize (getMessage key) = some (getMessage (cstr key)) := by
  refine recvString_eq_some_iff.mpr ⟨?_, cstr_getMessage key⟩
  have htag : (ascii "GET:").length = 4 := by decide
  rw [getMessage, List.length_append, htag]
  unfold maxKeyBytePerRequest at h
  unfold nodeClientSocketBufferSize
  omega

/-- The message is taken for a `put` exactly if the key contains one. -/
theorem find_put_getMessage_isSome :
    (find (ascii "PUT:") (getMessage key)).isSome = true ↔ ascii "PUT:" <:+: key := by
  constructor
  · intro hfind
    by_contra hnot
    rw [find_put_getMessage hnot] at hfind
    exact absurd hfind (by simp)
  · intro hput
    rw [Option.isSome_iff_ne_none, Ne, find_eq_none_iff, not_not]
    exact hput.trans (List.suffix_append (ascii "GET:") key).isInfix

/-- The key of the `get` is both the key and the value of the `put`. -/
theorem parseKeyValue_getMessage (h : space ∉ key) :
    parseKeyValue (getMessage key) = (key, key) := by
  unfold parseKeyValue
  simp only [drop_getMessage, find_singleton_of_notMem h]

theorem storedBy_getMessage_of_put (h : space ∉ key) (hput : ascii "PUT:" <:+: key) :
    storedBy (getMessage key) = some (key, key) := by
  unfold storedBy
  rw [if_pos (find_put_getMessage_isSome.mpr hput), parseKeyValue_getMessage h]

/-- Storing the key under itself changes nothing only if it is there already. -/
theorem storeKeyValue_self_iff (h : space ∉ key) (hne : key ≠ []) :
    (storeKeyValue key key n).storageKeyValueMap = n.storageKeyValueMap ↔
      n.storageKeyValueMap key = some [key] := by
  have hsplit : split space key = [key] := by
    unfold split
    rw [splitWith_of_notMem _ h, if_neg hne]
  constructor
  · intro hsame
    have hkey := congrFun hsame key
    rw [storeKeyValue_map, if_pos rfl, hsplit] at hkey
    exact hkey.symm
  · intro hkey
    show Function.update n.storageKeyValueMap key (some (split space key)) = _
    rw [hsplit, ← hkey]
    exact Function.update_eq_self ..

/-- **When a `get` only reads.** For every state of a node, every set of replicas that accept
connections, and every key without a space and of at most 20 bytes: handling the message of the
`get` leaves the table unchanged and sends nothing to the replicas exactly if the key, up to its
first NUL, does not contain `PUT:`, or the node has nothing but the key stored under it already and
none of its replicas accepts the connection. -/
theorem get_readOnly_iff (up : Bytes → Bool) (n : Node) (key : Bytes) (hspace : space ∉ key)
    (hlength : key.length ≤ maxKeyBytePerRequest) :
    ReadOnly up n key ↔ ¬ ascii "PUT:" <:+: cstr key ∨
      (n.storageKeyValueMap (cstr key) = some [cstr key] ∧
        ∀ replicaPath ∈ n.replicaNodeAddresses, up replicaPath = false) := by
  have hspace' : space ∉ cstr key := fun hmem => hspace (List.takeWhile_subset _ hmem)
  have hreceived := recvString_getMessage hlength
  have hiff : ReadOnly up n key ↔
      (handleClientMessage n (getMessage (cstr key))).node.storageKeyValueMap =
          n.storageKeyValueMap ∧ replications up n (getMessage (cstr key)) = [] := by
    constructor
    · rintro ⟨receivedMsg, hreceived', hreadOnly⟩
      obtain rfl := Option.some.inj (hreceived.symm.trans hreceived')
      exact hreadOnly
    · exact fun hreadOnly => ⟨_, hreceived, hreadOnly⟩
  rw [hiff, handleClientMessage_node, replications, handleClientMessage_replication]
  by_cases hput : ascii "PUT:" <:+: cstr key
  · -- the message is handled as a `put` of the key under itself
    have hne : cstr key ≠ [] := by
      intro hnil
      rw [hnil] at hput
      exact absurd (List.infix_nil.mp hput) (by decide)
    rw [storedBy_getMessage_of_put hspace' hput]
    have hsent : ((n.replicaNodeAddresses.filter up).map fun replicaPath =>
        (replicaPath, replicationMsg (cstr key) (cstr key))) = [] ↔
        ∀ replicaPath ∈ n.replicaNodeAddresses, up replicaPath = false := by
      simp [List.filter_eq_nil_iff]
    exact (and_congr (storeKeyValue_self_iff hspace' hne) hsent).trans
      (or_iff_right (not_not_intro hput)).symm
  · rw [storedBy_getMessage hput]
    exact iff_of_true ⟨rfl, rfl⟩ (.inl hput)

/-- A node with one replica and an empty table. -/
def emptyNode : Node where
  nodeId := ascii "0"
  replicaNodeAddresses := [ascii "/tmp/r"]
  storageKeyValueMap _ := none

theorem get_readOnly_color : ReadOnly (fun _ => true) emptyNode (ascii "color") :=
  (get_readOnly_iff (fun _ => true) emptyNode (ascii "color") (by decide) (by decide)).mpr
    (.inl (by decide))

/-- A `get` of the key `PUT:x` stores it and sends it to the replica. -/
theorem get_of_put_writes :
    space ∉ ascii "PUT:x" ∧ (ascii "PUT:x").length ≤ maxKeyBytePerRequest ∧
      recvString nodeClientSocketBufferSize (getMessage (ascii "PUT:x")) =
        some (ascii "GET:PUT:x") ∧
      (handleClientMessage emptyNode (ascii "GET:PUT:x")).node.storageKeyValueMap (ascii "PUT:x") =
        some [ascii "PUT:x"] ∧
      replications (fun _ => true) emptyNode (ascii "GET:PUT:x") =
        [(ascii "/tmp/r", ascii "REPLICATE:PUT:x PUT:x")] ∧
      ¬ ReadOnly (fun _ => true) emptyNode (ascii "PUT:x") := by
  have hsent : replications (fun _ => true) emptyNode (ascii "GET:PUT:x") =
      [(ascii "/tmp/r", ascii "REPLICATE:PUT:x PUT:x")] := by decide
  refine ⟨by decide, by decide, by decide, by decide, hsent, ?_⟩
  rintro ⟨receivedMsg, hreceived, -, hnothing⟩
  have hmsg : recvString nodeClientSocketBufferSize (getMessage (ascii "PUT:x")) =
      some (ascii "GET:PUT:x") := by decide
  obtain rfl := Option.some.inj (hmsg.symm.trans hreceived)
  exact absurd (hsent.symm.trans hnothing) (by simp)

end GTStore
end OSLab
