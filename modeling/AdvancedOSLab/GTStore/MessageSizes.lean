import AdvancedOSLab.Framework.System
import AdvancedOSLab.GTStore.Membership
import AdvancedOSLab.GTStore.Placement

/-!
# The sizes of the messages of GTStore

Every process of GTStore receives a message by one `recv` into a buffer of fixed size, and writes a
terminator behind the last byte that it got. A message arrives whole, and the terminator is inside
the buffer, exactly if the message is shorter than the buffer (`recvString`).

## The model

`Sent c text size` says that in a system that was started as `c` says, a process may send this text
to one that receives it with a buffer of this size. A `Setup` has the arguments of the manager, any
positive numbers, and the process ids of the nodes. The texts that nodes send depend on what they
have stored. For this, `nodeSystem` runs a node through any sequence of calls and of replications
of calls, with keys of at most `MAX_KEY_BYTE_PER_REQUEST` bytes and values of at most
`MAX_VALUE_BYTE_PER_REQUEST` bytes.

## The result

What clients and nodes send to each other always fits: the buffers have 1100 bytes, and the longest
of these messages, the reply to a `GET`, is at most 1063 bytes long, whatever the calls before it
were (`Stored.of_reachable`). Two messages grow with the system. The table in the answer to
`INITIALIZE_CLIENT` has a path for every node, and the message with the replica paths one for every
replica. `messages_fit_iff` says which systems are small enough for their buffers of 1024 bytes; for
process ids of 5 digits, those with up to 24 nodes and 31 replicas. In these systems the nodes get
as far as `Setup.node` (`Setup.Fits.connectToManager_eq`).
-/

namespace OSLab
namespace GTStore

open Text Bytes

/-! ### Calls within the limits -/

/-- The limits on the key and on the value, whose strings are joined by spaces. -/
def Op.WithinLimits : Op → Prop
  | .put key value => key.length ≤ maxKeyBytePerRequest ∧
      ([space].intercalate value).length ≤ maxValueBytePerRequest
  | .get key => key.length ≤ maxKeyBytePerRequest

/-- What can change the table of a node: a call that it serves, or one that another node serves and
passes on. -/
inductive NodeEvent where
  | call (op : Op)
  | replication (op : Op)

/-- The call of an event. -/
def NodeEvent.op : NodeEvent → Op
  | call op => op
  | replication op => op

/-- A node that starts as `n`. Its buffers hold all messages of calls within the limits. -/
def nodeSystem (n : Node) : System Node NodeEvent where
  init := n
  step n
    | .call op => some (handleClientMessage n (cstr op.request)).node
    | .replication op => (storedBy (cstr op.request)).map fun kv =>
        handleReplicaMessage n (cstr (replicationMsg kv.1 kv.2))

/-- The states of a node that serves calls within the limits. -/
def NodeReachable (n₀ n : Node) : Prop :=
  (nodeSystem n₀).Reachable (fun _ event => event.op.WithinLimits) n

/-! ### The system -/

/-- The start of a system: the arguments of the manager, which are positive, and the process ids of
the nodes, in the order of their connections. -/
structure Setup where
  numRep : ℕ
  pids : List ℕ
  one_le_numRep : 1 ≤ numRep
  numRep_le : numRep ≤ intMax
  one_le_numNodes : 1 ≤ pids.length
  numNodes_le : pids.length ≤ intMax
  pid_le : ∀ pid ∈ pids, pid ≤ intMax

/-- The message by which a node introduces itself to the manager. -/
def registrationMsg (pid : ℕ) : Bytes := ascii "NODE_CLIENT_SOCKET_PATH:" ++ nodeClientPath pid

namespace Setup

variable (c : Setup)

/-- The manager when all nodes are connected. -/
def manager : Manager :=
  Manager.started ⟨c.numRep, by have := c.numRep_le; unfold intMax at *; omega⟩ c.pids

/-- Node `i` when it has connected to the manager. -/
def node (i : ℕ) : Node where
  nodeId := decimal i
  replicaNodeAddresses := parseNodeConnectionMsg (replicaMessage c.pids.length c.numRep i)
  storageKeyValueMap := fun _ => none

/-- A client with the table of the manager. -/
def client : Client := c.manager.table.client

/-- The messages of the system, with the size of the buffer in which each is received. -/
inductive Sent : Bytes → ℕ → Prop
  | registration {pid : ℕ} (hpid : pid ∈ c.pids) :
      Sent (registrationMsg pid) managerNodesSocketBufferSize
  | registrationReply {i : ℕ} (hi : i < c.pids.length) :
      Sent (registrationReply i) managerNodesSocketBufferSize
  | replicaPaths {i : ℕ} (hi : i < c.pids.length) :
      Sent (replicaMessage c.pids.length c.numRep i) managerNodesSocketBufferSize
  | initializeClient : Sent (ascii "INITIALIZE_CLIENT") managerClientSocketBufferSize
  | initializeResponse : Sent c.manager.initializeResponse managerClientSocketBufferSize
  /-- `PUT` and `GET` -/
  | request {op : Op} (hop : op.WithinLimits) : Sent op.request nodeClientSocketBufferSize
  /-- the answer to a `PUT` or a `GET` -/
  | reply {i : ℕ} {n : Node} {op : Op} {reply : Bytes} (hi : i < c.pids.length)
      (hn : NodeReachable (c.node i) n) (hop : op.WithinLimits)
      (hreply : (handleClientMessage n (cstr op.request)).reply = some reply) :
      Sent reply nodeClientSocketBufferSize
  | replicate {n : Node} {op : Op} {msg : Bytes} (hop : op.WithinLimits)
      (hmsg : (handleClientMessage n (cstr op.request)).replication = some msg) :
      Sent msg nodeNodeSocketBufferSize
  /-- the nodes that a call found dead -/
  | deadNodes {up : ℕ → Bool} {key : Bytes} {ids : List CInt}
      (hne : (c.client.route up key).2 ≠ [])
      (hids : ids.map Subtype.val = (c.client.route up key).2.map Int.ofNat) :
      Sent (deadNodesMessage ids) managerClientSocketBufferSize
  | deadNodesReceived : Sent (ascii "DEAD_NODES_RECEIVED") managerClientSocketBufferSize

/-- The number of decimal digits. -/
def numDigits (n : ℕ) : ℕ := (decimal n).length

/-- The table of the nodes fits its buffer, and there are not too many replicas. -/
structure Fits : Prop where
  table : 43 + numDigits c.numRep +
    (c.pids.mapIdx fun i pid => numDigits i + numDigits pid + 34).sum <
      managerClientSocketBufferSize
  replicas : c.numRep ≤ 31 ∨ c.numRep = 32 ∧ c.pids.length ≤ 10

end Setup

/-! ### Numbers and lists -/

open Setup

theorem length_terminated (d : UInt8) (xs : List Bytes) :
    (terminated d xs).length = (xs.map fun x => x.length + 1).sum := by
  simp [terminated, List.length_flatMap]

theorem one_le_numDigits (n : ℕ) : 1 ≤ numDigits n := List.length_pos_of_ne_nil (decimal_ne_nil n)

theorem numDigits_le {n k : ℕ} (hk : 0 < k) (h : n < 10 ^ k) : numDigits n ≤ k :=
  (length_decimal_le_iff hk).mpr h

theorem numDigits_le_of_le_intMax {n : ℕ} (h : n ≤ intMax) : numDigits n ≤ 10 :=
  numDigits_le (by decide) (Nat.lt_of_le_of_lt h (by decide))

theorem two_le_numDigits {n : ℕ} (h : 10 ≤ n) : 2 ≤ numDigits n := by
  by_contra hlt
  have hone : numDigits n ≤ 1 := by omega
  have hten : n < 10 ^ 1 := (length_decimal_le_iff (by decide)).mp hone
  omega

/-! ### Calls -/

/-- The text of a value is one byte longer than its strings joined by spaces. -/
theorem length_printValue_le {value : Val}
    (h : ([space].intercalate value).length ≤ maxValueBytePerRequest) :
    (printValue value).length ≤ 1001 := by
  rw [intercalate_eq_dropLast_terminated, List.length_dropLast] at h
  unfold printValue
  unfold maxValueBytePerRequest at h
  omega

/-- The requests of calls within the limits. -/
theorem length_request_le {op : Op} (h : op.WithinLimits) : op.request.length ≤ 1026 := by
  have hput : (ascii "PUT:").length = 4 := by decide
  have hget : (ascii "GET:").length = 4 := by decide
  cases op with
  | put key value =>
    have hvalue := length_printValue_le h.2
    have hkey : key.length ≤ 20 := h.1
    simp only [Op.request, putMessage, List.length_append, List.length_singleton, hput]
    omega
  | get key =>
    have hkey : key.length ≤ 20 := h
    simp only [Op.request, getMessage, List.length_append, hget]
    omega

/-- What a node sees of a `PUT`. -/
theorem cstr_putRequest (key : Bytes) (value : Val) :
    cstr (Op.put key value).request =
      ascii "PUT" ++ colon :: cstr (key ++ (space :: printValue value)) := by
  have hrequest : (Op.put key value).request =
      (ascii "PUT" ++ [colon]) ++ (key ++ (space :: printValue value)) := by
    simp [Op.request, putMessage, ascii, colon]
  rw [hrequest, cstr_append (by decide)]
  simp

/-- What a node sees of a `GET`. -/
theorem cstr_getRequest (key : Bytes) :
    cstr (Op.get key).request = ascii "GET" ++ colon :: cstr key := by
  have hrequest : (Op.get key).request = (ascii "GET" ++ [colon]) ++ key := rfl
  rw [hrequest, cstr_append (by decide)]
  simp

/-- How the text behind the first colon is cut. -/
theorem parseKeyValue_cases {tag : Bytes} (htag : colon ∉ tag) (text : Bytes) :
    (∃ k v, text = k ++ space :: v ∧ parseKeyValue (tag ++ colon :: text) = (k, v)) ∨
      space ∉ text ∧ parseKeyValue (tag ++ colon :: text) = (text, text) := by
  by_cases hspace : space ∈ text
  · obtain ⟨k, v, rfl, hk⟩ : ∃ k v, text = k ++ space :: v ∧ space ∉ k :=
      List.eq_append_cons_of_mem hspace
    refine .inl ⟨k, v, rfl, ?_⟩
    have hshape : tag ++ colon :: (k ++ space :: v) = tag ++ [colon] ++ k ++ [space] ++ v := by
      simp
    rw [hshape, parseKeyValue_tagged htag hk]
  · have hdrop : (tag ++ colon :: text).drop (tag.length + 1) = text := by
      rw [← List.drop_drop, List.drop_left, List.drop_one, List.tail_cons]
    refine .inr ⟨hspace, ?_⟩
    unfold parseKeyValue
    rw [find_singleton_append htag, after_some, hdrop]
    simp only [find_singleton_of_notMem hspace]

/-- The key and the value that a node reads out of a request within the limits. -/
theorem length_parseKeyValue_le {op : Op} (h : op.WithinLimits) :
    (parseKeyValue (cstr op.request)).1.length + (parseKeyValue (cstr op.request)).2.length ≤
      1021 := by
  cases op with
  | put key value =>
    have hvalue := length_printValue_le h.2
    have hkey : key.length ≤ 20 := h.1
    have htext := length_cstr_le (key ++ (space :: printValue value))
    rw [List.length_append, List.length_cons] at htext
    rw [cstr_putRequest]
    rcases parseKeyValue_cases (show colon ∉ ascii "PUT" by decide)
      (cstr (key ++ (space :: printValue value))) with ⟨k, v, heq, hparse⟩ | ⟨hspace, hparse⟩
    · rw [heq, List.length_append, List.length_cons] at htext
      rw [hparse]
      dsimp only
      omega
    · -- the text ends in front of the space, so it is part of the key
      have hzero : 0 ∈ key := by
        by_contra hzero
        rw [cstr_append hzero] at hspace
        exact hspace (List.mem_append_right _ (by simp [cstr, space]))
      have hle := length_cstr_le key
      rw [hparse, cstr_append_of_mem hzero]
      dsimp only
      omega
  | get key =>
    have hkey : key.length ≤ 20 := h
    have hle := length_cstr_le key
    rw [cstr_getRequest]
    rcases parseKeyValue_cases (show colon ∉ ascii "GET" by decide) (cstr key)
      with ⟨k, v, heq, hparse⟩ | ⟨-, hparse⟩
    · rw [heq, List.length_append, List.length_cons] at hle
      rw [hparse]
      dsimp only
      omega
    · rw [hparse]
      dsimp only
      omega

/-- The message that a node passes on is longer than the request by the longer tag. -/
theorem length_replication_le {n : Node} {op : Op} {msg : Bytes} (h : op.WithinLimits)
    (hmsg : (handleClientMessage n (cstr op.request)).replication = some msg) :
    msg.length ≤ 1032 := by
  rw [handleClientMessage_replication] at hmsg
  obtain ⟨kv, hkv, rfl⟩ := Option.map_eq_some_iff.mp hmsg
  have hsize := length_parseKeyValue_le h
  have htag : (ascii "REPLICATE:").length = 10 := by decide
  rw [← eq_parseKeyValue_of_storedBy hkv] at hsize
  simp only [replicationMsg, List.length_append, List.length_singleton, htag]
  omega

/-! ### What nodes store -/

/-- The id of node `i`, and a table of values within the limits. The value of a `PUT` whose key has
a space starts in the key. -/
structure Stored (i : ℕ) (n : Node) : Prop where
  nodeId : n.nodeId = decimal i
  length_le : ∀ key values, n.storageKeyValueMap key = some values →
    (terminated space values).length ≤ 1022

namespace Stored

variable {i : ℕ} {n : Node}

theorem storeKeyValue (h : Stored i n) (key : Bytes) {value : Bytes}
    (hvalue : value.length ≤ 1021) : Stored i (storeKeyValue key value n) := by
  refine ⟨h.nodeId, fun k values hk => ?_⟩
  rw [storeKeyValue_map] at hk
  split at hk
  · obtain rfl := Option.some.inj hk
    exact (length_terminated_split_le space value).trans (by omega)
  · exact h.length_le k values hk

/-- A call within the limits. -/
theorem call (h : Stored i n) {op : Op} (hop : op.WithinLimits) :
    Stored i (handleClientMessage n (cstr op.request)).node := by
  have hsize := length_parseKeyValue_le hop
  rw [handleClientMessage_node]
  cases hkv : storedBy (cstr op.request) with
  | none => exact h
  | some kv =>
    obtain rfl := eq_parseKeyValue_of_storedBy hkv
    exact h.storeKeyValue _ (by omega)

/-- A replication of such a call. The text contains no NUL, and the key no space, so that the node
reads the key and the value that were passed on. -/
theorem replication (h : Stored i n) {op : Op} (hop : op.WithinLimits) {kv : Bytes × Bytes}
    (hkv : storedBy (cstr op.request) = some kv) :
    Stored i (handleReplicaMessage n (cstr (replicationMsg kv.1 kv.2))) := by
  obtain rfl := eq_parseKeyValue_of_storedBy hkv
  have hsize := length_parseKeyValue_le hop
  have hzero := zero_notMem_replicationMsg (zero_notMem_cstr op.request)
  rw [cstr_eq_self hzero, handleReplicaMessage, if_pos (find_replicate_isSome _ _),
    parseKeyValue_replicationMsg (space_notMem_parseKeyValue _)]
  exact h.storeKeyValue _ (by dsimp only; omega)

/-- Every state of a node that serves calls within the limits. -/
theorem of_reachable {n₀ : Node} (h₀ : Stored i n₀) (h : NodeReachable n₀ n) : Stored i n := by
  induction h with
  | init => exact h₀
  | @step n n' event _ hop hstep ih =>
    cases event with
    | call op =>
      obtain rfl := Option.some.inj hstep
      exact ih.call hop
    | replication op =>
      obtain ⟨kv, hkv, rfl⟩ := Option.map_eq_some_iff.mp hstep
      exact ih.replication hop hkv

/-- The answers of such a node. -/
theorem length_reply_le (h : Stored i n) (hi : i ≤ intMax) {op : Op} (hop : op.WithinLimits)
    {reply : Bytes} (hreply : (handleClientMessage n (cstr op.request)).reply = some reply) :
    reply.length ≤ 1063 := by
  have hid : n.nodeId.length ≤ 10 := by
    rw [h.nodeId]
    exact numDigits_le_of_le_intMax hi
  have hok : (ascii "OK, SERVER_").length = 11 := by decide
  have hserver : (ascii ", SERVER_").length = 9 := by decide
  have hcomma : (ascii ", ").length = 2 := by decide
  have hmissing : (ascii "KEY_NOT_FOUND").length = 13 := by decide
  unfold handleClientMessage at hreply
  split at hreply
  · obtain rfl := Option.some.inj hreply
    rw [List.length_append, hok]
    omega
  next hput =>
  split at hreply
  · -- the key of the reply is that of the request, since a `PUT` is not taken for a `GET`
    have hkey : ((cstr op.request).drop (after (find [colon] (cstr op.request)))).length ≤ 20 := by
      cases op with
      | put key value =>
        rw [cstr_putRequest] at hput
        exact absurd (Option.isSome_of_eq_some (find_append_self (ascii "PUT:") _)) hput
      | get key =>
        have hdrop : (ascii "GET" ++ colon :: cstr key).drop ((ascii "GET").length + 1) =
            cstr key := rfl
        rw [cstr_getRequest, find_singleton_append (by decide), after_some, hdrop]
        exact (length_cstr_le key).trans hop
    dsimp only at hreply
    split at hreply
    · obtain rfl := Option.some.inj hreply
      rw [hmissing]
      omega
    · next values hvalues =>
      obtain rfl := Option.some.inj hreply
      have hsize := h.length_le _ _ hvalues
      simp only [getReply, List.length_append, hcomma, hserver]
      omega
  · split at hreply
    · exact absurd hreply (by simp)
    · exact absurd hreply (by simp)

end Stored

/-- At the start the table is empty. -/
theorem Setup.stored_node (c : Setup) (i : ℕ) : Stored i (c.node i) :=
  ⟨rfl, fun _ _ hnone => absurd hnone (by simp [node])⟩

/-! ### Dead nodes -/

/-- A call finds at most as many dead nodes as it makes attempts, all of them on the ring. -/
theorem contact_dead {N : ℕ} (hN : 0 < N) (up : ℕ → Bool) (attempts : ℕ) {nodeId : ℕ}
    (hid : nodeId < N) :
    (contact N up attempts nodeId).2.length ≤ attempts ∧
      ∀ d ∈ (contact N up attempts nodeId).2, d < N := by
  induction attempts generalizing nodeId with
  | zero => exact ⟨le_rfl, fun d hd => absurd hd List.not_mem_nil⟩
  | succ attempts ih =>
    obtain ⟨hlength, hlt⟩ := ih (Nat.mod_lt (nodeId + 1) hN)
    rw [contact]
    split
    · exact ⟨Nat.zero_le _, fun d hd => absurd hd List.not_mem_nil⟩
    · exact ⟨Nat.succ_le_succ hlength, List.forall_mem_cons.mpr ⟨hid, hlt⟩⟩

/-- A client starts at the node that the key hashes to, with an attempt for every replica. -/
theorem Setup.client_route (c : Setup) (up : ℕ → Bool) (key : Bytes) :
    c.client.route up key = contact c.pids.length up c.numRep (hashNode c.pids.length key) := by
  have hnodes : c.client.nodeAddressMap.length = c.pids.length := by
    simp [client, Table.client, Manager.table, manager, Manager.started]
  have hrep : c.client.numReplicas = c.numRep := Int.toNat_natCast _
  have hdead : c.client.deadNodeIds = [] := rfl
  have hskip : skipDead c.pids.length [] (hashNode c.pids.length key) c.numRep =
      (hashNode c.pids.length key, c.numRep) := if_neg fun hmem => List.not_mem_nil hmem.2
  rw [Client.route, Client.attempts, Client.target, hnodes, hrep, hdead, hskip]

/-- The length of a report. -/
theorem length_deadNodesMessage_le {ids : List CInt} {dead : List ℕ} {k : ℕ}
    (hids : ids.map Subtype.val = dead.map Int.ofNat) (h : ∀ d ∈ dead, numDigits d ≤ k) :
    (deadNodesMessage ids).length ≤ 11 + dead.length * (k + 1) := by
  have htexts : (ids.map fun id => decimalInt id.val) = dead.map decimal := by
    have hcomp := congrArg (List.map decimalInt) hids
    rw [List.map_map, List.map_map] at hcomp
    refine hcomp.trans (List.map_congr_left fun d _ => ?_)
    exact decimalInt_natCast d
  have htag : (ascii "DEAD_NODES:").length = 11 := by decide
  have hjoined : (terminated comma (dead.map decimal)).length ≤ dead.length * (k + 1) := by
    have hcount : (dead.map decimal).length = dead.length := List.length_map ..
    rw [← hcount]
    exact length_terminated_le (List.forall_mem_map.mpr h)
  rw [deadNodesMessage, htexts, intercalate_eq_dropLast_terminated, List.length_append, htag,
    List.length_dropLast]
  omega

/-! ### The messages that grow -/

theorem length_replicaMessage (N K i : ℕ) :
    (replicaMessage N K i).length =
      27 + numDigits K + (terminated comma (replicaPaths N K i)).length := by
  have hnum : (ascii "NUM_REPLICAS:").length = 13 := by decide
  have hsemi : (ascii ";").length = 1 := by decide
  have hpaths : (ascii "REPLICA_PATHS:").length = 14 := by decide
  simp only [replicaMessage, List.length_dropLast, List.length_append, hnum, hsemi, hpaths,
    numDigits]
  omega

theorem length_nodeNodePath (i : ℕ) : (nodeNodePath i).length = 30 + numDigits i := by
  have htag : (ascii "/tmp/gtstore_node_node_socket_").length = 30 := by decide
  rw [nodeNodePath, List.length_append, htag]
  rfl

theorem length_replicaPaths (N K i : ℕ) : (replicaPaths N K i).length = K - 1 := by
  simp [replicaPaths]

theorem length_terminated_replicaPaths (N K i : ℕ) :
    (terminated comma (replicaPaths N K i)).length =
      ((List.range (K - 1)).map fun j => 31 + numDigits ((N + i + (j + 1)) % N)).sum := by
  rw [length_terminated, replicaPaths, List.map_map]
  refine congrArg List.sum (List.map_congr_left fun j _ => ?_)
  show (nodeNodePath _).length + 1 = _
  rw [length_nodeNodePath]
  omega

/-- The message with the replica paths, from above. -/
theorem length_replicaMessage_le {N K k : ℕ} (hN : 0 < N) (hk : 0 < k) (hpow : N ≤ 10 ^ k)
    (i : ℕ) : (replicaMessage N K i).length ≤ 27 + numDigits K + (K - 1) * (31 + k) := by
  have hpath : ∀ x ∈ replicaPaths N K i, x.length ≤ 30 + k := by
    refine List.forall_mem_map.mpr fun j _ => ?_
    have hlt : (N + i + (j + 1)) % N < 10 ^ k := (Nat.mod_lt _ hN).trans_le hpow
    rw [length_nodeNodePath]
    exact Nat.add_le_add_left (numDigits_le hk hlt) 30
  have hle := length_terminated_le (d := comma) hpath
  have hone : 30 + k + 1 = 31 + k := by omega
  rw [length_replicaPaths, hone] at hle
  rw [length_replicaMessage]
  omega

/-- The message with the replica paths, from below. -/
theorem le_length_replicaMessage (N K i : ℕ) :
    27 + numDigits K + (K - 1) * 32 ≤ (replicaMessage N K i).length := by
  have hpath : ∀ x ∈ replicaPaths N K i, 31 ≤ x.length := by
    refine List.forall_mem_map.mpr fun j _ => ?_
    have hone := one_le_numDigits ((N + i + (j + 1)) % N)
    rw [length_nodeNodePath]
    omega
  have hle := le_length_terminated (d := comma) hpath
  rw [length_replicaPaths] at hle
  rw [length_replicaMessage]
  omega

/-- With 32 replicas and more than ten nodes, the message to node 9 is too long: at least three of
the paths have ids of two digits. -/
theorem replicaMessage_of_eleven {N : ℕ} (hN : 11 ≤ N) :
    managerNodesSocketBufferSize ≤ (replicaMessage N 32 9).length := by
  have hdigits : numDigits 32 = 2 := by decide
  have hcases : N = 11 ∨ N = 12 ∨ 13 ≤ N := by omega
  rcases hcases with rfl | rfl | hlarge
  · rw [length_replicaMessage, length_terminated_replicaPaths]
    decide +kernel
  · rw [length_replicaMessage, length_terminated_replicaPaths]
    decide +kernel
  -- the first three of the paths are those of the nodes 10, 11 and 12
  let path : ℕ → Bytes := fun j => nodeNodePath ((N + 9 + (j + 1)) % N)
  have hpaths : replicaPaths N 32 9 =
      (List.range 3).map path ++ (List.range 28).map fun j => path (3 + j) := by
    rw [replicaPaths, show 32 - 1 = 3 + 28 from rfl, List.range_add, List.map_append, List.map_map]
    rfl
  have hfirst : ∀ x ∈ (List.range 3).map path, 32 ≤ x.length := by
    refine List.forall_mem_map.mpr fun j hj => ?_
    have hj : j < 3 := List.mem_range.mp hj
    have hmod : (N + 9 + (j + 1)) % N = 10 + j := by
      rw [Nat.add_assoc, Nat.add_mod_left, Nat.mod_eq_of_lt (by omega)]
      omega
    have htwo : 2 ≤ numDigits (10 + j) := two_le_numDigits (Nat.le_add_right 10 j)
    show 32 ≤ (nodeNodePath _).length
    rw [length_nodeNodePath, hmod]
    omega
  have hrest : ∀ x ∈ (List.range 28).map fun j => path (3 + j), 31 ≤ x.length := by
    refine List.forall_mem_map.mpr fun j _ => ?_
    have hone := one_le_numDigits ((N + 9 + (3 + j + 1)) % N)
    show 31 ≤ (nodeNodePath _).length
    rw [length_nodeNodePath]
    omega
  have hle₁ := le_length_terminated (d := comma) hfirst
  have hle₂ := le_length_terminated (d := comma) hrest
  rw [List.length_map, List.length_range] at hle₁ hle₂
  rw [length_replicaMessage, hpaths, terminated_append, List.length_append, hdigits]
  unfold managerNodesSocketBufferSize
  omega

theorem length_nodeClientPath (pid : ℕ) : (nodeClientPath pid).length = 32 + numDigits pid := by
  have htag : (ascii "/tmp/gtstore_node_client_socket_").length = 32 := by decide
  rw [nodeClientPath, List.length_append, htag]
  rfl

/-- The pair of a node in the table. -/
theorem length_nodePair (i pid : ℕ) (h : 0 ∉ nodeClientPath pid) :
    (Manager.nodePair i ⟨nodeClientPath pid, h⟩).length = numDigits i + numDigits pid + 33 := by
  rw [Manager.nodePair, List.length_append, List.length_cons, length_nodeClientPath]
  show numDigits i + _ = _
  omega

/-- The nodes in the table. No node is marked as dead. -/
theorem length_terminated_pairs (c : Setup) :
    (terminated comma c.manager.pairs).length =
      (c.pids.mapIdx fun i pid => numDigits i + numDigits pid + 34).sum := by
  rw [length_terminated]
  congr 1
  refine List.ext_getElem (by simp [Manager.pairs, manager, Manager.started]) fun i h₁ h₂ => ?_
  simp [Manager.pairs, manager, Manager.started, length_nodePair]

/-- The length of the answer to `INITIALIZE_CLIENT`. -/
theorem length_initializeResponse (c : Setup) :
    c.manager.initializeResponse.length = 43 + numDigits c.numRep +
      (c.pids.mapIdx fun i pid => numDigits i + numDigits pid + 34).sum := by
  have hnum : (ascii "NUM_REPLICAS:").length = 13 := by decide
  have htags : (ascii ";HASH_FUNCTION:ADD-ASCII;NODES:").length = 31 := by decide
  have hrep : decimalInt c.manager.numRep.val = decimal c.numRep := decimalInt_natCast _
  simp only [Manager.initializeResponse, List.length_dropLast, List.length_append, hnum, htags,
    length_terminated_pairs, hrep, numDigits]
  omega

/-- Every node takes 36 bytes of the table at least. -/
theorem le_sum_mapIdx (c : Setup) :
    c.pids.length * 36 ≤ (c.pids.mapIdx fun i pid => numDigits i + numDigits pid + 34).sum := by
  have hpairs : ∀ x ∈ c.manager.pairs, 35 ≤ x.length := by
    intro x hx
    have hnodes : x ∈ c.manager.nodeAddressMap.mapIdx Manager.nodePair :=
      (List.mem_append.mp hx).resolve_right List.not_mem_nil
    obtain ⟨i, hi, rfl⟩ := List.mem_mapIdx.mp hnodes
    show 1 + 1 + 33 ≤ (Manager.nodePair i ((c.pids.map _).get ⟨i, hi⟩)).length
    rw [List.get_eq_getElem, List.getElem_map, length_nodePair]
    exact Nat.add_le_add_right (Nat.add_le_add (one_le_numDigits _) (one_le_numDigits _)) 33
  have hcount : c.manager.pairs.length = c.pids.length := by
    simp [Manager.pairs, manager, Manager.started]
  rw [← length_terminated_pairs, ← hcount]
  exact le_length_terminated hpairs

/-! ### All messages -/

/-- A system whose table fits has at most 27 nodes. -/
theorem Setup.Fits.numNodes_le {c : Setup} (h : c.Fits) : c.pids.length ≤ 27 := by
  have htable := h.table
  have hsum := le_sum_mapIdx c
  have hone := one_le_numDigits c.numRep
  unfold managerClientSocketBufferSize at htable
  omega

/-- The number of replicas, from the messages with their paths. -/
theorem Setup.replicas_of_sent {c : Setup}
    (h : ∀ i < c.pids.length,
      (replicaMessage c.pids.length c.numRep i).length < managerNodesSocketBufferSize) :
    c.numRep ≤ 31 ∨ c.numRep = 32 ∧ c.pids.length ≤ 10 := by
  have hfirst := h 0 c.one_le_numNodes
  have hle := le_length_replicaMessage c.pids.length c.numRep 0
  have hone := one_le_numDigits c.numRep
  have hcases : c.numRep ≤ 31 ∨ c.numRep = 32 := by
    unfold managerNodesSocketBufferSize at hfirst
    omega
  refine hcases.imp_right fun hrep => ⟨hrep, ?_⟩
  by_contra hmany
  have hnine := h 9 (by omega)
  rw [hrep] at hnine
  exact absurd (replicaMessage_of_eleven (show 11 ≤ c.pids.length by omega)) (by omega)

/-- The other way round. -/
theorem Setup.Fits.replicaMessage_lt {c : Setup} (h : c.Fits) (i : ℕ) :
    (replicaMessage c.pids.length c.numRep i).length < managerNodesSocketBufferSize := by
  have hpos : 0 < c.pids.length := c.one_le_numNodes
  have hnodes := h.numNodes_le
  rcases h.replicas with hrep | ⟨hrep, hten⟩
  · have hle := length_replicaMessage_le (K := c.numRep) (k := 2) hpos (by decide)
      (hnodes.trans (by decide)) i
    have hdigits : numDigits c.numRep ≤ 2 := numDigits_le (by decide) (by omega)
    unfold managerNodesSocketBufferSize
    omega
  · have hle := length_replicaMessage_le (K := c.numRep) (k := 1) hpos (by decide)
      (hten.trans (by decide)) i
    have hdigits : numDigits c.numRep ≤ 2 := numDigits_le (by decide) (by omega)
    unfold managerNodesSocketBufferSize
    omega

/-- The reports of dead nodes are short when there are few replicas. -/
theorem Setup.Fits.deadNodesMessage_lt {c : Setup} (h : c.Fits) {up : ℕ → Bool} {key : Bytes}
    {ids : List CInt} (hids : ids.map Subtype.val = (c.client.route up key).2.map Int.ofNat) :
    (deadNodesMessage ids).length < managerClientSocketBufferSize := by
  have hpos : 0 < c.pids.length := c.one_le_numNodes
  have hnodes := h.numNodes_le
  obtain ⟨hcount, hlt⟩ := contact_dead hpos up c.numRep (hashNode_lt hpos key)
  rw [← c.client_route] at hcount hlt
  have hle := length_deadNodesMessage_le (k := 2) hids fun d hd =>
    numDigits_le (by decide) ((hlt d hd).trans_le (hnodes.trans (by decide)))
  have hrep := h.replicas
  unfold managerClientSocketBufferSize
  omega

theorem Setup.registrationReply_lt (c : Setup) {i : ℕ} (hi : i < c.pids.length) :
    (registrationReply i).length < managerNodesSocketBufferSize := by
  have htag : (ascii "Node connected to manager:").length = 26 := by decide
  have hdigits : (decimal i).length ≤ 10 := numDigits_le_of_le_intMax (hi.le.trans c.numNodes_le)
  rw [registrationReply, List.length_append, htag]
  unfold managerNodesSocketBufferSize
  omega

/-- In a system that fits, the nodes start as they should. -/
theorem Setup.Fits.connectToManager_eq {c : Setup} (h : c.Fits) {i : ℕ} (hi : i < c.pids.length) :
    connectToManager c.pids.length c.numRep i = some (c.node i) := by
  rw [GTStore.connectToManager_eq c.one_le_numRep
    ⟨c.registrationReply_lt hi, h.replicaMessage_lt i⟩, node,
    parse_replicaMessage _ _ _ c.one_le_numRep]

/-- **No message is cut.** All messages of a system are shorter than the buffers in which they are
received if and only if the table of the nodes has fewer than 1024 bytes, and there are at most 31
replicas, or 32 for at most ten nodes. -/
theorem messages_fit_iff (c : Setup) :
    (∀ text size, c.Sent text size → text.length < size) ↔ c.Fits := by
  constructor
  -- the two conditions are those of two of the messages
  · intro h
    refine ⟨?_, replicas_of_sent fun i hi => h _ _ (.replicaPaths hi)⟩
    rw [← length_initializeResponse]
    exact h _ _ .initializeResponse
  · rintro h text size hsent
    cases hsent with
    | @registration pid hpid =>
      have htag : (ascii "NODE_CLIENT_SOCKET_PATH:").length = 24 := by decide
      have hdigits := numDigits_le_of_le_intMax (c.pid_le pid hpid)
      rw [registrationMsg, List.length_append, htag, length_nodeClientPath]
      unfold managerNodesSocketBufferSize
      omega
    | registrationReply hi => exact c.registrationReply_lt hi
    | replicaPaths hi => exact h.replicaMessage_lt _
    | initializeClient => decide
    | initializeResponse =>
      rw [length_initializeResponse]
      exact h.table
    -- requests and replies are bounded by the limits on keys and values
    | request hop => exact (length_request_le hop).trans_lt (by decide)
    | @reply i n op reply hi hn hop hreply =>
      have hstored : Stored i n := Stored.of_reachable (c.stored_node i) hn
      exact (hstored.length_reply_le (hi.le.trans c.numNodes_le) hop hreply).trans_lt (by decide)
    | replicate hop hmsg => exact (length_replication_le hop hmsg).trans_lt (by decide)
    | deadNodes _ hids => exact h.deadNodesMessage_lt hids
    | deadNodesReceived => decide

/-- Twenty-five nodes, seven of which hold a key. -/
def crowded : Setup where
  numRep := 7
  pids := (List.range 25).map (10000 + ·)
  one_le_numRep := by decide
  numRep_le := by decide
  one_le_numNodes := by decide
  numNodes_le := by decide
  pid_le := List.forall_mem_map.mpr fun i hi => by
    have hlt := List.mem_range.mp hi
    unfold intMax
    omega

/-- One node that is its own replica thirty-two times. -/
def replicated : Setup where
  numRep := 33
  pids := [10000]
  one_le_numRep := by decide
  numRep_le := by decide
  one_le_numNodes := by decide
  numNodes_le := by decide
  pid_le := List.forall_mem_singleton.mpr (by decide)

/-- The table of 25 nodes has 1059 bytes, and 32 replica paths take 1053 bytes; the buffers have
1024. -/
theorem table_and_paths_cut :
    crowded.Sent crowded.manager.initializeResponse managerClientSocketBufferSize ∧
      crowded.manager.initializeResponse.length = 1059 ∧
      replicated.Sent (replicaMessage 1 33 0) managerNodesSocketBufferSize ∧
      (replicaMessage 1 33 0).length = 1053 ∧
      managerClientSocketBufferSize = 1024 ∧ managerNodesSocketBufferSize = 1024 := by
  refine ⟨.initializeResponse, ?_, .replicaPaths (by decide), ?_, rfl, rfl⟩
  · rw [length_initializeResponse]
    decide +kernel
  · rw [length_replicaMessage, length_terminated_replicaPaths]
    decide +kernel

end GTStore
end OSLab
