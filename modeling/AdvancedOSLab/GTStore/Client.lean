import AdvancedOSLab.GTStore.Manager

/-!
# The GTStore client

`GTStoreClient::put` and `GTStoreClient::get` of `client.cpp`. Both find their
node in the same three steps, which the source writes out twice:

* `hashNode`: the `ADD-ASCII` sum of the key's signed characters in a 32-bit
  `int`, converted to the unsigned type of `node_address_map.size()` and reduced
  modulo it. For a negative sum the conversion wraps around.
* `skipDead`: one step along the ring when the client already knows the node to
  be dead. The `while` around it stops after the first skip, whatever the next
  node is.
* `contact`: the loop over the attempts that are left, which moves one node
  further after every failed connection.

`putMessage`, `getMessage` and `parseGetReply` are the text formats. With
`exchange`, one connection to one node, they make up the two calls. A node that
serves a `PUT` connects to its replicas before it answers. A replica takes such a
connection only after it has served a client, and the queue in front of it holds
eleven: the next `connect` blocks, and so does the call.

`parseGetReply_getReply` is the codec lemma of the reply: the four texts a value
passes through (the client's join, the node's split, the node's join and the
client's split) give it back. It is for keys without a comma: the reply starts
with the key, and the client looks for the first two commas of the reply.
`getReply_read_back_iff` says what becomes of the others.
-/

namespace OSLab
namespace GTStore

open Text Bytes

/-! ### Finding the node -/

/-- The `int` sum of the characters of a key, which are signed. -/
def addAscii (key : Bytes) : BitVec 32 :=
  key.foldl (fun sum c => sum + c.toBitVec.signExtend 32) 0

/-- `sum % node_address_map.size()`. -/
def hashNode (N : ℕ) (key : Bytes) : ℕ := ((addAscii key).signExtend 64).toNat % N

theorem hashNode_lt {N : ℕ} (hN : 0 < N) (key : Bytes) : hashNode N key < N :=
  Nat.mod_lt _ hN

/-- The scan of `dead_node_ids`: the node to start with and the number of
attempts that are left. -/
def skipDead (N : ℕ) (deadNodeIds : List ℕ) (nodeId numReplicas : ℕ) : ℕ × ℕ :=
  if 0 < numReplicas ∧ nodeId ∈ deadNodeIds then ((nodeId + 1) % N, numReplicas - 1)
  else (nodeId, numReplicas)

/-- The loop over the attempts: the node of the first connection that succeeds,
and the nodes found dead before it. -/
def contact (N : ℕ) (up : ℕ → Bool) : ℕ → ℕ → Option ℕ × List ℕ
  | 0, _ => (none, [])
  | attempts + 1, nodeId =>
    if up nodeId then (some nodeId, [])
    else
      -- the node goes to the dead list, and the next one of the ring is tried
      let r := contact N up attempts ((nodeId + 1) % N)
      (r.1, nodeId :: r.2)

/-- The table a client holds after `init`. -/
structure Client where
  numReplicas : ℕ
  nodeAddressMap : List Bytes
  deadNodeIds : List ℕ
  hashFunction : Bytes

namespace Client

variable (c : Client)

/-- The node a key hashes to. -/
def target (key : Bytes) : ℕ := hashNode c.nodeAddressMap.length key

/-- The first node to try and the number of attempts, after the dead list. -/
def attempts (key : Bytes) : ℕ × ℕ :=
  skipDead c.nodeAddressMap.length c.deadNodeIds (c.target key) c.numReplicas

/-- Route a call: the node contacted, and the nodes found dead on the way. -/
def route (up : ℕ → Bool) (key : Bytes) : Option ℕ × List ℕ :=
  contact c.nodeAddressMap.length up (c.attempts key).2 (c.attempts key).1

end Client

/-! ### The texts -/

/-- `print_value`: every value followed by a space. -/
def printValue (value : Val) : Bytes := terminated space value

/-- The message of a `put`. -/
def putMessage (key : Bytes) (value : Val) : Bytes :=
  ascii "PUT:" ++ key ++ [space] ++ printValue value

/-- The message of a `get`. -/
def getMessage (key : Bytes) : Bytes := ascii "GET:" ++ key

/-- A call of the client interface. -/
inductive Op where
  | put (key : Bytes) (value : Val)
  | get (key : Bytes)
  deriving DecidableEq

namespace Op

def key : Op → Bytes
  | put key _ => key
  | get key => key

/-- The call is a `put` of the key `k`. -/
def isPutOf (k : Bytes) : Op → Bool
  | put key _ => key = k
  | get _ => false

/-- The message a call sends. -/
def request : Op → Bytes
  | put key value => putMessage key value
  | get key => getMessage key

end Op

/-- What a call returns: the `bool` of a `put` or the `val_t` of a `get`. -/
inductive Result where
  | acked (success : Bool)
  | value (v : Val)
  deriving DecidableEq

/-- The answer of a call that failed. -/
def errorValue : Val := [ascii "ERROR"]

/-- The result of a call that ran out of attempts. -/
def Op.failure : Op → Result
  | put _ _ => .acked false
  | get _ => .value errorValue

/-- What `GTStoreClient::get` makes of the reply. The length of the value text
is computed in an unsigned type: when the two commas are neighbours it wraps to
`npos` and the text runs to the end. -/
def parseGetReply (receivedMsg : Bytes) : Val :=
  if receivedMsg = ascii "KEY_NOT_FOUND" then errorValue
  else
    match find [comma] receivedMsg with
    | none => errorValue
    | some firstCommaPos =>
      match findFrom [comma] receivedMsg (firstCommaPos + 1) with
      | none => errorValue
      | some secondCommaPos =>
        -- the values stand behind the first comma and the space that follows it
        let valueStr :=
          if secondCommaPos = firstCommaPos + 1 then receivedMsg.drop (firstCommaPos + 2)
          else (receivedMsg.drop (firstCommaPos + 2)).take (secondCommaPos - firstCommaPos - 2)
        splitWith (fun val => val ≠ []) space valueStr

/-- The result of a call that received an answer. A `put` only prints it. -/
def Op.result : Op → Bytes → Result
  | put _ _, _ => .acked true
  | get _, answer => .value (parseGetReply answer)

/-! ### The two calls -/

/-- `listen(node_node_fd, 10)`: `connect` blocks while more than 10 connections are
queued. -/
def listenBacklog : ℕ := 10

/-- The nodes, and the `REPLICATE` messages of the connections that are queued at the
node-to-node socket of each. -/
structure Nodes where
  node : ℕ → Node
  nodeQueue : ℕ → List Bytes

/-- The loop over `replica_node_addresses`, among `N` nodes of which those that are
`up` accept connections. There is no result when a queue is full: a node takes a
connection off its queue only after it has served a client, and all of them wait. -/
def sendReplications (N : ℕ) (up : ℕ → Bool) (msg : Bytes) :
    List Bytes → (ℕ → List Bytes) → Option (ℕ → List Bytes)
  | [], queue => some queue
  | replicaPath :: replicaPaths, queue =>
    match listener N replicaPath with
    -- "connect error", and the next replica
    | none => sendReplications N up msg replicaPaths queue
    | some m =>
      if !up m then sendReplications N up msg replicaPaths queue
      else if listenBacklog < (queue m).length then none
      else sendReplications N up msg replicaPaths (Function.update queue m (queue m ++ [msg]))

/-- The second half of an iteration of node `i`: at most one node-to-node connection
is taken, which may be one of the node itself. -/
def Nodes.takeReplication (i : ℕ) (s : Nodes) : Option Nodes :=
  match s.nodeQueue i with
  | [] => some s
  | msg :: rest => do
    let receivedMsg ← recvString nodeNodeSocketBufferSize msg
    some
      { node := Function.update s.node i (handleReplicaMessage (s.node i) receivedMsg)
        nodeQueue := Function.update s.nodeQueue i rest }

/-- One connection of a client to node `i`, which is one iteration of its main loop:
the node receives the message, handles it, passes a value on to its replicas and
answers; the client receives the answer; and the node takes a node-to-node
connection. There is no result when a message does not fit its buffer, when the node
does not answer, or when it waits for a replica. -/
def exchange (N : ℕ) (up : ℕ → Bool) (i : ℕ) (msg : Bytes) (s : Nodes) :
    Option (Bytes × Nodes) := do
  let received ← recvString nodeClientSocketBufferSize msg
  let handled := handleClientMessage (s.node i) received
  let nodeQueue ← handled.replication.elim (some s.nodeQueue) fun replicationMsg =>
    sendReplications N up replicationMsg (s.node i).replicaNodeAddresses s.nodeQueue
  let reply ← handled.reply
  let answer ← recvString nodeClientSocketBufferSize reply
  let s ← Nodes.takeReplication i
    { node := Function.update s.node i handled.node, nodeQueue := nodeQueue }
  some (answer, s)

/-- `GTStoreClient::put` over nodes of which those that are `up` accept connections:
the result, and the nodes afterwards. -/
def Client.put (c : Client) (up : ℕ → Bool) (s : Nodes) (key : Bytes) (value : Val) :
    Option (Bool × Nodes) :=
  if c.hashFunction ≠ ascii "ADD-ASCII" then some (false, s)
  else
    match (c.route up key).1 with
    | none => some (false, s)
    | some i =>
      (exchange c.nodeAddressMap.length up i (putMessage key value) s).map fun r => (true, r.2)

/-- `GTStoreClient::get` over the same nodes. -/
def Client.get (c : Client) (up : ℕ → Bool) (s : Nodes) (key : Bytes) : Option (Val × Nodes) :=
  if c.hashFunction ≠ ascii "ADD-ASCII" then some (errorValue, s)
  else
    match (c.route up key).1 with
    | none => some (errorValue, s)
    | some i =>
      (exchange c.nodeAddressMap.length up i (getMessage key) s).map fun r =>
        (parseGetReply r.1, r.2)

/-! ### Routing finds the first live node of the ring -/

/-- A key that survives every text it is part of: no space, no comma, no NUL,
and nothing that makes a `GET` of it look like a `PUT`. -/
structure PlainKey (key : Bytes) : Prop where
  noSpace : space ∉ key
  noComma : comma ∉ key
  noNul : 0 ∉ key
  noPut : ¬ ascii "PUT:" <:+: key

instance (key : Bytes) : Decidable (PlainKey key) :=
  decidable_of_iff (space ∉ key ∧ comma ∉ key ∧ 0 ∉ key ∧ ¬ ascii "PUT:" <:+: key)
    ⟨fun ⟨h₁, h₂, h₃, h₄⟩ => ⟨h₁, h₂, h₃, h₄⟩, fun ⟨h₁, h₂, h₃, h₄⟩ => ⟨h₁, h₂, h₃, h₄⟩⟩

/-- A value list that survives: non-empty strings without space, comma or NUL. -/
structure PlainVal (value : Val) : Prop where
  nonempty : ∀ v ∈ value, v ≠ []
  noSpace : ∀ v ∈ value, space ∉ v
  noComma : ∀ v ∈ value, comma ∉ v
  noNul : ∀ v ∈ value, 0 ∉ v

instance (value : Val) : Decidable (PlainVal value) :=
  decidable_of_iff ((∀ v ∈ value, v ≠ []) ∧ (∀ v ∈ value, space ∉ v) ∧
      (∀ v ∈ value, comma ∉ v) ∧ ∀ v ∈ value, 0 ∉ v)
    ⟨fun ⟨h₁, h₂, h₃, h₄⟩ => ⟨h₁, h₂, h₃, h₄⟩, fun ⟨h₁, h₂, h₃, h₄⟩ => ⟨h₁, h₂, h₃, h₄⟩⟩

theorem notMem_printValue {b : UInt8} {value : Val} (hb : b ≠ space)
    (h : ∀ v ∈ value, b ∉ v) : b ∉ printValue value := by
  intro hm
  rcases mem_terminated hm with rfl | ⟨v, hv, hbv⟩
  · exact hb rfl
  · exact h v hv hbv

/-- A request contains a NUL only if its key or its value does. -/
theorem zero_notMem_request {op : Op} (hkey : 0 ∉ op.key)
    (hvalue : ∀ key value, op = .put key value → ∀ v ∈ value, 0 ∉ v) : 0 ∉ op.request := by
  cases op with
  | put key value =>
    have hprint : 0 ∉ printValue value := notMem_printValue (by decide) (hvalue key value rfl)
    change 0 ∉ ascii "PUT:" ++ key ++ [space] ++ printValue value
    simp only [List.mem_append, not_or]
    exact ⟨⟨⟨by decide, hkey⟩, by decide⟩, hprint⟩
  | get key =>
    change 0 ∉ ascii "GET:" ++ key
    rw [List.mem_append, not_or]
    exact ⟨by decide, hkey⟩

/-- The node splits the value text into the values again. -/
theorem split_printValue {value : Val} (h : ∀ v ∈ value, space ∉ v) :
    split space (printValue value) = value :=
  split_terminated h

/-- A `PUT` message is dispatched as one. -/
theorem find_put_putMessage (key : Bytes) (value : Val) :
    (find (ascii "PUT:") (putMessage key value)).isSome = true := by
  unfold putMessage
  rw [List.append_assoc, List.append_assoc, find_append_self]
  rfl

/-- A `GET` message is not dispatched as a `PUT` unless the key contains one. -/
theorem find_put_getMessage {key : Bytes} (h : ¬ ascii "PUT:" <:+: key) :
    find (ascii "PUT:") (getMessage key) = none := by
  -- the tag of the message holds no `P`, so a match lies within the key
  have hP : (80 : UInt8) ∉ ascii "GET:" := by decide
  unfold getMessage
  change find (80 :: ascii "UT:") (ascii "GET:" ++ key) = none
  rw [find_append_of_notMem hP, Option.map_eq_none_iff, find_eq_none_iff]
  exact h

theorem find_get_getMessage (key : Bytes) :
    (find (ascii "GET:") (getMessage key)).isSome = true := by
  unfold getMessage
  rw [find_append_self]
  rfl

/-- The key of a `GET` message is what stands behind its first colon. -/
theorem drop_getMessage (key : Bytes) :
    (getMessage key).drop (after (find [colon] (getMessage key))) = key := by
  have hshape : getMessage key = ascii "GET" ++ colon :: key := rfl
  rw [hshape, find_singleton_append (by decide), after_some]
  rfl

theorem parseKeyValue_putMessage {key : Bytes} (hkey : space ∉ key) (value : Val) :
    parseKeyValue (putMessage key value) = (key, printValue value) :=
  @parseKeyValue_tagged (ascii "PUT") key (by decide) hkey _

theorem storedBy_putMessage {key : Bytes} (hkey : space ∉ key) (value : Val) :
    storedBy (putMessage key value) = some (key, printValue value) := by
  unfold storedBy
  rw [if_pos (find_put_putMessage key value), parseKeyValue_putMessage hkey]

theorem storedBy_getMessage {key : Bytes} (h : ¬ ascii "PUT:" <:+: key) :
    storedBy (getMessage key) = none := by
  unfold storedBy
  rw [find_put_getMessage h]
  rfl

/-- A node that receives a `PUT` stores the value text, passes it on and
answers. -/
theorem handleClientMessage_putMessage {key : Bytes} (hkey : space ∉ key) (value : Val)
    (n : Node) :
    handleClientMessage n (putMessage key value)
      = { node := storeKeyValue key (printValue value) n
          replication := some (replicationMsg key (printValue value))
          reply := some (ascii "OK, SERVER_" ++ n.nodeId)
          close := false } := by
  unfold handleClientMessage
  rw [if_pos (find_put_putMessage key value), parseKeyValue_putMessage hkey]

/-- A node that receives a `GET` answers from its table and does nothing else. -/
theorem handleClientMessage_getMessage {key : Bytes} (h : ¬ ascii "PUT:" <:+: key)
    (n : Node) :
    handleClientMessage n (getMessage key)
      = { node := n
          replication := none
          reply := some (match n.storageKeyValueMap key with
            | none => ascii "KEY_NOT_FOUND"
            | some values => getReply n key values)
          close := false } := by
  unfold handleClientMessage
  rw [if_neg (by rw [find_put_getMessage h]; decide), if_pos (find_get_getMessage key)]
  dsimp only
  rw [drop_getMessage]
  cases n.storageKeyValueMap key <;> rfl

/-! ### The reply codec -/

/-- What the client takes for the values: the text between the first two commas without its first
character, or, when the commas are neighbours, all that is behind them. -/
theorem parseGetReply_of_commas {a b : Bytes} (ha : comma ∉ a) (hb : comma ∉ b) (rest : Bytes) :
    parseGetReply (a ++ comma :: (b ++ comma :: rest)) =
      splitWith (fun val => val ≠ []) space (if b = [] then rest else b.drop 1) := by
  -- a reply with a comma is not the text for a missing key
  have hfound : a ++ comma :: (b ++ comma :: rest) ≠ ascii "KEY_NOT_FOUND" := by
    intro heq
    have hmem : comma ∈ a ++ comma :: (b ++ comma :: rest) := by simp
    rw [heq] at hmem
    exact absurd hmem (by decide)
  have hsecond : findFrom [comma] (a ++ comma :: (b ++ comma :: rest)) (a.length + 1) =
      some (b.length + (a.length + 1)) := by
    have hshape : a ++ comma :: (b ++ comma :: rest) = (a ++ [comma]) ++ b ++ comma :: rest := by
      simp
    have hlength : a.length + 1 = (a ++ [comma]).length := by simp
    rw [hshape, hlength, findFrom_append hb]
  have hdrop : (a ++ comma :: (b ++ comma :: rest)).drop (a.length + 2) =
      (b ++ comma :: rest).drop 1 := by
    rw [List.drop_append, List.drop_of_length_le (by omega), List.nil_append]
    have htwo : a.length + 2 - a.length = 2 := by omega
    rw [htwo]
    rfl
  unfold parseGetReply
  rw [if_neg hfound, find_singleton_append ha]
  dsimp only
  rw [hsecond]
  dsimp only
  rw [hdrop]
  cases b with
  | nil => simp
  | cons c b =>
    have hlength : (c :: b).length + (a.length + 1) - a.length - 2 = b.length := by
      rw [List.length_cons]
      omega
    rw [if_neg (by rw [List.length_cons]; omega), hlength, if_neg (List.cons_ne_nil c b)]
    simp

/-- **The reply codec.** What the client reads out of the reply to a `GET` is the
stored list, for every key without a comma and every list of non-empty values
without space or comma, the empty list included. -/
theorem parseGetReply_getReply {n : Node} {key : Bytes} {values : Val} (hkey : comma ∉ key)
    (hnonempty : ∀ v ∈ values, v ≠ []) (hspace : ∀ v ∈ values, space ∉ v)
    (hcomma : ∀ v ∈ values, comma ∉ v) : parseGetReply (getReply n key values) = values := by
  have hshape : getReply n key values =
      key ++ comma :: ((space :: terminated space values) ++ comma ::
        (ascii " SERVER_" ++ n.nodeId)) := by
    simp [getReply, ascii, comma, space]
  have hvalues : comma ∉ space :: terminated space values := by
    rw [List.mem_cons, not_or]
    exact ⟨by decide, notMem_printValue (by decide) hcomma⟩
  rw [hshape, parseGetReply_of_commas hkey hvalues, if_neg (List.cons_ne_nil _ _)]
  show splitWith _ space (terminated space values) = values
  rw [splitWith_terminated _ hspace]
  -- the client drops empty pieces, and there are none
  refine List.filter_eq_self.mpr fun v hv => ?_
  simpa using hnonempty v hv

theorem zero_notMem_getReply {n : Node} {key : Bytes} {value : Val} (hid : 0 ∉ n.nodeId)
    (hkey : 0 ∉ key) (hval : PlainVal value) : 0 ∉ getReply n key value := by
  have hprint : 0 ∉ terminated space value := notMem_printValue (by decide) hval.noNul
  unfold getReply
  simp only [List.mem_append, not_or]
  exact ⟨⟨⟨⟨hkey, by decide⟩, hprint⟩, by decide⟩, hid⟩

/-- The answer to a `get` of a plain key that holds a plain value is that value. -/
theorem result_of_get {n : Node} {key : Bytes} {value : Val} (hkey : PlainKey key)
    (hvalue : PlainVal value) (hid : 0 ∉ n.nodeId)
    (hmap : n.storageKeyValueMap key = some value) {reply answer : Bytes}
    (hreply : (handleClientMessage n (getMessage key)).reply = some reply) {size : ℕ}
    (hanswer : recvString size reply = some answer) :
    (Op.get key).result answer = .value value := by
  rw [handleClientMessage_getMessage hkey.noPut, hmap] at hreply
  obtain rfl := Option.some.inj hreply
  have h0 := zero_notMem_getReply hid hkey.noNul hvalue
  obtain rfl : answer = getReply n key value := by
    rw [← (recvString_eq_some_iff.mp hanswer).2, cstr_eq_self h0]
  change Result.value (parseGetReply (getReply n key value)) = _
  rw [parseGetReply_getReply hkey.noComma hvalue.nonempty hvalue.noSpace hvalue.noComma]

/-- The answer to a `get` of a plain key that is not in the table. -/
theorem result_of_missing {n : Node} {key : Bytes} (hkey : PlainKey key)
    (hmap : n.storageKeyValueMap key = none) {reply answer : Bytes}
    (hreply : (handleClientMessage n (getMessage key)).reply = some reply) {size : ℕ}
    (hanswer : recvString size reply = some answer) :
    (Op.get key).result answer = .value errorValue := by
  rw [handleClientMessage_getMessage hkey.noPut, hmap] at hreply
  obtain rfl : ascii "KEY_NOT_FOUND" = reply := Option.some.inj hreply
  obtain rfl : answer = ascii "KEY_NOT_FOUND" := by
    rw [← (recvString_eq_some_iff.mp hanswer).2, cstr_eq_self (by decide)]
  rfl

/-- What stands in a key between its first comma and the next one, or the end. -/
def secondField (key : Bytes) : Bytes :=
  ((key.dropWhile (· ≠ comma)).drop 1).takeWhile (· ≠ comma)

theorem secondField_sublist (key : Bytes) : List.Sublist (secondField key) key :=
  (List.takeWhile_sublist _).trans ((List.drop_sublist 1 _).trans (List.dropWhile_sublist _))

theorem secondField_append {a : Bytes} (ha : comma ∉ a) (rest : Bytes) :
    secondField (a ++ comma :: rest) = rest.takeWhile (· ≠ comma) := by
  have hdrop : (a ++ comma :: rest).dropWhile (· ≠ comma) = comma :: rest := by
    rw [List.dropWhile_append_of_pos fun c hc => by
      simpa using fun heq : c = comma => ha (heq ▸ hc)]
    simp
  rw [secondField, hdrop]
  rfl

/-- A text with a comma, up to its first comma and behind it. -/
theorem eq_takeWhile_append {s : Bytes} (h : comma ∈ s) :
    ∃ rest, s = s.takeWhile (· ≠ comma) ++ comma :: rest := by
  obtain ⟨a, rest, rfl, ha⟩ : ∃ a rest, s = a ++ comma :: rest ∧ comma ∉ a :=
    List.eq_append_cons_of_mem h
  refine ⟨rest, ?_⟩
  rw [List.takeWhile_append_of_pos fun c hc => by
    simpa using fun heq : c = comma => ha (heq ▸ hc)]
  simp

/-- With a comma in the key the two commas that the client looks for are found in the key, or the
second one right behind it. -/
theorem getReply_of_comma {n : Node} {key : Bytes} (hkey : comma ∈ key) (values : Val) :
    ∃ a rest, comma ∉ a ∧ comma ∉ secondField key ∧ comma ∈ rest ∧
      getReply n key values = a ++ comma :: (secondField key ++ comma :: rest) := by
  obtain ⟨a, tail, rfl, ha⟩ : ∃ a tail, key = a ++ comma :: tail ∧ comma ∉ a :=
    List.eq_append_cons_of_mem hkey
  rw [secondField_append ha]
  have hfield : comma ∉ tail.takeWhile (· ≠ comma) := by
    intro hmem
    simpa using List.mem_takeWhile_imp hmem
  by_cases htail : comma ∈ tail
  · obtain ⟨rest, hrest⟩ := eq_takeWhile_append htail
    refine ⟨a, rest ++ ascii ", " ++ terminated space values ++ ascii ", SERVER_" ++ n.nodeId,
      ha, hfield, by simp [ascii, comma], ?_⟩
    nth_rewrite 1 [hrest]
    simp [getReply]
  · -- the second comma is the first one of the reply itself
    refine ⟨a, ascii " " ++ terminated space values ++ ascii ", SERVER_" ++ n.nodeId,
      ha, hfield, by simp [ascii, comma], ?_⟩
    rw [List.takeWhile_eq_self_iff.mpr fun c hc => by
      simpa using fun heq : c = comma => htail (heq ▸ hc)]
    simp [getReply, ascii, comma]

/-- For every key without a space and every list of non-empty values without space or comma, the
client reads the list out of the reply if and only if the key has no comma, or the list happens to
be what stands behind the first comma of the key, from the second character on. -/
theorem getReply_read_back_iff (n : Node) (key : Bytes) (values : Val) (hkey : space ∉ key)
    (hvalues : ∀ v ∈ values, v ≠ [] ∧ space ∉ v ∧ comma ∉ v) :
    parseGetReply (getReply n key values) = values ↔
      comma ∉ key ∨
        secondField key ≠ [] ∧ values = [(secondField key).drop 1].filter (· ≠ []) := by
  by_cases hcomma : comma ∈ key
  · obtain ⟨a, rest, ha, hfield, hrest, hreply⟩ := getReply_of_comma (n := n) hcomma values
    rw [hreply, parseGetReply_of_commas ha hfield]
    by_cases hempty : secondField key = []
    · -- two neighbouring commas: one of the pieces has the comma behind them
      obtain ⟨piece, hpiece, hmem⟩ :
          ∃ piece ∈ splitWith (fun val => val ≠ []) space rest, comma ∈ piece :=
        exists_mem_splitWith (by decide) (fun x hx => by simpa using List.ne_nil_of_mem hx) hrest
      have hne : splitWith (fun val => val ≠ []) space rest ≠ values :=
        fun heq => (hvalues piece (heq ▸ hpiece)).2.2 hmem
      rw [if_pos hempty]
      refine iff_of_false hne ?_
      rintro (hnot | ⟨hnonempty, -⟩)
      · exact hnot hcomma
      · exact hnonempty hempty
    · have hspace : space ∉ (secondField key).drop 1 :=
        fun hmem => hkey ((secondField_sublist key).subset (List.mem_of_mem_drop hmem))
      have hread : splitWith (fun val => val ≠ []) space ((secondField key).drop 1) =
          [(secondField key).drop 1].filter (· ≠ []) := by
        rw [splitWith_of_notMem _ hspace, List.filter_singleton]
        split
        · next hone => rw [hone]; rfl
        · next hone => simp only [hone, ne_eq, not_false_eq_true, decide_true, cond_true]
      rw [if_neg hempty, hread, eq_comm]
      simp only [hcomma, not_true_eq_false, false_or, hempty, ne_eq, not_false_eq_true, true_and]
  · have hread : parseGetReply (getReply n key values) = values :=
      parseGetReply_getReply hcomma (fun v hv => (hvalues v hv).1)
        (fun v hv => (hvalues v hv).2.1) fun v hv => (hvalues v hv).2.2
    exact iff_of_true hread (.inl hcomma)

/-- A node without replicas that holds nothing. -/
def loneNode : Node :=
  { nodeId := ascii "0", replicaNodeAddresses := [], storageKeyValueMap := fun _ => none }

/-- A list of two values is read back. -/
theorem getReply_read_back_pair :
    parseGetReply (getReply loneNode (ascii "key") [ascii "v", ascii "w"]) =
      [ascii "v", ascii "w"] :=
  (getReply_read_back_iff loneNode (ascii "key") [ascii "v", ascii "w"] (by decide)
    (by simp [ascii, space, comma])).mpr (.inl (by decide))

/-- Under the key `a,b` the list is read back as the empty one, and under the key `a,bc` as the list
of the one value `c`. -/
theorem comma_key_not_read_back :
    parseGetReply (getReply loneNode (ascii "a,b") [ascii "v"]) = [] ∧
      parseGetReply (getReply loneNode (ascii "a,bc") [ascii "v"]) = [ascii "c"] := by
  decide +kernel

end GTStore
end OSLab
