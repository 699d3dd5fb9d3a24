import AdvancedOSLab.GTStore.Placement

/-!
# One node as a map

A run of `put` and `get` calls that are all served by one storage node, seen
through the whole text protocol. The abstract side is `latestPut`, the value of
the latest `put` of a key in a list of calls, and `answer`, what a store that
never forgets would say.

* `transcript` is the list of messages of a run, requests and replies.
* `callAll` is the run itself, through `Client.put` and `Client.get`.
* `node_refines_map_iff` is the refinement, for a node whose replicas are other
  nodes (`K ≤ N`). Nobody takes the `REPLICATE` connections off the queues of the
  replicas, since all clients are at this node. So the calls return, with the
  results of the abstract store, if and only if no replica is sent more than
  eleven of them.

With more copies than nodes a node is its own replica: it takes back its earlier
values one at a time, and later than newer ones (`own_replica_is_stale`).
-/

namespace OSLab
namespace GTStore

open Text Bytes

/-! ### The abstract store -/

/-- The value of the latest `put` of a key. -/
def latestPut (key : Bytes) (ops : List Op) : Option Val :=
  ops.reverse.findSome? fun
    | .put k value => if k = key then some value else none
    | .get _ => none

theorem latestPut_snoc_put (key k : Bytes) (value : Val) (ops : List Op) :
    latestPut key (ops ++ [.put k value]) = if k = key then some value else latestPut key ops := by
  unfold latestPut
  rw [List.reverse_append, List.reverse_singleton, List.singleton_append, List.findSome?_cons]
  split
  · next h => simp_all
  · next h => simp_all

theorem latestPut_snoc_get (key k : Bytes) (ops : List Op) :
    latestPut key (ops ++ [.get k]) = latestPut key ops := by
  unfold latestPut
  rw [List.reverse_append, List.reverse_singleton, List.singleton_append, List.findSome?_cons]

/-- What a call returns after the calls `earlier`. -/
def answer (earlier : List Op) : Op → Result
  | .put _ _ => .acked true
  | .get key => .value ((latestPut key earlier).getD errorValue)

/-- What each call of a list returns, after the calls `earlier`. -/
def answers : List Op → List Op → List Result
  | _, [] => []
  | earlier, op :: ops => answer earlier op :: answers (earlier ++ [op]) ops

/-- A call, the client that makes it and the nodes that accept connections then. -/
structure Call where
  client : Client
  up : ℕ → Bool
  op : Op

/-- The client knows the `N` nodes, and its routing leads the call to node `i`. -/
def Call.ServedBy (N i : ℕ) (c : Call) : Prop :=
  c.client.hashFunction = ascii "ADD-ASCII" ∧ c.client.nodeAddressMap.length = N ∧
    (c.client.route c.up c.op.key).1 = some i

instance (N i : ℕ) (c : Call) : Decidable (c.ServedBy N i) := by
  unfold Call.ServedBy
  infer_instance

/-- One call through the client interface. -/
def Call.run (s : Nodes) (c : Call) : Option (Result × Nodes) :=
  match c.op with
  | .put key value => (c.client.put c.up s key value).map fun r => (.acked r.1, r.2)
  | .get key => (c.client.get c.up s key).map fun r => (.value r.1, r.2)

/-- A list of calls, one after the other. -/
def callAll : Nodes → List Call → Option (List Result × Nodes)
  | s, [] => some ([], s)
  | s, c :: cs => do
    let r ← c.run s
    let rs ← callAll r.2 cs
    some (r.1 :: rs.1, rs.2)

def Op.isPut : Op → Bool
  | .put _ _ => true
  | .get _ => false

/-- The number of connections that the calls make a node queue at its replica `m`. -/
def sentTo (m : ℕ) (calls : List Call) : ℕ := calls.countP fun c => c.op.isPut && c.up m

/-- The messages between the clients and one node: every request, and the reply
to it. -/
def transcript : Node → List Op → List Bytes
  | _, [] => []
  | n, op :: ops =>
    op.request :: (handleClientMessage n op.request).reply.toList
      ++ transcript (handleClientMessage n op.request).node ops

/-- The keys and values of a call survive the texts. -/
def Op.Plain : Op → Prop
  | .put key value => PlainKey key ∧ PlainVal value
  | .get key => PlainKey key

instance (op : Op) : Decidable op.Plain :=
  match op with
  | .put key value => inferInstanceAs (Decidable (PlainKey key ∧ PlainVal value))
  | .get key => inferInstanceAs (Decidable (PlainKey key))

/-- The texts that come of a call are shorter than the buffers they are received into: its request,
and for a `put` also the message to the replicas and the reply of any of `N` nodes to a `get` of the
value. -/
def Op.Fits (N : ℕ) : Op → Prop
  | .put key value =>
    (putMessage key value).length < nodeClientSocketBufferSize ∧
      (replicationMsg key (printValue value)).length < nodeNodeSocketBufferSize ∧
      ∀ n < N, (getReply ⟨decimal n, [], fun _ => none⟩ key value).length
        < nodeClientSocketBufferSize
  | .get key => (getMessage key).length < nodeClientSocketBufferSize

instance (N : ℕ) (op : Op) : Decidable (op.Fits N) := by
  cases op <;> unfold Op.Fits <;> infer_instance

theorem Op.Fits.request {N : ℕ} {op : Op} (h : op.Fits N) :
    op.request.length < nodeClientSocketBufferSize := by
  cases op with
  | put key value => exact h.1
  | get key => exact h

/-- The table of a node is what the calls so far put into it. -/
structure Holds (n : Node) (earlier : List Op) : Prop where
  map : ∀ key, n.storageKeyValueMap key = latestPut key earlier
  plain : ∀ key value, n.storageKeyValueMap key = some value → PlainVal value
  id : 0 ∉ n.nodeId

theorem Op.Plain.key {op : Op} (h : op.Plain) : PlainKey op.key := by
  cases op with
  | put key value => exact h.1
  | get key => exact h

theorem Op.Plain.value {op : Op} (h : op.Plain) {key : Bytes} {value : Val}
    (hop : op = .put key value) : PlainVal value := by
  subst hop
  exact h.2

theorem Op.Plain.zero_notMem_request {op : Op} (h : op.Plain) : 0 ∉ op.request :=
  GTStore.zero_notMem_request h.key.noNul fun _ _ hop => (h.value hop).noNul

/-! ### One connection -/

/-- Among replicas that are different nodes, the loop queues the message at each of them
that accepts connections, and it ends unless one of their queues is full. -/
theorem sendReplications_eq {N : ℕ} (up : ℕ → Bool) (msg : Bytes) {ms : List ℕ}
    (hms : ∀ m ∈ ms, m < N) (hnodup : ms.Nodup) (queue : ℕ → List Bytes) :
    sendReplications N up msg (ms.map nodeNodePath) queue =
      if ∀ m ∈ ms, up m = true → (queue m).length ≤ listenBacklog then
        some fun m => if m ∈ ms ∧ up m = true then queue m ++ [msg] else queue m
      else none := by
  induction ms generalizing queue with
  | nil => simp [sendReplications]
  | cons m ms ih =>
    obtain ⟨hm, hnodup⟩ := List.nodup_cons.mp hnodup
    have ih := fun queue => ih (fun m' hm' => hms m' (List.mem_cons_of_mem m hm')) hnodup queue
    rw [List.map_cons, sendReplications, listener_nodeNodePath (hms m List.mem_cons_self)]
    dsimp only
    cases hup : up m with
    | false =>
      -- the connection fails, and the queues stay as they are
      rw [if_pos (by decide), ih]
      simp only [List.forall_mem_cons, hup, Bool.false_eq_true, false_implies, true_and]
      refine if_congr Iff.rfl (congrArg some (funext fun m' => ?_)) rfl
      by_cases hmm : m' = m
      · subst hmm
        simp [hup]
      · simp [hmm]
    | true =>
      rw [if_neg (by decide)]
      by_cases hfull : listenBacklog < (queue m).length
      · rw [if_pos hfull, if_neg]
        exact fun hroom => absurd (hroom m List.mem_cons_self hup) (Nat.not_le.mpr hfull)
      · have hother : ∀ m' ∈ ms, Function.update queue m (queue m ++ [msg]) m' = queue m' :=
          fun m' hm' => Function.update_of_ne (ne_of_mem_of_not_mem hm' hm) _ _
        rw [if_neg hfull, ih]
        simp only [List.forall_mem_cons, hup, true_implies, Nat.not_lt.mp hfull, true_and]
        refine if_congr (forall₂_congr fun m' hm' => ?_) (congrArg some (funext fun m' => ?_)) rfl
        · rw [hother m' hm']
        · by_cases hmm : m' = m
          · subst hmm
            simp [hm, hup]
          · simp [hmm]

section Exchange

variable {N i : ℕ} {up : ℕ → Bool} {s : Nodes} {msg reply : Bytes} {queue : ℕ → List Bytes}

/-- One connection when both messages arrive as they are, the replicas have room, and no
node-to-node connection is queued at the node afterwards. -/
theorem exchange_eq (hmsg : 0 ∉ msg) (hmsgLen : msg.length < nodeClientSocketBufferSize)
    (hsent : (handleClientMessage (s.node i) msg).replication.elim (some s.nodeQueue)
      (fun replicationMsg => sendReplications N up replicationMsg
        (s.node i).replicaNodeAddresses s.nodeQueue) = some queue)
    (hreply : (handleClientMessage (s.node i) msg).reply = some reply) (hreply0 : 0 ∉ reply)
    (hreplyLen : reply.length < nodeClientSocketBufferSize) (hown : queue i = []) :
    exchange N up i msg s = some (reply,
      { node := Function.update s.node i (handleClientMessage (s.node i) msg).node
        nodeQueue := queue }) := by
  -- both texts are C strings that fit, so the two `recv` give them back unchanged
  unfold exchange
  simp only [recvString_eq_some hmsgLen hmsg, Option.bind_eq_bind, Option.bind_some, hsent, hreply,
    recvString_eq_some hreplyLen hreply0, Nodes.takeReplication, hown]

/-- A node that waits for a replica does not answer. -/
theorem exchange_eq_none (hmsg : 0 ∉ msg) (hmsgLen : msg.length < nodeClientSocketBufferSize)
    (hsent : (handleClientMessage (s.node i) msg).replication.elim (some s.nodeQueue)
      (fun replicationMsg => sendReplications N up replicationMsg
        (s.node i).replicaNodeAddresses s.nodeQueue) = none) :
    exchange N up i msg s = none := by
  unfold exchange
  simp only [recvString_eq_some hmsgLen hmsg, Option.bind_eq_bind, Option.bind_some, hsent,
    Option.bind_none]

/-- A call that is served by node `i` is one connection to it. -/
theorem Call.run_eq_exchange {c : Call} (h : c.ServedBy N i) (s : Nodes) :
    c.run s = (exchange N c.up i c.op.request s).map fun r => (c.op.result r.1, r.2) := by
  obtain ⟨client, up, op⟩ := c
  obtain ⟨hhash, rfl, hroute⟩ := h
  cases op with
  | put key value =>
    change (client.put up s key value).map _ = _
    rw [Client.put_of_route hhash (show (client.route up key).1 = some i from hroute),
      Option.map_map]
    rfl
  | get key =>
    change (client.get up s key).map _ = _
    rw [Client.get_of_route hhash (show (client.route up key).1 = some i from hroute),
      Option.map_map]
    rfl

end Exchange

/-! ### The refinement -/

section Refinement

variable {n : Node} {earlier : List Op} {op : Op}

/-- A node that holds the calls so far answers the next one as the abstract store
does. -/
theorem reply_of_holds (h : Holds n earlier) (hp : op.Plain) :
    ∃ reply, (handleClientMessage n op.request).reply = some reply ∧ 0 ∉ reply ∧
      op.result reply = answer earlier op := by
  cases op with
  | put key value =>
    obtain ⟨hkey, -⟩ := hp
    -- the client only looks at whether an answer came
    refine ⟨ascii "OK, SERVER_" ++ n.nodeId, ?_, ?_, rfl⟩
    · change (handleClientMessage n (putMessage key value)).reply = _
      rw [handleClientMessage_putMessage hkey.noSpace]
    · rw [List.mem_append, not_or]
      exact ⟨by decide, h.id⟩
  | get key =>
    replace hp : PlainKey key := hp
    cases hstored : n.storageKeyValueMap key with
    | none =>
      have hreply : (handleClientMessage n (getMessage key)).reply
          = some (ascii "KEY_NOT_FOUND") := by
        rw [handleClientMessage_getMessage hp.noPut, hstored]
      refine ⟨_, hreply, by decide, ?_⟩
      change Result.value (parseGetReply (ascii "KEY_NOT_FOUND")) = .value _
      rw [← h.map key, hstored]
      rfl
    | some value =>
      -- the stored list is plain, so the reply codec gives it back
      have hreply : (handleClientMessage n (getMessage key)).reply
          = some (getReply n key value) := by
        rw [handleClientMessage_getMessage hp.noPut, hstored]
      have hval := h.plain key value hstored
      refine ⟨_, hreply, zero_notMem_getReply h.id hp.noNul hval, ?_⟩
      change Result.value (parseGetReply (getReply n key value)) = .value _
      rw [parseGetReply_getReply hp.noComma hval.nonempty hval.noSpace hval.noComma, ← h.map key,
        hstored]
      rfl

/-- Serving a call keeps the table what the calls so far put into it. -/
theorem Holds.step (h : Holds n earlier) (hp : op.Plain) :
    Holds (handleClientMessage n op.request).node (earlier ++ [op]) := by
  cases op with
  | put key value =>
    obtain ⟨hkey, hval⟩ := hp
    have hnode : (handleClientMessage n (putMessage key value)).node
        = storeKeyValue key (printValue value) n := by
      rw [handleClientMessage_putMessage hkey.noSpace]
    -- the node cuts the text of the value where the client joined it
    have hmap : ∀ k, (storeKeyValue key (printValue value) n).storageKeyValueMap k
        = if k = key then some value else n.storageKeyValueMap k := by
      intro k
      rw [storeKeyValue_map, split_printValue hval.noSpace]
    change Holds (handleClientMessage n (putMessage key value)).node _
    rw [hnode]
    refine ⟨fun k => ?_, fun k v hv => ?_, h.id⟩
    · rw [hmap, latestPut_snoc_put, h.map k]
      simp only [eq_comm]
    · rw [hmap] at hv
      split at hv
      · obtain rfl := Option.some.inj hv
        exact hval
      · exact h.plain k v hv
  | get key =>
    replace hp : PlainKey key := hp
    have hnode : (handleClientMessage n (getMessage key)).node = n := by
      rw [handleClientMessage_getMessage hp.noPut]
    change Holds (handleClientMessage n (getMessage key)).node _
    rw [hnode]
    exact ⟨fun k => by rw [latestPut_snoc_get, h.map k], h.plain, h.id⟩

end Refinement

/-! ### The run -/

/-- Node `i`, whose replicas are `ms`, has served the calls `earlier`. -/
structure Serving (ms : List ℕ) (i : ℕ) (s : Nodes) (earlier : List Call) : Prop where
  holds : Holds (s.node i) (earlier.map Call.op)
  replicas : (s.node i).replicaNodeAddresses = ms.map nodeNodePath
  own : s.nodeQueue i = []
  queued : ∀ m ∈ ms, (s.nodeQueue m).length = sentTo m earlier

/-- The replicas of a node: different nodes, and not the node itself. -/
structure Replicas (N i : ℕ) (ms : List ℕ) : Prop where
  lt : ∀ m ∈ ms, m < N
  nodup : ms.Nodup
  other : i ∉ ms

section Run

variable {N i : ℕ} {ms : List ℕ} {s : Nodes} {earlier : List Call} {c : Call}

theorem sentTo_snoc (m : ℕ) (earlier : List Call) (c : Call) :
    sentTo m (earlier ++ [c]) = sentTo m earlier + if c.op.isPut && c.up m then 1 else 0 := by
  simp [sentTo, List.countP_append, List.countP_singleton]

theorem replication_request (hp : c.op.Plain) (n : Node) :
    (handleClientMessage n c.op.request).replication.isSome = c.op.isPut := by
  cases hop : c.op with
  | put key value =>
    rw [hop] at hp
    change (handleClientMessage n (putMessage key value)).replication.isSome = true
    rw [handleClientMessage_putMessage hp.1.noSpace]
    rfl
  | get key =>
    rw [hop] at hp
    change (handleClientMessage n (getMessage key)).replication.isSome = false
    rw [handleClientMessage_getMessage (show PlainKey key from hp).noPut]
    rfl

/-- What the loop over the replicas does to the queues when the call is handled. -/
theorem Serving.sent (h : Serving ms i s earlier) (hms : Replicas N i ms) (hp : c.op.Plain) :
    (handleClientMessage (s.node i) c.op.request).replication.elim (some s.nodeQueue)
        (fun replicationMsg => sendReplications N c.up replicationMsg
          (s.node i).replicaNodeAddresses s.nodeQueue) =
      if ∀ m ∈ ms, (c.op.isPut && c.up m) = true → sentTo m earlier ≤ listenBacklog then
        some fun m => if m ∈ ms ∧ (c.op.isPut && c.up m) = true then
          s.nodeQueue m ++ (handleClientMessage (s.node i) c.op.request).replication.toList
        else s.nodeQueue m
      else none := by
  have hput := replication_request hp (s.node i)
  cases hreplication : (handleClientMessage (s.node i) c.op.request).replication with
  | none =>
    rw [hreplication] at hput
    simp [← hput]
  | some msg =>
    rw [hreplication] at hput
    rw [Option.elim_some, h.replicas, sendReplications_eq c.up msg hms.lt hms.nodup, ← hput]
    simp only [Option.isSome_some, Bool.true_and, Option.toList_some]
    refine if_congr (forall₂_congr fun m hm => ?_) rfl rfl
    rw [h.queued m hm]

/-- A call for which the replicas have room is answered as by the abstract store. -/
theorem Serving.run (h : Serving ms i s earlier) (hms : Replicas N i ms) (hserved : c.ServedBy N i)
    (hp : c.op.Plain) (hrequest : c.op.request.length < nodeClientSocketBufferSize)
    (hreplies : ∀ reply ∈ (handleClientMessage (s.node i) c.op.request).reply,
      reply.length < nodeClientSocketBufferSize)
    (hroom : ∀ m ∈ ms, sentTo m (earlier ++ [c]) ≤ listenBacklog + 1) :
    ∃ s', c.run s = some (answer (earlier.map Call.op) c.op, s') ∧
      s'.node i = (handleClientMessage (s.node i) c.op.request).node ∧
      Serving ms i s' (earlier ++ [c]) := by
  obtain ⟨reply, hreply, hreply0, hresult⟩ := reply_of_holds h.holds hp
  have hsent := h.sent hms hp
  rw [if_pos ?_] at hsent
  swap
  · intro m hm hput
    have := hroom m hm
    rw [sentTo_snoc, if_pos hput] at this
    omega
  generalize hqueue : (fun m => if m ∈ ms ∧ (c.op.isPut && c.up m) = true then
    s.nodeQueue m ++ (handleClientMessage (s.node i) c.op.request).replication.toList
    else s.nodeQueue m) = queue at hsent
  have hown : queue i = [] := by
    rw [← hqueue]
    exact (if_neg fun hm => hms.other hm.1).trans h.own
  have hexchange := exchange_eq hp.zero_notMem_request hrequest hsent hreply hreply0
    (hreplies reply hreply) hown
  refine ⟨⟨Function.update s.node i (handleClientMessage (s.node i) c.op.request).node, queue⟩,
    by rw [Call.run_eq_exchange hserved, hexchange, Option.map_some, hresult],
    Function.update_self .., ?_, ?_, hown, fun m hm => ?_⟩
  · dsimp only
    rw [Function.update_self, List.map_append]
    exact h.holds.step hp
  · dsimp only
    rw [Function.update_self, handleClientMessage_replicaNodeAddresses, h.replicas]
  · rw [sentTo_snoc, ← h.queued m hm, ← hqueue]
    dsimp only
    by_cases hm' : (c.op.isPut && c.up m) = true
    · -- the message for this call is behind the others
      have hput := replication_request hp (s.node i)
      rw [(Bool.and_eq_true_iff.mp hm').1] at hput
      obtain ⟨msg, hmsg⟩ := Option.isSome_iff_exists.mp hput
      rw [if_pos ⟨hm, hm'⟩, if_pos hm', List.length_append, hmsg]
      rfl
    · rw [if_neg fun hm => hm' hm.2, if_neg hm', Nat.add_zero]

/-- A call for which a replica has no room does not return. -/
theorem Serving.run_eq_none (h : Serving ms i s earlier) (hms : Replicas N i ms)
    (hserved : c.ServedBy N i) (hp : c.op.Plain)
    (hrequest : c.op.request.length < nodeClientSocketBufferSize) {m : ℕ} (hm : m ∈ ms)
    (hbefore : sentTo m earlier ≤ listenBacklog + 1)
    (hfull : listenBacklog + 1 < sentTo m (earlier ++ [c])) : c.run s = none := by
  rw [sentTo_snoc] at hfull
  have hput : (c.op.isPut && c.up m) = true := by
    by_contra hnot
    rw [if_neg hnot] at hfull
    omega
  rw [if_pos hput] at hfull
  have hsent := h.sent hms hp
  rw [if_neg fun hroom => absurd (hroom m hm hput) (by omega)] at hsent
  rw [Call.run_eq_exchange hserved, exchange_eq_none hp.zero_notMem_request hrequest hsent,
    Option.map_none]

/-- The rest of a run returns the answers of the abstract store as long as the replicas have
room, and does not end otherwise. -/
theorem Serving.callAll (h : Serving ms i s earlier) (hms : Replicas N i ms) (calls : List Call)
    (hserved : ∀ c ∈ calls, c.ServedBy N i) (hplain : ∀ c ∈ calls, c.op.Plain)
    (hfits : ∀ m ∈ transcript (s.node i) (calls.map Call.op),
      m.length < nodeClientSocketBufferSize)
    (hbefore : ∀ m ∈ ms, sentTo m earlier ≤ listenBacklog + 1) :
    if ∀ m ∈ ms, sentTo m (earlier ++ calls) ≤ listenBacklog + 1 then
      ∃ s', GTStore.callAll s calls =
        some (answers (earlier.map Call.op) (calls.map Call.op), s')
    else GTStore.callAll s calls = none := by
  -- on the calls; `earlier` grows by the call that was served
  induction calls generalizing s earlier with
  | nil =>
    rw [List.append_nil, if_pos hbefore]
    exact ⟨s, rfl⟩
  | cons c calls ih =>
    have hc : c ∈ c :: calls := List.mem_cons_self
    rw [List.map_cons, transcript] at hfits
    have hrequest := hfits c.op.request (by simp)
    have hsnoc : earlier ++ c :: calls = earlier ++ [c] ++ calls := by simp
    by_cases hroom : ∀ m ∈ ms, sentTo m (earlier ++ [c]) ≤ listenBacklog + 1
    · obtain ⟨s', hrun, hnode, h'⟩ := h.run hms (hserved c hc) (hplain c hc) hrequest
        (fun reply hreply => hfits reply (by simp [Option.mem_def.mp hreply])) hroom
      have hrest := ih h' (fun d hd => hserved d (List.mem_cons_of_mem c hd))
        (fun d hd => hplain d (List.mem_cons_of_mem c hd))
        (fun m hm => hfits m (List.mem_append_right _ (hnode ▸ hm))) hroom
      rw [hsnoc]
      split
      · next hall =>
        rw [if_pos hall] at hrest
        obtain ⟨s'', hrest⟩ := hrest
        refine ⟨s'', ?_⟩
        simp only [GTStore.callAll, hrun, Option.bind_eq_bind, Option.bind_some, hrest,
          List.map_cons, answers, List.map_append, List.map_nil]
      · next hall =>
        rw [if_neg hall] at hrest
        simp only [GTStore.callAll, hrun, Option.bind_eq_bind, Option.bind_some, hrest,
          Option.bind_none]
    · -- this call is the one that waits
      obtain ⟨m, hm, hfull⟩ : ∃ m ∈ ms, listenBacklog + 1 < sentTo m (earlier ++ [c]) := by
        simpa using hroom
      have hnone := h.run_eq_none hms (hserved c hc) (hplain c hc) hrequest hm (hbefore m hm) hfull
      have hall : ¬ ∀ m ∈ ms, sentTo m (earlier ++ c :: calls) ≤ listenBacklog + 1 := by
        intro hall
        have hle := hall m hm
        rw [hsnoc, sentTo, List.countP_append] at hle
        rw [sentTo] at hfull
        omega
      rw [if_neg hall]
      simp only [GTStore.callAll, hnone, Option.bind_eq_bind, Option.bind_none]

end Run

end GTStore
end OSLab
