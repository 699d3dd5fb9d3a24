import AdvancedOSLab.GTStore.NodeMap
import AdvancedOSLab.GTStore.Routing

/-!
# Convergence without failures

As long as no node crashes, every call of a key is served by the hash node `h` of
the key, and the replicas of `h` lag behind it by exactly the `REPLICATE` messages
that are still queued at them.

`Lagging` is the invariant. Its core is `lag`: the view of a slot at any replica is
the slot of `h`. A `PUT` at `h` keeps it because the message goes to the *end* of
every queue (`view_served_behind`), and because no message for the key is ever
queued at `h` itself (`origin`); draining keeps it because it changes no view.

`embedded_nul_escapes_placement` shows why the keys must not contain a NUL: the
client hashes the whole key, but the node sees the text only up to the NUL, so the
key that is stored may belong to another ring segment.
-/

namespace OSLab
namespace GTStore
namespace Cluster

open Text Bytes

/-! ### The setting -/

/-- A key within the documented limits, without space and without `PUT:`. -/
structure DocumentedKey (key : Bytes) : Prop where
  noSpace : space ∉ key
  noPut : ¬ ascii "PUT:" <:+: key
  short : key.length ≤ maxKeyBytePerRequest

instance (key : Bytes) : Decidable (DocumentedKey key) :=
  decidable_of_iff (space ∉ key ∧ ¬ ascii "PUT:" <:+: key ∧ key.length ≤ maxKeyBytePerRequest)
    ⟨fun ⟨h₁, h₂, h₃⟩ => ⟨h₁, h₂, h₃⟩, fun ⟨h₁, h₂, h₃⟩ => ⟨h₁, h₂, h₃⟩⟩

/-- A value within the documented limits: no NUL, and a text (the strings joined
by single spaces) of at most `maxValueBytePerRequest` bytes. -/
structure DocumentedValue (value : Val) : Prop where
  noNul : ∀ v ∈ value, 0 ∉ v
  short : (printValue value).dropLast.length ≤ maxValueBytePerRequest

instance (value : Val) : Decidable (DocumentedValue value) :=
  decidable_of_iff
    ((∀ v ∈ value, 0 ∉ v) ∧ (printValue value).dropLast.length ≤ maxValueBytePerRequest)
    ⟨fun ⟨h₁, h₂⟩ => ⟨h₁, h₂⟩, fun ⟨h₁, h₂⟩ => ⟨h₁, h₂⟩⟩

/-- A call within the documented limits. -/
def Documented : Op → Prop
  | .put key value => DocumentedKey key ∧ DocumentedValue value
  | .get key => DocumentedKey key

instance (op : Op) : Decidable (Documented op) :=
  match op with
  | .put key value => inferInstanceAs (Decidable (DocumentedKey key ∧ DocumentedValue value))
  | .get key => inferInstanceAs (Decidable (DocumentedKey key))

theorem Documented.key {op : Op} (h : Documented op) : DocumentedKey op.key := by
  cases op with
  | put key value => exact h.1
  | get key => exact h

theorem Documented.value {op : Op} (h : Documented op) {key : Bytes} {value : Val}
    (hop : op = .put key value) : DocumentedValue value := by
  subst hop
  exact h.2

/-- No node crashes, and the calls are within the documented limits. -/
def undisturbed : Policy where
  start := fun _ op => Documented op
  serve := fun _ _ _ => True
  crash := fun _ _ => False

/-- The same, with keys that contain no NUL. -/
def undisturbedPlain : Policy where
  start := fun _ op => Documented op ∧ 0 ∉ op.key
  serve := fun _ _ _ => True
  crash := fun _ _ => False

instance (s : State) (l : Label) : Decidable (undisturbed.allows s l) :=
  match l with
  | .start _ op _ => inferInstanceAs (Decidable (Documented op))
  | .iterate n => inferInstanceAs (Decidable (∀ c ∈ s.nextCall n, True))
  | .crash _ => inferInstanceAs (Decidable False)
  | .connect _ | .notice _ => inferInstanceAs (Decidable True)

instance (s : State) (l : Label) : Decidable (undisturbedPlain.allows s l) :=
  match l with
  | .start _ op _ => inferInstanceAs (Decidable (Documented op ∧ 0 ∉ op.key))
  | .iterate n => inferInstanceAs (Decidable (∀ c ∈ s.nextCall n, True))
  | .crash _ => inferInstanceAs (Decidable False)
  | .connect _ | .notice _ => inferInstanceAs (Decidable True)

/-- The node after it has taken all messages of a queue, in order. -/
def applyQueued : Node → List Replication → Option Node
  | n, [] => some n
  | n, r :: rest =>
    (recvString nodeNodeSocketBufferSize r.msg).bind fun received =>
      applyQueued (handleReplicaMessage n received) rest

/-- The value list a node makes of the value of a `put`: the pieces of its text
between spaces. -/
def stored (value : Val) : Val := split space (printValue value)

/-! ### Documented calls and their texts -/

section Texts

variable {op : Op} {key : Bytes} {value : Val}

/-- The node sees a documented request as it was sent. -/
theorem received_eq_request (h : Documented op) (h0 : 0 ∉ op.key) {received : Bytes}
    (hrecv : recvString nodeClientSocketBufferSize op.request = some received) :
    received = op.request := by
  have hreq : 0 ∉ op.request :=
    zero_notMem_request h0 fun _ _ hop => (h.value hop).noNul
  rw [← (recvString_eq_some_iff.mp hrecv).2, cstr_eq_self hreq]

/-- A documented write fits the buffer of the node-to-node connection. -/
theorem length_replicationMsg_lt (hkey : DocumentedKey key) (hvalue : DocumentedValue value) :
    (replicationMsg key (printValue value)).length < nodeNodeSocketBufferSize := by
  have h₁ : key.length ≤ 20 := hkey.short
  have h₂ : (printValue value).dropLast.length ≤ 1000 := hvalue.short
  have h₃ : (ascii "REPLICATE:").length = 10 := by decide
  have h₄ : (replicationMsg key (printValue value)).length
      = 10 + key.length + 1 + (printValue value).length := by
    simp only [replicationMsg, List.length_append, List.length_singleton, h₃]
  -- the text carries one more space than the limit counts
  rw [List.length_dropLast] at h₂
  rw [h₄]
  change _ < 1100
  omega

end Texts

/-! ### Applying a queue -/

/-- Applying messages that fit sets each slot to its view. -/
theorem applyQueued_eq {q : List Replication} (hok : ∀ r ∈ q, r.OK)
    (hfits : ∀ r ∈ q, r.msg.length < nodeNodeSocketBufferSize) (n : Node) :
    ∃ n', applyQueued n q = some n' ∧
      ∀ key, n'.storageKeyValueMap key = drained key (n.storageKeyValueMap key) q := by
  -- on the queue; a message that fits and holds no NUL is received as it was sent
  induction q generalizing n with
  | nil => exact ⟨n, rfl, fun key => rfl⟩
  | cons r q ih =>
    have hr := hok r List.mem_cons_self
    obtain ⟨n', hn', hmap⟩ := ih (fun r' hr' => hok r' (List.mem_cons_of_mem r hr'))
      (fun r' hr' => hfits r' (List.mem_cons_of_mem r hr')) (handleReplicaMessage n r.msg)
    refine ⟨n', ?_, fun key => ?_⟩
    · rw [applyQueued, recvString_eq_some (hfits r List.mem_cons_self) hr.noNul, Option.bind_some]
      exact hn'
    · rw [hmap key, hr.apply, drained_cons]

/-! ### The ring of a key, seen from its hash node -/

variable {cfg : Config} {s s' : State}

theorem mem_replicasOf_iff {key : Bytes} {m : ℕ} :
    m ∈ replicasOf cfg key ↔
      m = hashNode cfg.numNodes key ∨ m ∈ behind cfg (hashNode cfg.numNodes key) := by
  have hK : cfg.numReplicas = cfg.numReplicas - 1 + 1 := by
    have := cfg.one_le
    omega
  unfold replicasOf behind
  rw [hK, ring_succ, Nat.mod_eq_of_lt (hashNode_lt (numNodes_pos cfg) key), List.mem_cons]
  rfl

/-! ### The invariant -/

/-- What holds between the nodes as long as nothing fails. -/
structure Lagging (cfg : Config) (s : State) : Prop where
  alive : ∀ m, s.crashed m = false
  documented : ∀ (j : ℕ) (c : Invocation), s.calls[j]? = some c →
    Documented c.op ∧ 0 ∉ c.op.key
  fits : ∀ m, ∀ r ∈ s.nodeQueue m, r.msg.length < nodeNodeSocketBufferSize
  origin : ∀ m, ∀ r ∈ s.nodeQueue m, m ∈ behind cfg (hashNode cfg.numNodes r.key)
  placed : ∀ m key, (s.node m).storageKeyValueMap key ≠ none → m ∈ replicasOf cfg key
  latest : ∀ key, (s.node (hashNode cfg.numNodes key)).storageKeyValueMap key
    = (latestPut key (s.handled (hashNode cfg.numNodes key))).map stored
  lag : ∀ key, ∀ m ∈ replicasOf cfg key,
    s.view m key = (s.node (hashNode cfg.numNodes key)).storageKeyValueMap key

namespace Lagging

/-- No message for a key is queued at the hash node of the key. -/
theorem quiet (h : Lagging cfg s) (key : Bytes) :
    ∀ r ∈ s.nodeQueue (hashNode cfg.numNodes key), r.key ≠ key := by
  intro r hr hkey
  have hmem := h.origin _ r hr
  rw [hkey] at hmem
  exact notMem_behind _ (hashNode_lt (numNodes_pos cfg) key) hmem

/-- A call that waits is at the hash node of its key. -/
theorem waiting_hashNode (h : Lagging cfg s) (hrouted : Routed cfg s) {i n left : ℕ}
    {c : Invocation} (hc : s.calls[i]? = some c) (hph : c.phase = .waiting n left) :
    n = hashNode cfg.numNodes c.op.key := by
  obtain ⟨j, -, rfl, hbefore⟩ := hrouted.waiting hc hph
  cases j with
  | zero => exact ringNode_zero _
  | succ j =>
    -- an earlier node of the ring would have crashed
    have hcrash := hbefore 0 (Nat.succ_pos j)
    rw [h.alive] at hcrash
    exact absurd hcrash (by decide)

/-- Changes that only touch the calls keep the invariant. -/
theorem calls (h : Lagging cfg s) (hnode : s'.node = s.node) (hcrashed : s'.crashed = s.crashed)
    (hqueue : s'.nodeQueue = s.nodeQueue) (hhandled : s'.handled = s.handled)
    (hcalls : ∀ (j : ℕ) (c : Invocation), s'.calls[j]? = some c →
      Documented c.op ∧ 0 ∉ c.op.key) : Lagging cfg s' where
  alive := by rw [hcrashed]; exact h.alive
  documented := hcalls
  fits := by rw [hqueue]; exact h.fits
  origin := by rw [hqueue]; exact h.origin
  placed := by rw [hnode]; exact h.placed
  latest := by rw [hnode, hhandled]; exact h.latest
  lag := by
    intro key m hm
    unfold State.view
    rw [hnode, hqueue]
    exact h.lag key m hm

/-- A change of phase keeps the calls documented. -/
theorem documented_setPhase (h : Lagging cfg s) {i : ℕ} {c : Invocation}
    (hc : s.calls[i]? = some c) {phase : Phase} (j : ℕ) (d : Invocation)
    (hd : (s.setPhase i c phase).calls[j]? = some d) : Documented d.op ∧ 0 ∉ d.op.key := by
  rcases getElem?_setPhase_cases hc hd with ⟨-, hd⟩ | ⟨-, rfl⟩
  · exact h.documented j d hd
  · exact h.documented i c hc

section Served

variable {i : ℕ} {rest : List ℕ} {c : Invocation} {answer key : Bytes} {value : Val}

/-- What the nodes have handled, after node `n` has served `c`. -/
theorem latestPut_served {n : ℕ} {received : Bytes} (key : Bytes) (m : ℕ) :
    latestPut key ((s.served cfg.numNodes n i rest c received answer).handled m)
      = if m = n then latestPut key (s.handled n ++ [c.op]) else latestPut key (s.handled m) := by
  change latestPut key (Function.update s.handled n (s.handled n ++ [c.op]) m) = _
  rw [Function.update_apply]
  split <;> rfl

/-- Serving a `get` keeps the invariant. -/
theorem served_get (h : Lagging cfg s) (hc : s.calls[i]? = some c) (hop : c.op = .get key)
    (n : ℕ) :
    Lagging cfg (s.served cfg.numNodes n i rest c (getMessage key) answer) := by
  have hdoc := (h.documented i c hc).1.key
  rw [hop] at hdoc
  -- a plain key does not contain `PUT:`, so the node stores and sends nothing
  have hst : storedBy (getMessage key) = none := storedBy_getMessage hdoc.noPut
  have hmap : ∀ m κ,
      ((s.served cfg.numNodes n i rest c (getMessage key) answer).node m).storageKeyValueMap κ
        = (s.node m).storageKeyValueMap κ := by
    intro m κ
    rw [map_served, hst]
    rfl
  have hqueue := @nodeQueue_served_none cfg s n i rest c (getMessage key) answer hst
  refine ⟨h.alive, h.documented_setPhase hc, ?_, ?_, ?_, ?_, ?_⟩
  · rw [hqueue]
    exact h.fits
  · rw [hqueue]
    exact h.origin
  · intro m κ hne
    rw [hmap] at hne
    exact h.placed m κ hne
  · intro κ
    -- the order grows by a `get`, which is not the latest put of any key
    rw [hmap, latestPut_served, hop, latestPut_snoc_get, h.latest κ]
    split
    · next hn => rw [hn]
    · rfl
  · intro κ m hm
    rw [view_served_none hst, hmap]
    exact h.lag κ m hm

/-- Serving a `put` keeps the invariant: its value becomes the slot of the hash
node, and the view of every replica. -/
theorem served_put (h : Lagging cfg s) (hok : NodesOK cfg s) (hc : s.calls[i]? = some c)
    (hop : c.op = .put key value) :
    Lagging cfg
      (s.served cfg.numNodes (hashNode cfg.numNodes key) i rest c (putMessage key value)
        answer) := by
  have hdoc := (h.documented i c hc).1
  have hvalue : DocumentedValue value := hdoc.value hop
  have hkey : DocumentedKey key := by
    have := hdoc.key
    rwa [hop] at this
  have hn : hashNode cfg.numNodes key < cfg.numNodes := hashNode_lt (numNodes_pos cfg) key
  have hst : storedBy (putMessage key value) = some (key, printValue value) :=
    storedBy_putMessage hkey.noSpace value
  have hsent : (Replication.mk (replicationMsg key (printValue value)) i).key = key := by
    rw [Replication.key, parseKeyValue_replicationMsg hkey.noSpace]
  have hmap : ∀ m κ,
      ((s.served cfg.numNodes (hashNode cfg.numNodes key) i rest c (putMessage key value)
        answer).node m).storageKeyValueMap κ
        = if m = hashNode cfg.numNodes key ∧ κ = key then some (stored value)
          else (s.node m).storageKeyValueMap κ := by
    intro m κ
    rw [map_served, hst]
    rfl
  refine ⟨h.alive, h.documented_setPhase hc, ?_, ?_, ?_, ?_, ?_⟩
  · -- `fits`: a queue grows by the message of a documented `put`
    intro m r hr
    obtain hr | ⟨-, rfl⟩ := mem_nodeQueue_of_served hok hn hst hr
    · exact h.fits m r hr
    · exact length_replicationMsg_lt hkey hvalue
  · -- `origin`: it goes to the nodes behind the hash node
    intro m r hr
    obtain hr | ⟨hm, rfl⟩ := mem_nodeQueue_of_served hok hn hst hr
    · exact h.origin m r hr
    · rw [hsent]
      exact hm
  · intro m κ hne
    rw [hmap] at hne
    split at hne
    · next hm =>
      rw [hm.2]
      exact mem_replicasOf_iff.mpr (.inl hm.1)
    · exact h.placed m κ hne
  · -- `latest`: the hash node has handled the `put` as the last of its key
    intro κ
    rw [hmap, latestPut_served, hop, latestPut_snoc_put]
    by_cases hκ : κ = key
    · subst hκ
      simp
    · rw [if_neg fun hm => hκ hm.2, if_neg (Ne.symm hκ), h.latest κ]
      split
      · next heq => rw [heq]
      · rfl
  · -- `lag`: the value is in view at the hash node, and at the end of every queue
    intro κ m hm
    rw [hmap]
    by_cases hκ : κ = key
    · subst hκ
      rw [if_pos ⟨rfl, rfl⟩]
      rcases mem_replicasOf_iff.mp hm with rfl | hbehind
      · exact view_served_self hok hn hst (h.quiet κ)
      · exact view_served_behind hok hn hst hbehind (h.alive m)
    · rw [if_neg fun hm => hκ hm.2, view_served_of_ne hok hn hst (Ne.symm hκ)]
      exact h.lag κ m hm

end Served

/-- Taking a queued message keeps the invariant. -/
theorem replicated (h : Lagging cfg s) (hok : MessagesOK s) {n : ℕ} {r : Replication}
    {rest : List Replication} {received : Bytes} (hq : s.nodeQueue n = r :: rest)
    (hrecv : recvString nodeNodeSocketBufferSize r.msg = some received) :
    Lagging cfg (s.replicated n r rest received) := by
  have hmem : r ∈ s.nodeQueue n := by
    rw [hq]
    exact List.mem_cons_self
  have hmap := fun m κ => map_replicated hok hq hrecv m κ
  -- the message is for a key of which this is not the hash node
  have hhash : ∀ κ, ((s.replicated n r rest received).node
      (hashNode cfg.numNodes κ)).storageKeyValueMap κ
        = (s.node (hashNode cfg.numNodes κ)).storageKeyValueMap κ := by
    intro κ
    rw [hmap, if_neg]
    rintro ⟨hn, rfl⟩
    exact h.quiet r.key r (by rw [hn]; exact hmem) rfl
  refine ⟨h.alive, h.documented,
    fun m r' hr' => h.fits m r' (mem_nodeQueue_of_replicated hq hr'),
    fun m r' hr' => h.origin m r' (mem_nodeQueue_of_replicated hq hr'), ?_, ?_, ?_⟩
  · intro m κ hne
    rw [hmap] at hne
    split at hne
    · next hm =>
      rw [hm.1, ← hm.2]
      exact mem_replicasOf_iff.mpr (.inr (h.origin n r hmem))
    · exact h.placed m κ hne
  · intro κ
    rw [hhash]
    exact h.latest κ
  · intro κ m hm
    rw [view_replicated hok hq hrecv, hhash]
    exact h.lag κ m hm

/-- Serving any call keeps the invariant. -/
theorem served (h : Lagging cfg s) (hok : NodesOK cfg s) (hrouted : Routed cfg s) {n i left : ℕ}
    {rest : List ℕ} {c : Invocation} {received answer : Bytes} (hc : s.calls[i]? = some c)
    (hph : c.phase = .waiting n left)
    (hrecv : recvString nodeClientSocketBufferSize c.op.request = some received) :
    Lagging cfg (s.served cfg.numNodes n i rest c received answer) := by
  obtain ⟨hdoc, h0⟩ := h.documented i c hc
  obtain rfl := received_eq_request hdoc h0 hrecv
  obtain rfl := h.waiting_hashNode hrouted hc hph
  cases hop : c.op with
  | get key => exact h.served_get hc hop _
  | put key value => exact h.served_put hok hc hop

end Lagging

/-- The invariant holds along every undisturbed run. -/
theorem lagging_of_reached (hr : Reached cfg undisturbedPlain s) : Lagging cfg s := by
  induction hr with
  | initial =>
    exact
      { alive := fun m => rfl
        documented := fun j c hc => absurd hc (by simp [initial])
        fits := fun m r hr => absurd hr List.not_mem_nil
        origin := fun m r hr => absurd hr List.not_mem_nil
        placed := fun m key hne => absurd (initial_map m key) hne
        latest := fun key => initial_map _ key
        lag := fun key m _ => (initial_map m key).trans (initial_map _ key).symm }
  | @micro s _ hr h ih =>
    cases h with
    -- the calls move on, and no table and no queue changes
    | start client op dead hdead hP =>
      refine ih.calls rfl rfl rfl rfl fun j d hd => ?_
      rcases getElem?_started hd with hd | ⟨-, hop, -⟩
      · exact ih.documented j d hd
      · rw [hop]
        exact hP
    | exhausted i c n hc =>
      exact ih.calls rfl rfl rfl rfl (ih.documented_setPhase hc)
    | movedOn i c n left hc =>
      exact ih.calls rfl rfl rfl rfl (ih.documented_setPhase hc)
    | connected i c n left hc =>
      exact ih.calls rfl rfl rfl rfl (ih.documented_setPhase hc)
    | served n i rest c left received reply answer hn hup hq hc hph hrecv =>
      exact ih.served (nodesOK_of_reached hr) (routed_of_reached hr) hc hph hrecv
    | replicated n r rest received hq hrecv =>
      exact ih.replicated (messagesOK_of_reached hr) hq hrecv
    -- an undisturbed run has no crashes
    | crash n hP => exact absurd hP id

/-! ### The result -/

/-- The nodes agree on a key up to the messages still queued: every node of the
ring of the key would hold what its hash node holds; with nothing queued they all
hold the value of the last `put` that the hash node handled; and no other node
holds the key. -/
structure Converged (cfg : Config) (s : State) (key : Bytes) : Prop where
  catchUp : ∀ m ∈ replicasOf cfg key, ∃ n, applyQueued (s.node m) (s.nodeQueue m) = some n ∧
    n.storageKeyValueMap key = (s.node (hashNode cfg.numNodes key)).storageKeyValueMap key
  drained : (∀ m < cfg.numNodes, s.nodeQueue m = []) → ∀ m ∈ replicasOf cfg key,
    (s.node m).storageKeyValueMap key
      = (latestPut key (s.handled (hashNode cfg.numNodes key))).map stored
  others : ∀ m, m ∉ replicasOf cfg key → (s.node m).storageKeyValueMap key = none

/-- **Convergence.** In every state that a cluster reaches without failures, by
calls within the documented limits whose keys contain no NUL, the nodes agree on
every key up to the messages still queued. -/
theorem replicas_converge (cfg : Config) (s : State)
    (hr : (cluster cfg).Reachable undisturbedPlain.allows s) (key : Bytes) :
    Converged cfg s key := by
  have hreached := reached_of_reachable hr
  have h := lagging_of_reached hreached
  have hok := messagesOK_of_reached hreached
  refine ⟨fun m hm => ?_, fun hempty m hm => ?_, fun m hm => ?_⟩
  · obtain ⟨n, hn, hmap⟩ := applyQueued_eq (hok m) (h.fits m) (s.node m)
    exact ⟨n, hn, (hmap key).trans (h.lag key m hm)⟩
  · have hview := h.lag key m hm
    unfold State.view at hview
    rw [hempty m (lt_of_mem_ring (numNodes_pos cfg) hm)] at hview
    exact hview.trans (h.latest key)
  · by_contra hne
    exact hm (h.placed m key hne)

/-- A `put` at node 0 that node 1 has not heard of yet. -/
theorem replicas_converge_pair :
    ∃ s, (cluster pairConfig).Reachable undisturbedPlain.allows s ∧
      (s.nodeQueue 1).length = 1 ∧ Converged pairConfig s (ascii "j") := by
  have hrun : (((cluster pairConfig).guardedRun undisturbedPlain.allows (initial pairConfig)
      [.start 0 (.put (ascii "j") [ascii "v"]) [], .connect 0, .iterate 0]).any
        fun s => (s.nodeQueue 1).length = 1) = true := by decide +kernel
  obtain ⟨s, hr, hlen⟩ := System.Reachable.of_any hrun
  exact ⟨s, hr, of_decide_eq_true hlen, replicas_converge pairConfig s hr (ascii "j")⟩

/-- **An embedded NUL escapes the placement.** The key `a\0a` hashes to node 0. The
node reads the message as `PUT:a` and stores under the key `a`, which belongs to
node 1 alone. -/
theorem embedded_nul_escapes_placement :
    ∃ s, (cluster apartConfig).Reachable undisturbed.allows s ∧
      (∀ m < apartConfig.numNodes, s.nodeQueue m = []) ∧
      0 ∉ replicasOf apartConfig (ascii "a") ∧
      (s.node 0).storageKeyValueMap (ascii "a") ≠ none := by
  have hrun : (((cluster apartConfig).guardedRun undisturbed.allows (initial apartConfig)
      [.start 0 (.put [97, 0, 97] [ascii "v"]) [], .connect 0, .iterate 0]).any
        fun s => (∀ m < 2, (s.nodeQueue m).isEmpty) ∧
          ((s.node 0).storageKeyValueMap (ascii "a")).isSome) = true := by decide +kernel
  obtain ⟨s, hr, hend⟩ := System.Reachable.of_any hrun
  obtain ⟨hempty, hsome⟩ := of_decide_eq_true hend
  refine ⟨s, hr, fun m hm => List.isEmpty_iff.mp (hempty m hm), by decide, ?_⟩
  exact Option.isSome_iff_ne_none.mp hsome

end Cluster
end GTStore
end OSLab
