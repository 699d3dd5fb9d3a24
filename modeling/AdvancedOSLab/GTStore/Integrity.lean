import AdvancedOSLab.GTStore.Linearizable

/-!
# Where values come from

With crashes in any order a `get` may return an old value or none at all (`Failover.lean`). It never
returns a value that was not written: every value in a table, in a message between nodes and in an
answer is the value of a `put` of the same key.

Nor does a value travel arbitrarily far. The node that serves a `put` is one of the `numReplicas`
nodes of the ring of the key, but after a failover it is not the first of them, and it passes the
value on to the nodes behind itself, which need not belong to the ring of the key any more. The
nodes that can get the value are the first `2 * numReplicas - 1` from the hash node on (`reach`).

Both hold along all runs with plain calls whose texts fit the buffers, whichever nodes crash and
whatever is still queued. The invariant is `Sourced`. It also bounds the replies of the nodes, which
are made of values that came with a `put`: in these runs no text is longer than the buffer it is
received into, so that a live node with a waiting call can always serve it (`exists_iterate`).
-/

namespace OSLab
namespace GTStore
namespace Cluster

open Text Bytes

variable {cfg : Config} {P : Policy} {s s' : State}

/-- Calls are plain and fit the buffers. Everything else may happen. -/
def plainCalls (cfg : Config) : Policy where
  start := fun _ op => op.Plain ∧ op.Fits cfg.numNodes
  serve := fun _ _ _ => True
  crash := fun _ _ => True

instance (s : State) (l : Label) : Decidable ((plainCalls cfg).allows s l) :=
  match l with
  | .start _ op _ => inferInstanceAs (Decidable (op.Plain ∧ op.Fits cfg.numNodes))
  | .iterate n => inferInstanceAs (Decidable (∀ c ∈ s.nextCall n, True))
  | .crash _ | .connect _ | .notice _ => inferInstanceAs (Decidable True)

/-- The value of some `put` of the key that was started before the given time. -/
def PutBefore (s : State) (time : ℕ) (key : Bytes) (value : Val) : Prop :=
  ∃ c ∈ s.calls, c.op = .put key value ∧ c.startedAt < time

/-- The nodes that values of a key can get to. -/
def reach (cfg : Config) (key : Bytes) : List ℕ :=
  ring cfg.numNodes (2 * cfg.numReplicas - 1) (hashNode cfg.numNodes key)

/-- Every value is the value of a `put` of its key, and within reach of it. -/
structure Sourced (cfg : Config) (s : State) : Prop where
  tables : ∀ m key value, (s.node m).storageKeyValueMap key = some value →
    m ∈ reach cfg key ∧ PutBefore s s.clock key value
  queues : ∀ m, ∀ r ∈ s.nodeQueue m, m ∈ reach cfg r.key ∧ PutBefore s s.clock r.key r.values
  answers : ∀ c ∈ s.calls, ∀ key, c.op = .get key → ∀ result time, c.phase = .done result time →
    result = .value errorValue ∨ ∃ value, result = .value value ∧ PutBefore s time key value

/-- A `put` of the earlier state is one of the later state. -/
theorem PutBefore.later (h : Micro cfg P s s') {time time' : ℕ} {key : Bytes} {value : Val}
    (hput : PutBefore s time key value) (hle : time ≤ time') : PutBefore s' time' key value := by
  obtain ⟨c, hc, hop, hlt⟩ := hput
  obtain ⟨i, hi⟩ := List.getElem?_of_mem hc
  obtain ⟨d, hd, hopd, hstart⟩ := h.call_after hi
  exact ⟨d, List.mem_of_getElem? hd, hopd.trans hop, by omega⟩

theorem Micro.clock_le (h : Micro cfg P s s') : s.clock ≤ s'.clock := by
  rcases h.calls with ⟨-, hle⟩ | ⟨d, -, -, -, -, hclock⟩ | ⟨i, c, phase, -, -, -, hclock, -⟩
  · exact hle
  · omega
  · omega

theorem mem_reach_of_ringNode {key : Bytes} {j : ℕ} (hj : j < cfg.numReplicas) :
    ringNode cfg key j ∈ reach cfg key :=
  mem_ring.mpr ⟨j, by omega, rfl⟩

/-- The nodes behind one that serves a key are within reach of the key. -/
theorem mem_reach_of_behind {key : Bytes} {j m : ℕ} (hj : j < cfg.numReplicas)
    (hm : m ∈ behind cfg (ringNode cfg key j)) : m ∈ reach cfg key := by
  obtain ⟨i, hi, rfl⟩ := mem_ring.mp hm
  refine mem_ring.mpr ⟨j + (1 + i), by omega, ?_⟩
  unfold ringNode
  rw [Nat.add_assoc, Nat.mod_add_mod, ← Nat.add_assoc (hashNode cfg.numNodes key)]

namespace Sourced

/-- A change of the calls by which no `get` returns a value. -/
theorem same (h : Sourced cfg s) (hmicro : Micro cfg P s s') (hnode : s'.node = s.node)
    (hqueue : s'.nodeQueue = s.nodeQueue)
    (hanswer : ∀ c ∈ s'.calls, ∀ result time, c.phase = .done result time →
      c ∈ s.calls ∨ ∀ key, c.op = .get key → result = .value errorValue) : Sourced cfg s' where
  tables m key value hvalue := by
    rw [hnode] at hvalue
    obtain ⟨hm, hput⟩ := h.tables m key value hvalue
    exact ⟨hm, hput.later hmicro hmicro.clock_le⟩
  queues m r hr := by
    rw [hqueue] at hr
    obtain ⟨hm, hput⟩ := h.queues m r hr
    exact ⟨hm, hput.later hmicro hmicro.clock_le⟩
  answers c hc key hop result time hph := by
    rcases hanswer c hc result time hph with hold | herror
    · rcases h.answers c hold key hop result time hph with herror | ⟨value, hvalue, hput⟩
      · exact .inl herror
      · exact .inr ⟨value, hvalue, hput.later hmicro (le_refl time)⟩
    · exact .inl (herror key hop)

/-- A new phase of one call, by which it does not return a value. -/
theorem rephased (h : Sourced cfg s) (hmicro : Micro cfg P s s') {i : ℕ} {c : Invocation}
    {phase : Phase} (hc : s.calls[i]? = some c) (hcalls : s'.calls = (s.setPhase i c phase).calls)
    (hnode : s'.node = s.node) (hqueue : s'.nodeQueue = s.nodeQueue)
    (hphase : ∀ result time, phase = .done result time → ∀ key, c.op = .get key →
      result = .value errorValue) : Sourced cfg s' := by
  refine h.same hmicro hnode hqueue fun d hd result time hph => ?_
  rw [hcalls] at hd
  obtain ⟨j, hj⟩ := List.getElem?_of_mem hd
  rcases getElem?_setPhase_cases hc hj with ⟨-, hold⟩ | ⟨-, rfl⟩
  · exact .inl (List.mem_of_getElem? hold)
  · exact .inr (hphase result time hph)

section Served

variable {n i left : ℕ} {rest : List ℕ} {c : Invocation} {ans : Bytes}

/-- The answers after a call was served. -/
theorem answers_served (h : Sourced cfg s) {received : Bytes}
    (hmicro : Micro cfg P s (s.served cfg.numNodes n i rest c received ans))
    (hc : s.calls[i]? = some c)
    (hresult : ∀ key, c.op = .get key → c.op.result ans = .value errorValue ∨
      ∃ value, c.op.result ans = .value value ∧ PutBefore s s.clock key value) :
    ∀ d ∈ (s.served cfg.numNodes n i rest c received ans).calls, ∀ key, d.op = .get key →
      ∀ result time, d.phase = .done result time → result = .value errorValue ∨
        ∃ value, result = .value value ∧
          PutBefore (s.served cfg.numNodes n i rest c received ans) time key value := by
  intro d hd key hop result time hph
  obtain ⟨j, hj⟩ := List.getElem?_of_mem hd
  rcases getElem?_setPhase_cases hc hj with ⟨-, hold⟩ | ⟨-, rfl⟩
  · rcases h.answers d (List.mem_of_getElem? hold) key hop result time hph with
      herror | ⟨value, hvalue, hput⟩
    · exact .inl herror
    · exact .inr ⟨value, hvalue, hput.later hmicro (le_refl time)⟩
  · -- the call that returns now
    obtain ⟨rfl, rfl⟩ := Phase.done.inj hph
    rcases hresult key hop with herror | ⟨value, hvalue, hput⟩
    · exact .inl herror
    · exact .inr ⟨value, hvalue, hput.later hmicro (le_refl _)⟩

/-- Serving a `put`: it is the source of what is stored and sent. -/
theorem served_put (h : Sourced cfg s) (hstamped : Stamped s) (hok : NodesOK cfg s)
    (hrouted : Routed cfg s) (hn : n < cfg.numNodes) (hc : s.calls[i]? = some c)
    (hph : c.phase = .waiting n left) (hplain : c.op.Plain) {key : Bytes} {value : Val}
    (hop : c.op = .put key value)
    (hmicro : Micro cfg P s (s.served cfg.numNodes n i rest c (putMessage key value) ans)) :
    Sourced cfg (s.served cfg.numNodes n i rest c (putMessage key value) ans) := by
  rw [hop] at hplain
  have hst := storedBy_putMessage hplain.1.noSpace value
  have hsplit : split space (printValue value) = value := split_printValue hplain.2.noSpace
  -- the call that is served is the source
  have hput : PutBefore s s.clock key value :=
    ⟨c, List.mem_of_getElem? hc, hop, (hstamped i c hc).1⟩
  obtain ⟨j, hj, hnode, -⟩ := hrouted.waiting hc hph
  rw [show c.op.key = key by rw [hop]; rfl] at hnode
  refine ⟨fun m κ v hv => ?_, fun m r hr => ?_, ?_⟩
  -- tables: the slot that is written, and the others
  · rw [map_served, hst, Option.elim_some, hsplit] at hv
    split at hv
    · next heq =>
      obtain ⟨rfl, rfl⟩ := heq
      obtain rfl := Option.some.inj hv
      exact ⟨hnode ▸ mem_reach_of_ringNode hj, hput.later hmicro hmicro.clock_le⟩
    · obtain ⟨hm, hold⟩ := h.tables m κ v hv
      exact ⟨hm, hold.later hmicro hmicro.clock_le⟩
  -- queues: the message goes to the nodes behind the one that served
  · obtain hold | ⟨hm, rfl⟩ := mem_nodeQueue_of_served hok hn hst hr
    · obtain ⟨hm, hold⟩ := h.queues m r hold
      exact ⟨hm, hold.later hmicro hmicro.clock_le⟩
    · rw [key_sent i hst, values_sent i hst, hsplit]
      rw [hnode] at hm
      exact ⟨mem_reach_of_behind hj hm, hput.later hmicro hmicro.clock_le⟩
  · exact h.answers_served hmicro hc fun κ hget => absurd (hop.symm.trans hget) (by simp)

/-- Serving a `get`: the answer comes from the table. -/
theorem served_get (h : Sourced cfg s) (hok : NodesOK cfg s) (hn : n < cfg.numNodes)
    (hc : s.calls[i]? = some c) (hplain : AllPlain s) {key : Bytes} (hop : c.op = .get key)
    {reply : Bytes} (hreply : (handleClientMessage (s.node n) (getMessage key)).reply = some reply)
    {size : ℕ} (hanswer : recvString size reply = some ans)
    (hmicro : Micro cfg P s (s.served cfg.numNodes n i rest c (getMessage key) ans)) :
    Sourced cfg (s.served cfg.numNodes n i rest c (getMessage key) ans) := by
  have hkey : PlainKey key := by
    have := hplain i c hc
    rwa [hop] at this
  have hst : storedBy (getMessage key) = none := storedBy_getMessage hkey.noPut
  refine ⟨fun m κ v hv => ?_, fun m r hr => ?_, ?_⟩
  · rw [map_served, hst, Option.elim_none] at hv
    obtain ⟨hm, hold⟩ := h.tables m κ v hv
    exact ⟨hm, hold.later hmicro hmicro.clock_le⟩
  · rw [nodeQueue_served_none hst] at hr
    obtain ⟨hm, hold⟩ := h.queues m r hr
    exact ⟨hm, hold.later hmicro hmicro.clock_le⟩
  · refine h.answers_served hmicro hc fun κ hget => ?_
    obtain rfl := Op.get.inj (hop.symm.trans hget)
    rw [hop]
    cases hslot : (s.node n).storageKeyValueMap key with
    | none => exact .inl (result_of_missing hkey hslot hreply hanswer)
    | some value =>
      obtain ⟨-, hput⟩ := h.tables n key value hslot
      -- a stored value is plain because the `put` it comes from is
      obtain ⟨d, hd, hopd, -⟩ := hput
      obtain ⟨j, hj⟩ := List.getElem?_of_mem hd
      have hid : 0 ∉ (s.node n).nodeId := by
        rw [(hok n hn).1]
        exact notMem_decimal (by decide) n
      exact .inr ⟨value, result_of_get hkey ((hplain j d hj).value hopd) hid hslot hreply hanswer,
        (h.tables n key value hslot).2⟩

end Served

/-- Taking a queued message moves its value into a table. -/
theorem replicated (h : Sourced cfg s) (hok : MessagesOK s) {n : ℕ} {r : Replication}
    {rest : List Replication} {received : Bytes} (hq : s.nodeQueue n = r :: rest)
    (hrecv : recvString nodeNodeSocketBufferSize r.msg = some received) :
    Sourced cfg (s.replicated n r rest received) := by
  refine ⟨fun m key value hvalue => ?_, fun m r' hr' => ?_, h.answers⟩
  · rw [map_replicated hok hq hrecv] at hvalue
    split at hvalue
    · next heq =>
      obtain ⟨rfl, rfl⟩ := heq
      obtain rfl := Option.some.inj hvalue
      exact h.queues m r (by rw [hq]; exact List.mem_cons_self)
    · exact h.tables m key value hvalue
  · exact h.queues m r' (mem_nodeQueue_of_replicated hq hr')

end Sourced

theorem sourced_of_reached (hr : Reached cfg (plainCalls cfg) s) : Sourced cfg s := by
  induction hr with
  | initial =>
    exact ⟨fun m key value hvalue => absurd ((initial_map m key).symm.trans hvalue) (by simp),
      fun m r hr => absurd hr List.not_mem_nil, fun c hc => absurd hc List.not_mem_nil⟩
  | @micro s s' hr h ih =>
    have hmicro := h
    cases h with
    | start client op dead hdead hP =>
      refine ih.same hmicro rfl rfl fun c hc result time hph => ?_
      obtain ⟨j, hj⟩ := List.getElem?_of_mem hc
      rcases getElem?_started hj with hold | ⟨-, -, -, hphase⟩
      · exact .inl (List.mem_of_getElem? hold)
      · exact absurd (hph.symm.trans hphase) (by simp)
    | exhausted i c n hc hph =>
      -- without an answer a `get` returns the error value
      refine ih.rephased hmicro hc rfl rfl rfl fun result time hdone key hop => ?_
      rw [← (Phase.done.inj hdone).1, hop]
      rfl
    | movedOn i c n left hc => exact ih.rephased hmicro hc rfl rfl rfl (by simp)
    | connected i c n left hc => exact ih.rephased hmicro hc rfl rfl rfl (by simp)
    | served n i rest c left received reply answer hn hup hq hc hph hrecv hreply hanswer =>
      have hplain : AllPlain s := allPlain_of_start (P := plainCalls cfg) (fun _ _ hP => hP.1) hr
      have hok := nodesOK_of_reached hr
      obtain rfl := received_eq_request_of_plain (hplain i c hc) hrecv
      cases hop : c.op with
      | put key value =>
        rw [hop] at hmicro
        exact ih.served_put (stamped_of_reached hr) hok (routed_of_reached hr) hn hc hph
          (hplain i c hc) hop hmicro
      | get key =>
        rw [hop] at hmicro hreply
        exact ih.served_get hok hn hc hplain hop hreply hanswer hmicro
    | replicated n r rest received hq hrecv =>
      exact ih.replicated (messagesOK_of_reached hr) hq hrecv
    | crash n hP => exact ih.same hmicro rfl rfl fun c hc _ _ _ => .inl hc

/-! ### Sizes -/

/-- All calls fit the buffers. -/
theorem fits_of_reached (hr : Reached cfg (plainCalls cfg) s) {c : Invocation} (hc : c ∈ s.calls) :
    c.op.Fits cfg.numNodes := by
  obtain ⟨i, hi⟩ := List.getElem?_of_mem hc
  induction hr generalizing i c with
  | initial => exact absurd hc List.not_mem_nil
  | @micro s s' _ h ih =>
    rcases h.call_before hi with ⟨d, hd, hop, -⟩ | ⟨-, -, -, hP⟩
    · exact hop ▸ ih (List.mem_of_getElem? hd) i hd
    · exact hP.2

/-- The messages between the nodes fit the buffers. -/
theorem messagesFit_of_reached (hr : Reached cfg (plainCalls cfg) s) (m : ℕ) :
    ∀ r ∈ s.nodeQueue m, r.msg.length < nodeNodeSocketBufferSize := by
  induction hr with
  | initial => exact fun r hr => absurd hr List.not_mem_nil
  | @micro s s' hr h ih =>
    cases h with
    | served n i rest c left received reply answer hn hup hq hc hph hrecv =>
      intro r hmem
      have hplain := allPlain_of_start (P := plainCalls cfg) (fun _ _ hP => hP.1) hr i c hc
      have hfits := fits_of_reached hr (List.mem_of_getElem? hc)
      obtain rfl := received_eq_request_of_plain hplain hrecv
      -- only a `put` sends messages, and those of a call that fits are short enough
      cases hop : c.op with
      | put key value =>
        rw [hop] at hplain hfits hmem
        rcases mem_nodeQueue_of_served (nodesOK_of_reached hr) hn
          (storedBy_putMessage hplain.1.noSpace value) hmem with hold | ⟨-, rfl⟩
        · exact ih r hold
        · exact hfits.2.1
      | get key =>
        rw [hop] at hplain hmem
        have hst : storedBy (Op.get key).request = none :=
          storedBy_getMessage (show PlainKey key from hplain).noPut
        rw [nodeQueue_served_none hst] at hmem
        exact ih r hmem
    | replicated n r rest received hq =>
      exact fun r' hr' => ih r' (mem_nodeQueue_of_replicated hq hr')
    | _ => exact ih

section Iterate

variable {n : ℕ}

/-- The node has a reply to every plain call that fits, and the reply fits. -/
theorem exists_reply (hr : Reached cfg (plainCalls cfg) s) (hn : n < cfg.numNodes) {c : Invocation}
    (hplain : c.op.Plain) (hfits : c.op.Fits cfg.numNodes) :
    ∃ reply, (handleClientMessage (s.node n) c.op.request).reply = some reply ∧
      reply.length < nodeClientSocketBufferSize := by
  have hid := (nodesOK_of_reached hr n hn).1
  cases hop : c.op with
  | put key value =>
    rw [hop] at hplain hfits
    refine ⟨_, congrArg Handled.reply
      (handleClientMessage_putMessage hplain.1.noSpace value (s.node n)), ?_⟩
    -- the acknowledgement is not longer than the reply to a `get` of the value
    have hle := hfits.2.2 n hn
    rw [hid]
    simp only [getReply, List.length_append] at hle ⊢
    have : (ascii "OK, SERVER_").length = (ascii ", ").length + (ascii ", SERVER_").length := by
      decide
    omega
  | get key =>
    rw [hop] at hplain
    change ∃ reply, (handleClientMessage (s.node n) (getMessage key)).reply = some reply ∧ _
    rw [handleClientMessage_getMessage (show PlainKey key from hplain).noPut]
    cases hslot : (s.node n).storageKeyValueMap key with
    | none => exact ⟨ascii "KEY_NOT_FOUND", rfl, by decide⟩
    | some value =>
      -- the value came with a `put` that fits
      obtain ⟨-, d, hd, hopd, -⟩ := (sourced_of_reached hr).tables n key value hslot
      have hfitsd := fits_of_reached hr hd
      rw [hopd] at hfitsd
      refine ⟨_, rfl, ?_⟩
      have hle := hfitsd.2.2 n hn
      rw [← hid] at hle
      exact hle

/-- A live node at which a call waits can make its next iteration. -/
theorem exists_iterate (hr : Reached cfg (plainCalls cfg) s) (hn : n < cfg.numNodes)
    (hup : s.crashed n = false) (hqueue : s.clientQueue n ≠ []) :
    ∃ s', (cluster cfg).step s (.iterate n) = some s' := by
  obtain ⟨i, rest, hq⟩ := List.exists_cons_of_ne_nil hqueue
  obtain ⟨c, left, hc, hph⟩ := (queued_of_reached hr).waits n hup i (by simp [hq])
  have hplain := allPlain_of_start (P := plainCalls cfg) (fun _ _ hP => hP.1) hr i c hc
  have hfits := fits_of_reached hr (List.mem_of_getElem? hc)
  obtain ⟨reply, hreply, hreplyLen⟩ := exists_reply hr hn hplain hfits
  have hrecv := recvString_eq_some hfits.request hplain.zero_notMem_request
  have hanswer : recvString nodeClientSocketBufferSize reply = some (cstr reply) :=
    if_pos hreplyLen
  -- the client half is a change of the run, so the message that is taken next fits as well
  have hserve : serve cfg n s
      = some (s.served cfg.numNodes n i rest c c.op.request (cstr reply)) := by
    simp only [serve, hq, hc, hph, hrecv, hreply, hanswer, Option.bind_eq_bind, Option.bind_some,
      if_true]
  have hr₁ : Reached cfg (plainCalls cfg)
      (s.served cfg.numNodes n i rest c c.op.request (cstr reply)) :=
    .micro hr (.served n i rest c left c.op.request reply (cstr reply) hn hup hq hc hph hrecv hreply
      hanswer trivial)
  have hfit₁ := messagesFit_of_reached hr₁ n
  change ∃ s', (if n < cfg.numNodes ∧ s.crashed n = false then _ else none) = some s'
  rw [if_pos ⟨hn, hup⟩, hserve, Option.bind_some]
  unfold takeReplication
  split
  · exact ⟨_, rfl⟩
  · next r rest' hq' =>
    rw [recvString, if_pos (hfit₁ r (by simp [hq']))]
    exact ⟨_, rfl⟩

end Iterate

/-- **Integrity.** In every run with plain calls that fit the buffers, whichever nodes crash, a
table holds a value only if it is the value of a `put` of the key and the node is one of the first
`2 * numReplicas - 1` from the hash node of the key on. A `get` returns the error value or the value
of a `put` of its key that was started before the `get` returned. And a live node at which a call
waits can make its next iteration, because no text is too long for its buffer. -/
theorem values_come_from_puts (cfg : Config) (s : State)
    (hr : (cluster cfg).Reachable (plainCalls cfg).allows s) :
    (∀ m key value, (s.node m).storageKeyValueMap key = some value →
        m ∈ reach cfg key ∧ ∃ c ∈ s.calls, c.op = .put key value) ∧
      (∀ c ∈ s.calls, ∀ key, c.op = .get key → ∀ result time, c.phase = .done result time →
        result = .value errorValue ∨ ∃ value, result = .value value ∧
          ∃ d ∈ s.calls, d.op = .put key value ∧ d.startedAt < time) ∧
      ∀ n < cfg.numNodes, s.crashed n = false → s.clientQueue n ≠ [] →
        ∃ s', (cluster cfg).step s (.iterate n) = some s' := by
  have hreached := reached_of_reachable hr
  have h := sourced_of_reached hreached
  refine ⟨fun m key value hvalue => ?_, h.answers, fun n hn hup hqueue =>
    exists_iterate hreached hn hup hqueue⟩
  obtain ⟨hm, c, hc, hop, -⟩ := h.tables m key value hvalue
  exact ⟨hm, c, hc, hop⟩

/-- Node 0 crashes before its value has reached node 1. Node 1 serves another `put` of the key and
takes the old value after it, so that the last `get` returns the value of the first `put`. -/
theorem values_come_from_puts_pair :
    ∃ s, (cluster pairConfig).Reachable (plainCalls pairConfig).allows s ∧
      s.calls[2]?.map Invocation.phase = some (.done (.value [ascii "1"]) 9) ∧
      ∃ d ∈ s.calls, d.op = .put (ascii "j") [ascii "1"] ∧ d.startedAt < 9 := by
  have hrun : (((cluster pairConfig).guardedRun (plainCalls pairConfig).allows (initial pairConfig)
      [.start 0 (.put (ascii "j") [ascii "1"]) [], .connect 0, .iterate 0, .crash 0,
        .start 0 (.put (ascii "j") [ascii "2"]) [0], .connect 1, .iterate 1,
        .start 0 (.get (ascii "j")) [0], .connect 2, .iterate 1]).any
        fun s => s.calls[2]? =
          some ⟨0, .get (ascii "j"), 7, .done (.value [ascii "1"]) 9⟩) = true := by
    decide +kernel
  obtain ⟨s, hr, hend⟩ := System.Reachable.of_any hrun
  have hcall := of_decide_eq_true hend
  refine ⟨s, hr, by rw [hcall]; rfl, ?_⟩
  have hget := (values_come_from_puts pairConfig s hr).2.1 _ (List.mem_of_getElem? hcall)
    (ascii "j") rfl (.value [ascii "1"]) 9 rfl
  -- the answer is not the error value, so it has a source
  rcases hget with herror | ⟨value, hvalue, hput⟩
  · exact absurd herror (by decide)
  · obtain rfl := Result.value.inj hvalue
    exact hput

end Cluster
end GTStore
end OSLab
