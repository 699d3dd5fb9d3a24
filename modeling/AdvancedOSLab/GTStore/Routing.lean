import AdvancedOSLab.GTStore.Cluster

/-!
# What every run of a cluster keeps

Invariants of `Reached` under an arbitrary policy, so also with crashes and with
calls whose keys and values are arbitrary bytes.

* `nodesOK_of_reached`: the ids and the replica addresses of the nodes are the
  ones the manager gave out.
* `routed_of_reached`: a call that is still under way is at the `j`-th node of the
  ring of its key, with all nodes in front of it crashed and `j` attempts used up.
* `messagesOK_of_reached`: every message between nodes is one that the receiver
  takes as a `REPLICATE` with the key and the value text of its sender, so that
  the sender's encoding and the receiver's decoding agree.

The *view* of a slot (a node and a key) is what the slot will hold once the
node-to-node queue of its node is drained. `view_replicated` says that draining
does not change it, and the `view_served` lemmas what a client's message does to it.
-/

namespace OSLab
namespace GTStore
namespace Cluster

open Text Bytes

variable {cfg : Config} {P : Policy} {s s' : State}

/-! ### The list of calls -/

theorem getElem?_started {client : ℕ} {op : Op} {dead : List ℕ} {j : ℕ} {d : Invocation}
    (h : (s.started cfg client op dead).calls[j]? = some d) :
    s.calls[j]? = some d ∨ j = s.calls.length ∧ d.op = op ∧ d.startedAt = s.clock ∧
      d.phase = .trying
        (skipDead cfg.numNodes dead (hashNode cfg.numNodes op.key) cfg.numReplicas).1
        (skipDead cfg.numNodes dead (hashNode cfg.numNodes op.key) cfg.numReplicas).2 := by
  replace h : (s.calls ++ [_])[j]? = some d := h
  rw [List.getElem?_append] at h
  split at h
  · exact .inl h
  · next hj =>
    rw [List.getElem?_singleton] at h
    split at h
    · obtain rfl := Option.some.inj h
      exact .inr ⟨by omega, rfl, rfl, rfl⟩
    · exact absurd h (by simp)

theorem getElem?_setPhase {i : ℕ} {c : Invocation} (hc : s.calls[i]? = some c) (phase : Phase)
    (j : ℕ) : (s.setPhase i c phase).calls[j]?
      = if j = i then some { c with phase := phase } else s.calls[j]? := by
  change (s.calls.set i _)[j]? = _
  rw [List.getElem?_set]
  have hlt : i < s.calls.length := (List.getElem?_eq_some_iff.mp hc).1
  by_cases hj : j = i
  · subst hj
    simp [hlt]
  · rw [if_neg (Ne.symm hj), if_neg hj]

/-- A call of the state after a change of phase is the changed call or an old
one. -/
theorem getElem?_setPhase_cases {i : ℕ} {c : Invocation} (hc : s.calls[i]? = some c)
    {phase : Phase} {j : ℕ} {d : Invocation}
    (h : (s.setPhase i c phase).calls[j]? = some d) :
    (j ≠ i ∧ s.calls[j]? = some d) ∨ (j = i ∧ d = { c with phase := phase }) := by
  rw [getElem?_setPhase hc] at h
  split at h
  · next hj => exact .inr ⟨hj, (Option.some.inj h).symm⟩
  · next hj => exact .inl ⟨hj, h⟩

/-- What one change does to the list of calls: nothing, a new call at its end, or
a new phase for a call that has not returned yet. -/
theorem Micro.calls (h : Micro cfg P s s') :
    s'.calls = s.calls ∧ s.clock ≤ s'.clock ∨
    (∃ d, s'.calls = s.calls ++ [d] ∧ d.startedAt = s.clock ∧ d.phase.isDone = false ∧
      P.start s d.op ∧ s'.clock = s.clock + 1) ∨
    ∃ i c phase, s.calls[i]? = some c ∧ c.phase.isDone = false ∧
      s'.calls = (s.setPhase i c phase).calls ∧ s'.clock = s.clock + 1 ∧
      ∀ r t, phase = .done r t → t = s.clock := by
  cases h with
  | start client op dead hdead hP => exact .inr (.inl ⟨_, rfl, rfl, rfl, hP, rfl⟩)
  | exhausted i c n hc hph =>
    refine .inr (.inr ⟨i, c, _, hc, by rw [hph]; rfl, rfl, rfl, fun r t hd => ?_⟩)
    exact (Phase.done.inj hd).2.symm
  | movedOn i c n left hc hph =>
    refine .inr (.inr ⟨i, c, _, hc, ?_, rfl, rfl, fun r t hd => by cases hd⟩)
    rcases hph with hph | hph <;> rw [hph] <;> rfl
  | connected i c n left hc hph =>
    exact .inr (.inr ⟨i, c, _, hc, by rw [hph]; rfl, rfl, rfl, fun r t hd => by cases hd⟩)
  | served n i rest c left received reply answer hn hup hq hc hph =>
    refine .inr (.inr ⟨i, c, _, hc, by rw [hph]; rfl, rfl, rfl, fun r t hd => ?_⟩)
    exact (Phase.done.inj hd).2.symm
  | replicated n r rest received => exact .inl ⟨rfl, le_refl _⟩
  | crash n => exact .inl ⟨rfl, Nat.le_succ _⟩

/-- A call that has returned does not change any more. -/
theorem Micro.call_done (h : Micro cfg P s s') {j : ℕ} {c : Invocation}
    (hc : s.calls[j]? = some c) (hdone : c.phase.isDone = true) : s'.calls[j]? = some c := by
  -- only a call that has not returned gets a new phase, so it is another one
  rcases h.calls with ⟨he, -⟩ | ⟨d, he, -⟩ | ⟨i, c', phase, hc', hnot, he, -⟩
  · rw [he]
    exact hc
  · rw [he, List.getElem?_append_left (List.getElem?_eq_some_iff.mp hc).1]
    exact hc
  · rw [he, getElem?_setPhase hc', if_neg]
    · exact hc
    · rintro rfl
      rw [hc] at hc'
      obtain rfl := Option.some.inj hc'
      rw [hdone] at hnot
      exact absurd hnot (by decide)

/-- A call of the later state is a new one, or was there before with the same
operation and the same start. -/
theorem Micro.call_before (h : Micro cfg P s s') {j : ℕ} {d : Invocation}
    (hd : s'.calls[j]? = some d) :
    (∃ c, s.calls[j]? = some c ∧ c.op = d.op ∧ c.startedAt = d.startedAt) ∨
      j = s.calls.length ∧ d.startedAt = s.clock ∧ d.phase.isDone = false ∧ P.start s d.op := by
  rcases h.calls with ⟨he, -⟩ | ⟨d', he, hstart, hnot, hP, -⟩ | ⟨i, c, phase, hc, -, he, -⟩
  · exact .inl ⟨d, by rw [← he]; exact hd, rfl, rfl⟩
  · rw [he, List.getElem?_append] at hd
    split at hd
    · exact .inl ⟨d, hd, rfl, rfl⟩
    · rw [List.getElem?_singleton] at hd
      split at hd
      · obtain rfl := Option.some.inj hd
        exact .inr ⟨by omega, hstart, hnot, hP⟩
      · exact absurd hd (by simp)
  · rw [he] at hd
    rcases getElem?_setPhase_cases hc hd with ⟨-, hd⟩ | ⟨rfl, rfl⟩
    · exact .inl ⟨d, hd, rfl, rfl⟩
    · exact .inl ⟨c, hc, rfl, rfl⟩

/-- A call stays, with its operation and its start. -/
theorem Micro.call_after (h : Micro cfg P s s') {j : ℕ} {c : Invocation}
    (hc : s.calls[j]? = some c) :
    ∃ d, s'.calls[j]? = some d ∧ d.op = c.op ∧ d.startedAt = c.startedAt := by
  rcases h.calls with ⟨he, -⟩ | ⟨d', he, -⟩ | ⟨i, c', phase, hc', -, he, -⟩
  · exact ⟨c, by rw [he]; exact hc, rfl, rfl⟩
  · refine ⟨c, ?_, rfl, rfl⟩
    rw [he, List.getElem?_append_left (List.getElem?_eq_some_iff.mp hc).1]
    exact hc
  · rw [he, getElem?_setPhase hc']
    split
    · next hj =>
      subst hj
      rw [hc] at hc'
      obtain rfl := Option.some.inj hc'
      exact ⟨_, rfl, rfl, rfl⟩
    · exact ⟨c, hc, rfl, rfl⟩

/-- All stamps lie in the past. -/
def Stamped (s : State) : Prop :=
  ∀ (j : ℕ) (c : Invocation), s.calls[j]? = some c →
    c.startedAt < s.clock ∧ ∀ r t, c.phase = .done r t → t < s.clock

theorem stamped_of_reached (hr : Reached cfg P s) : Stamped s := by
  induction hr with
  | initial => exact fun j c hc => absurd hc (by simp [initial])
  | @micro s s' _ h ih =>
    intro j d hd
    rcases h.calls with ⟨he, hle⟩ | ⟨d', he, hstart, hnot, -, hclock⟩ |
      ⟨i, c, phase, hc, -, he, hclock, hstamp⟩
    · rw [he] at hd
      obtain ⟨h₁, h₂⟩ := ih j d hd
      exact ⟨by omega, fun r t hph => Nat.lt_of_lt_of_le (h₂ r t hph) hle⟩
    · rw [he, List.getElem?_append] at hd
      split at hd
      · obtain ⟨h₁, h₂⟩ := ih j d hd
        exact ⟨by omega, fun r t hph => by have := h₂ r t hph; omega⟩
      · rw [List.getElem?_singleton] at hd
        split at hd
        · obtain rfl := Option.some.inj hd
          refine ⟨by omega, fun r t hph => ?_⟩
          rw [hph] at hnot
          exact absurd hnot (by simp [Phase.isDone])
        · exact absurd hd (by simp)
    · -- a call returns with the time before the step, and the clock moves on
      rw [he] at hd
      rcases getElem?_setPhase_cases hc hd with ⟨-, hd⟩ | ⟨rfl, rfl⟩
      · obtain ⟨h₁, h₂⟩ := ih j d hd
        exact ⟨by omega, fun r t hph => by have := h₂ r t hph; omega⟩
      · have h₁ := (ih j c hc).1
        refine ⟨by change c.startedAt < _; omega, fun r t hph => ?_⟩
        have := hstamp r t hph
        omega

/-- A crash is for good. -/
theorem crashed_stopped {n m : ℕ} (h : s.crashed m = true) :
    (s.stopped n).crashed m = true := by
  change Function.update s.crashed n true m = true
  rw [Function.update_apply]
  split
  · rfl
  · exact h

/-! ### The nodes -/

/-- The parts of the nodes that never change. -/
def NodesOK (cfg : Config) (s : State) : Prop :=
  ∀ n < cfg.numNodes, (s.node n).nodeId = decimal n ∧
    (s.node n).replicaNodeAddresses
      = (ring cfg.numNodes (cfg.numReplicas - 1) (n + 1)).map nodeNodePath

theorem initial_node {n : ℕ} (hn : n < cfg.numNodes) :
    (initial cfg).node n =
      { nodeId := decimal n
        replicaNodeAddresses :=
          (ring cfg.numNodes (cfg.numReplicas - 1) (n + 1)).map nodeNodePath
        storageKeyValueMap := fun _ => none } := by
  change (connectToManager cfg.numNodes cfg.numReplicas n).getD _ = _
  rw [connectToManager_eq cfg.one_le (cfg.fits n hn)]
  rfl

/-- All tables start empty. -/
theorem initial_map (m : ℕ) (key : Bytes) :
    ((initial cfg).node m).storageKeyValueMap key = none := by
  change ((connectToManager cfg.numNodes cfg.numReplicas m).getD _).storageKeyValueMap key = _
  cases hm : connectToManager cfg.numNodes cfg.numReplicas m with
  | none => rfl
  | some n =>
    rw [connectToManager_eq cfg.one_le (setupFits_of_connectToManager hm)] at hm
    obtain rfl := Option.some.inj hm
    rfl

/-- Replacing one node by one with the same id and addresses. -/
private theorem NodesOK.update (h : NodesOK cfg s) {n : ℕ} {node : Node}
    (hid : node.nodeId = (s.node n).nodeId)
    (haddr : node.replicaNodeAddresses = (s.node n).replicaNodeAddresses)
    (hs' : s'.node = Function.update s.node n node) : NodesOK cfg s' := by
  intro m hm
  rw [hs', Function.update_apply]
  split
  · next hmn =>
    subst hmn
    rw [hid, haddr]
    exact h m hm
  · exact h m hm

theorem nodesOK_of_reached (hr : Reached cfg P s) : NodesOK cfg s := by
  induction hr with
  | initial =>
    intro n hn
    rw [initial_node hn]
    exact ⟨rfl, rfl⟩
  | micro _ h ih =>
    cases h with
    -- only the two handlers touch a node, and they keep its id and its addresses
    | served n i rest c left received =>
      exact ih.update (handleClientMessage_nodeId _ received)
        (handleClientMessage_replicaNodeAddresses _ received) rfl
    | replicated n r rest received =>
      exact ih.update (handleReplicaMessage_nodeId _ received)
        (handleReplicaMessage_replicaNodeAddresses _ received) rfl
    | _ => exact ih

/-! ### Routing -/

/-- The `j`-th node of the ring of a key. -/
def ringNode (cfg : Config) (key : Bytes) (j : ℕ) : ℕ :=
  (hashNode cfg.numNodes key + j) % cfg.numNodes

/-- The nodes that may serve a key: its hash node and the replicas behind it. -/
def replicasOf (cfg : Config) (key : Bytes) : List ℕ :=
  ring cfg.numNodes cfg.numReplicas (hashNode cfg.numNodes key)

theorem numNodes_pos (cfg : Config) : 0 < cfg.numNodes :=
  Nat.lt_of_lt_of_le cfg.one_le cfg.le

theorem mem_replicasOf {key : Bytes} {m : ℕ} :
    m ∈ replicasOf cfg key ↔ ∃ j < cfg.numReplicas, ringNode cfg key j = m :=
  mem_ring

theorem ringNode_zero (key : Bytes) : ringNode cfg key 0 = hashNode cfg.numNodes key :=
  Nat.mod_eq_of_lt (hashNode_lt (numNodes_pos cfg) key)

theorem ringNode_succ (key : Bytes) (j : ℕ) :
    (ringNode cfg key j + 1) % cfg.numNodes = ringNode cfg key (j + 1) := by
  unfold ringNode
  rw [Nat.mod_add_mod, Nat.add_assoc]

/-- The node `n` is reached after `numReplicas - left` attempts, all of them at
crashed nodes. -/
def AtAttempt (cfg : Config) (crashed : ℕ → Bool) (key : Bytes) (n left : ℕ) : Prop :=
  ∃ j, j + left = cfg.numReplicas ∧ n = ringNode cfg key j ∧
    ∀ j' < j, crashed (ringNode cfg key j') = true

theorem AtAttempt.next {crashed : ℕ → Bool} {key : Bytes} {n left : ℕ}
    (h : AtAttempt cfg crashed key n (left + 1)) (hdown : crashed n = true) :
    AtAttempt cfg crashed key ((n + 1) % cfg.numNodes) left := by
  obtain ⟨j, hj, rfl, hbefore⟩ := h
  refine ⟨j + 1, by omega, ringNode_succ key j, fun j' hj' => ?_⟩
  rcases Nat.lt_succ_iff_lt_or_eq.mp hj' with hlt | rfl
  · exact hbefore j' hlt
  · exact hdown

theorem AtAttempt.mono {crashed crashed' : ℕ → Bool} {key : Bytes} {n left : ℕ}
    (h : AtAttempt cfg crashed key n left) (hmono : ∀ m, crashed m = true → crashed' m = true) :
    AtAttempt cfg crashed' key n left := by
  obtain ⟨j, hj, hn, hbefore⟩ := h
  exact ⟨j, hj, hn, fun j' hj' => hmono _ (hbefore j' hj')⟩

/-- The first attempt, after the dead list. -/
theorem atAttempt_skipDead {crashed : ℕ → Bool} {dead : List ℕ}
    (hdead : ∀ d ∈ dead, crashed d) (key : Bytes) :
    AtAttempt cfg crashed key
      (skipDead cfg.numNodes dead (hashNode cfg.numNodes key) cfg.numReplicas).1
      (skipDead cfg.numNodes dead (hashNode cfg.numNodes key) cfg.numReplicas).2 := by
  have hzero : AtAttempt cfg crashed key (hashNode cfg.numNodes key) cfg.numReplicas :=
    ⟨0, Nat.zero_add _, (ringNode_zero key).symm, fun j' hj' => absurd hj' (Nat.not_lt_zero j')⟩
  unfold skipDead
  split
  · next hskip =>
    obtain ⟨hpos, hmem⟩ := hskip
    -- a skip is an attempt at a node that has crashed
    have hK : cfg.numReplicas = cfg.numReplicas - 1 + 1 := by omega
    rw [hK] at hzero
    exact hzero.next (hdead _ hmem)
  · exact hzero

/-- A phase that is where it should be for a key. -/
def Phase.AtRing (cfg : Config) (crashed : ℕ → Bool) (key : Bytes) : Phase → Prop
  | .trying n left => AtAttempt cfg crashed key n left
  | .waiting n left => AtAttempt cfg crashed key n (left + 1)
  | .done _ _ => True

/-- Where the calls that are under way are. -/
def Routed (cfg : Config) (s : State) : Prop :=
  ∀ (j : ℕ) (c : Invocation), s.calls[j]? = some c →
    c.phase.AtRing cfg s.crashed c.op.key

/-- Changing the phase of one call to one that is where it should be. -/
private theorem Routed.setPhase (h : Routed cfg s) {i : ℕ} {c : Invocation}
    (hc : s.calls[i]? = some c) (phase : Phase)
    (hphase : phase.AtRing cfg s.crashed c.op.key)
    (hcalls : s'.calls = (s.setPhase i c phase).calls) (hcrashed : s'.crashed = s.crashed) :
    Routed cfg s' := by
  intro j d hd
  rw [hcrashed]
  rw [hcalls] at hd
  rcases getElem?_setPhase_cases hc hd with ⟨-, hd⟩ | ⟨-, rfl⟩
  · exact h j d hd
  · exact hphase

theorem routed_of_reached (hr : Reached cfg P s) : Routed cfg s := by
  induction hr with
  | initial => exact fun j c hc => absurd hc (by simp [initial])
  | @micro s _ _ h ih =>
    cases h with
    | start client op dead hdead hP =>
      intro j d hd
      rcases getElem?_started hd with hd | ⟨-, hop, -, hphase⟩
      · exact ih j d hd
      · rw [hphase, hop]
        exact atAttempt_skipDead hdead op.key
    | exhausted i c n hc hph => exact ih.setPhase hc (.done c.op.failure s.clock) trivial rfl rfl
    | movedOn i c n left hc hph hdown =>
      -- a failed connection and a lost answer use up the same attempt
      have hat : AtAttempt cfg s.crashed c.op.key n (left + 1) := by
        have := ih i c hc
        rcases hph with hph | hph <;> rw [hph] at this <;> exact this
      exact ih.setPhase hc (.trying _ left) (hat.next hdown) rfl rfl
    | connected i c n left hc hph hup =>
      have hat := ih i c hc
      rw [hph] at hat
      exact ih.setPhase hc (.waiting n left) hat rfl rfl
    | served n i rest c left received reply answer hn hup hq hc =>
      exact ih.setPhase hc (.done (c.op.result answer) s.clock) trivial rfl rfl
    | replicated n r rest received => exact ih
    | crash n hP =>
      -- more nodes are crashed, so the nodes in front still are
      intro j d hd
      have hat := ih j d hd
      change d.phase.AtRing cfg _ _
      cases hph : d.phase with
      | trying m left =>
        rw [hph] at hat
        exact AtAttempt.mono hat fun m' hm' => crashed_stopped hm'
      | waiting m left =>
        rw [hph] at hat
        exact AtAttempt.mono hat fun m' hm' => crashed_stopped hm'
      | done r t => trivial

/-- A call that waits does so at the first node of its ring that has not crashed. -/
theorem Routed.waiting (h : Routed cfg s) {i n left : ℕ} {c : Invocation}
    (hc : s.calls[i]? = some c) (hph : c.phase = .waiting n left) :
    ∃ j < cfg.numReplicas, n = ringNode cfg c.op.key j ∧
      ∀ j' < j, s.crashed (ringNode cfg c.op.key j') = true := by
  have hat := h i c hc
  rw [hph] at hat
  obtain ⟨j, hj, hn, hbefore⟩ := hat
  exact ⟨j, by omega, hn, hbefore⟩

/-- A call without attempts left has found all nodes of its ring crashed. -/
theorem Routed.exhausted (h : Routed cfg s) {i n : ℕ} {c : Invocation}
    (hc : s.calls[i]? = some c) (hph : c.phase = .trying n 0) :
    ∀ m ∈ replicasOf cfg c.op.key, s.crashed m = true := by
  have hat := h i c hc
  rw [hph] at hat
  obtain ⟨j, hj, -, hbefore⟩ := hat
  intro m hm
  obtain ⟨j', hj', rfl⟩ := mem_replicasOf.mp hm
  exact hbefore j' (by omega)

/-! ### Client connections -/

/-- The connections queued at a live node are those of the calls that wait there, each of them
once. -/
structure Queued (s : State) : Prop where
  waits : ∀ n, s.crashed n = false → ∀ i ∈ s.clientQueue n, ∃ c left,
    s.calls[i]? = some c ∧ c.phase = .waiting n left
  nodup : ∀ n, s.crashed n = false → (s.clientQueue n).Nodup

/-- A call whose phase changes is in no queue of a live node any more. -/
private theorem Queued.setPhase (h : Queued s) {i : ℕ} {c : Invocation} {phase : Phase}
    (hc : s.calls[i]? = some c) (hcalls : s'.calls = (s.setPhase i c phase).calls)
    (hcrashed : s'.crashed = s.crashed)
    (hsub : ∀ n, (s'.clientQueue n).Sublist (s.clientQueue n))
    (hnot : ∀ n, s.crashed n = false → i ∉ s'.clientQueue n) : Queued s' := by
  refine ⟨fun n hup j hj => ?_, fun n hup => ?_⟩
  · rw [hcrashed] at hup
    obtain ⟨d, left, hd, hph⟩ := h.waits n hup j ((hsub n).subset hj)
    refine ⟨d, left, ?_, hph⟩
    rw [hcalls, getElem?_setPhase hc, if_neg (ne_of_mem_of_not_mem hj (hnot n hup)), hd]
  · rw [hcrashed] at hup
    exact (h.nodup n hup).sublist (hsub n)

/-- A call in another phase is in no queue of a live node. -/
private theorem Queued.notMem (h : Queued s) {i n : ℕ} {c : Invocation} (hup : s.crashed n = false)
    (hc : s.calls[i]? = some c) (hph : ∀ left, c.phase ≠ .waiting n left) :
    i ∉ s.clientQueue n := by
  intro hi
  obtain ⟨d, left, hd, hwaits⟩ := h.waits n hup i hi
  obtain rfl := Option.some.inj (hc.symm.trans hd)
  exact hph left hwaits

/-- A connection is queued behind the others. -/
private theorem Queued.connected (h : Queued s) {i n left : ℕ} {c : Invocation}
    (hc : s.calls[i]? = some c) (hph : c.phase = .trying n (left + 1)) :
    Queued (s.connected i c n left) := by
  -- a call that is still trying is in no queue
  have hnot : ∀ m, s.crashed m = false → i ∉ s.clientQueue m := fun m hup =>
    h.notMem hup hc (by simp [hph])
  have hcall : ∀ j, (s.connected i c n left).calls[j]? = if j = i then
      some { c with phase := .waiting n left } else s.calls[j]? := getElem?_setPhase hc _
  have hqueue : ∀ m, (s.connected i c n left).clientQueue m =
      if m = n then s.clientQueue n ++ [i] else s.clientQueue m :=
    fun m => Function.update_apply ..
  refine ⟨fun m hup j hj => ?_, fun m hup => ?_⟩
  -- the calls that were queued are other ones, and wait as before
  · have hold : j ∈ s.clientQueue m → ∃ d left',
        (s.connected i c n left).calls[j]? = some d ∧ d.phase = .waiting m left' := by
      intro hj
      obtain ⟨d, left', hd, hwaits⟩ := h.waits m hup j hj
      exact ⟨d, left', by rw [hcall, if_neg (ne_of_mem_of_not_mem hj (hnot m hup)), hd], hwaits⟩
    rw [hqueue] at hj
    split at hj
    · next hm =>
      subst hm
      rcases List.mem_append.mp hj with hj | hj
      · exact hold hj
      · obtain rfl := List.mem_singleton.mp hj
        exact ⟨_, left, by rw [hcall, if_pos rfl], rfl⟩
    · exact hold hj
  · rw [hqueue]
    split
    · next hm =>
      subst hm
      refine List.nodup_append.mpr ⟨h.nodup m hup, List.nodup_singleton i, fun j hj k hk => ?_⟩
      rw [List.mem_singleton.mp hk]
      exact ne_of_mem_of_not_mem hj (hnot m hup)
    · exact h.nodup m hup

theorem queued_of_reached (hr : Reached cfg P s) : Queued s := by
  induction hr with
  | initial => exact ⟨fun n _ i hi => absurd hi List.not_mem_nil, fun n _ => List.nodup_nil⟩
  | @micro s s' _ h ih =>
    cases h with
    | start client op dead =>
      refine ⟨fun n hup i hi => ?_, ih.nodup⟩
      obtain ⟨c, left, hc, hph⟩ := ih.waits n hup i hi
      refine ⟨c, left, ?_, hph⟩
      exact (List.getElem?_append_left (List.getElem?_eq_some_iff.mp hc).1).trans hc
    | exhausted i c n hc hph =>
      refine ih.setPhase hc rfl rfl (fun _ => List.Sublist.refl _) fun m hup => ?_
      exact ih.notMem hup hc (by simp [hph])
    | movedOn i c n left hc hph hdown =>
      refine ih.setPhase hc rfl rfl (fun _ => List.Sublist.refl _) fun m hup => ?_
      -- a call that waits moves on only when its node has crashed
      have hne : n ≠ m := by
        rintro rfl
        exact absurd (hdown.symm.trans hup) (by decide)
      refine ih.notMem hup hc fun left' => ?_
      rcases hph with hph | hph <;> simp [hph, hne]
    | connected i c n left hc hph => exact ih.connected hc hph
    | served n i rest c left received reply answer hn hup hq hc hph =>
      have hqueue : ∀ m, (s.served cfg.numNodes n i rest c received answer).clientQueue m =
          if m = n then rest else s.clientQueue m := fun m => Function.update_apply ..
      refine ih.setPhase hc rfl rfl (fun m => ?_) fun m hup' => ?_
      · rw [hqueue]
        split
        · next hm =>
          rw [hm, hq]
          exact List.sublist_cons_self i rest
        · exact List.Sublist.refl _
      · -- the call was at the head of this queue, and is in no other
        rw [hqueue]
        split
        · have hnodup := ih.nodup n hup
          rw [hq] at hnodup
          exact (List.nodup_cons.mp hnodup).1
        · next hm => exact ih.notMem hup' hc (by simp [hph, Ne.symm hm])
    | replicated n r rest received => exact ⟨ih.waits, ih.nodup⟩
    | crash n hP =>
      have hup : ∀ m, (s.stopped n).crashed m = false → s.crashed m = false := by
        intro m hup
        by_contra hdown
        rw [crashed_stopped (by simpa using hdown)] at hup
        exact absurd hup (by decide)
      exact ⟨fun m hm => ih.waits m (hup m hm), fun m hm => ih.nodup m (hup m hm)⟩

/-! ### Messages between nodes -/

namespace Replication

/-- The key of a message, as its receiver decodes it. -/
def key (r : Replication) : Bytes := (parseKeyValue r.msg).1

/-- The value list of a message, as its receiver stores it. -/
def values (r : Replication) : Val := split space (parseKeyValue r.msg).2

/-- A message that arrives as it was sent and is taken as a `REPLICATE`. -/
structure OK (r : Replication) : Prop where
  noNul : 0 ∉ r.msg
  isReplicate : (find (ascii "REPLICATE:") r.msg).isSome = true

theorem OK.received {r : Replication} (h : r.OK) {size : ℕ} {received : Bytes}
    (hrecv : recvString size r.msg = some received) : received = r.msg := by
  rw [← (recvString_eq_some_iff.mp hrecv).2, cstr_eq_self h.noNul]

/-- Applying a message sets the slot of its key. -/
theorem OK.apply {r : Replication} (h : r.OK) (n : Node) (key : Bytes) :
    (handleReplicaMessage n r.msg).storageKeyValueMap key
      = if r.key = key then some r.values else n.storageKeyValueMap key := by
  unfold handleReplicaMessage
  rw [if_pos h.isReplicate, storeKeyValue_map]
  simp only [Replication.key, Replication.values, eq_comm]

end Replication

section Sent

variable {received : Bytes} {kv : Bytes × Bytes} (i : ℕ)

/-- **Re-encoding.** The message sent for what a client's message stores is taken
as a `REPLICATE` with the same key and the same value text. -/
theorem sent_ok (h0 : 0 ∉ received) (hkv : storedBy received = some kv) :
    (Replication.mk (replicationMsg kv.1 kv.2) i).OK := by
  obtain rfl := eq_parseKeyValue_of_storedBy hkv
  exact ⟨zero_notMem_replicationMsg h0, find_replicate_isSome _ _⟩

theorem parse_sent (hkv : storedBy received = some kv) :
    parseKeyValue (replicationMsg kv.1 kv.2) = kv := by
  obtain rfl := eq_parseKeyValue_of_storedBy hkv
  exact parseKeyValue_replicationMsg (space_notMem_parseKeyValue received) _

theorem key_sent (hkv : storedBy received = some kv) :
    (Replication.mk (replicationMsg kv.1 kv.2) i).key = kv.1 := by
  rw [Replication.key, parse_sent hkv]

theorem values_sent (hkv : storedBy received = some kv) :
    (Replication.mk (replicationMsg kv.1 kv.2) i).values = split space kv.2 := by
  rw [Replication.values, parse_sent hkv]

end Sent

/-- The loop over the replica addresses reaches every live replica once. -/
theorem sendReplication_apply {N : ℕ} (crashed : ℕ → Bool) {ms : List ℕ} (hnodup : ms.Nodup)
    (hlt : ∀ m ∈ ms, m < N) (r : Replication) (q : ℕ → List Replication) (m : ℕ) :
    sendReplication N crashed (ms.map nodeNodePath) r q m
      = if m ∈ ms ∧ crashed m = false then q m ++ [r] else q m := by
  -- on the addresses; no path occurs twice, so a queue grows at most once
  induction ms generalizing q with
  | nil => simp [sendReplication]
  | cons a ms ih =>
    obtain ⟨ha, hnodup⟩ := List.nodup_cons.mp hnodup
    have hrest := ih hnodup fun m hm => hlt m (List.mem_cons_of_mem a hm)
    have hlist : listener N (nodeNodePath a) = some a :=
      listener_nodeNodePath (hlt a List.mem_cons_self)
    unfold sendReplication at hrest ⊢
    rw [List.map_cons, List.foldl_cons, hlist]
    dsimp only
    rw [hrest]
    by_cases hm : m = a
    · subst hm
      cases hcr : crashed m <;> simp [ha]
    · cases hcr : crashed a <;> simp [hm]

/-- The nodes a node passes its writes on to. -/
def behind (cfg : Config) (n : ℕ) : List ℕ := ring cfg.numNodes (cfg.numReplicas - 1) (n + 1)

section Served

variable {n i : ℕ} {rest : List ℕ} {c : Invocation} {received answer : Bytes}

theorem nodeQueue_served_none (h : storedBy received = none) :
    (s.served cfg.numNodes n i rest c received answer).nodeQueue = s.nodeQueue := by
  change (handleClientMessage (s.node n) received).replication.elim _ _ = _
  rw [handleClientMessage_replication, h]
  rfl

/-- A message that stores something is queued at every live node behind. -/
theorem nodeQueue_served_some (hok : NodesOK cfg s) (hn : n < cfg.numNodes)
    {kv : Bytes × Bytes} (h : storedBy received = some kv) (m : ℕ) :
    (s.served cfg.numNodes n i rest c received answer).nodeQueue m
      = if m ∈ behind cfg n ∧ s.crashed m = false
        then s.nodeQueue m ++ [⟨replicationMsg kv.1 kv.2, i⟩] else s.nodeQueue m := by
  have hle : cfg.numReplicas - 1 ≤ cfg.numNodes := by
    have := cfg.le
    omega
  change ((handleClientMessage (s.node n) received).replication.elim s.nodeQueue fun msg =>
    sendReplication cfg.numNodes s.crashed (s.node n).replicaNodeAddresses ⟨msg, i⟩
      s.nodeQueue) m = _
  rw [handleClientMessage_replication, h, (hok n hn).2]
  exact sendReplication_apply s.crashed (ring_nodup hle)
    (fun m hm => lt_of_mem_ring (numNodes_pos cfg) hm) _ _ m

/-- What is queued at a node afterwards was there before, or it was sent. -/
theorem mem_nodeQueue_of_served (hok : NodesOK cfg s) (hn : n < cfg.numNodes)
    {kv : Bytes × Bytes} (h : storedBy received = some kv) {m : ℕ} {r : Replication}
    (hr : r ∈ (s.served cfg.numNodes n i rest c received answer).nodeQueue m) :
    r ∈ s.nodeQueue m ∨ m ∈ behind cfg n ∧ r = ⟨replicationMsg kv.1 kv.2, i⟩ := by
  rw [nodeQueue_served_some hok hn h] at hr
  split at hr
  · next hm =>
    rcases List.mem_append.mp hr with hr | hr
    · exact .inl hr
    · exact .inr ⟨hm.1, List.mem_singleton.mp hr⟩
  · exact .inl hr

/-- What serving a call does to the tables. -/
theorem map_served (m : ℕ) (key : Bytes) :
    ((s.served cfg.numNodes n i rest c received answer).node m).storageKeyValueMap key
      = (storedBy received).elim ((s.node m).storageKeyValueMap key) fun kv =>
          if m = n ∧ key = kv.1 then some (split space kv.2)
          else (s.node m).storageKeyValueMap key := by
  change (Function.update s.node n _ m).storageKeyValueMap key = _
  rw [Function.update_apply, handleClientMessage_node]
  cases storedBy received with
  | none =>
    by_cases hm : m = n
    · subst hm
      simp
    · simp [hm]
  | some kv =>
    by_cases hm : m = n
    · subst hm
      simp [storeKeyValue_map]
    · simp [hm]

end Served

theorem nodeQueue_replicated {n : ℕ} {r : Replication} {rest : List Replication}
    {received : Bytes} (m : ℕ) : (s.replicated n r rest received).nodeQueue m
      = if m = n then rest else s.nodeQueue m := by
  change Function.update s.nodeQueue n rest m = _
  rw [Function.update_apply]

theorem mem_nodeQueue_of_replicated {n m : ℕ} {r r' : Replication} {rest : List Replication}
    {received : Bytes} (hq : s.nodeQueue n = r :: rest)
    (h : r' ∈ (s.replicated n r rest received).nodeQueue m) : r' ∈ s.nodeQueue m := by
  rw [nodeQueue_replicated] at h
  split at h
  · next hm =>
    rw [hm, hq]
    exact List.mem_cons_of_mem r h
  · exact h

/-- Every queued message is one that will be taken as sent. -/
def MessagesOK (s : State) : Prop := ∀ m, ∀ r ∈ s.nodeQueue m, r.OK

theorem messagesOK_of_reached (hr : Reached cfg P s) : MessagesOK s := by
  induction hr with
  | initial => exact fun m r hr => absurd hr (by simp [initial])
  | @micro s _ hr h ih =>
    cases h with
    | served n i rest c left received reply answer hn hup hq hc hph hrecv =>
      -- what was received ends in front of the first NUL
      have h0 : 0 ∉ received := by
        rw [← (recvString_eq_some_iff.mp hrecv).2]
        exact zero_notMem_cstr _
      intro m r hmem
      cases hst : storedBy received with
      | none =>
        rw [nodeQueue_served_none hst] at hmem
        exact ih m r hmem
      | some kv =>
        obtain hmem | ⟨-, rfl⟩ := mem_nodeQueue_of_served (nodesOK_of_reached hr) hn hst hmem
        · exact ih m r hmem
        · exact sent_ok i h0 hst
    | replicated n r rest received hq hrecv =>
      exact fun m r' hmem => ih m r' (mem_nodeQueue_of_replicated hq hmem)
    | _ => exact ih

/-! ### The view of a slot -/

/-- Apply queued messages to the value of one slot. -/
def drained (key : Bytes) (v : Option Val) (q : List Replication) : Option Val :=
  q.foldl (fun v r => if r.key = key then some r.values else v) v

theorem drained_cons (key : Bytes) (v : Option Val) (r : Replication) (q : List Replication) :
    drained key v (r :: q) = drained key (if r.key = key then some r.values else v) q := rfl

theorem drained_snoc (key : Bytes) (v : Option Val) (q : List Replication) (r : Replication) :
    drained key v (q ++ [r]) = if r.key = key then some r.values else drained key v q := by
  unfold drained
  rw [List.foldl_append]
  rfl

/-- A queue without messages for a key does not change its slot. -/
theorem drained_of_ne {key : Bytes} {q : List Replication} (h : ∀ r ∈ q, r.key ≠ key)
    (v : Option Val) : drained key v q = v := by
  induction q generalizing v with
  | nil => rfl
  | cons r q ih =>
    rw [drained_cons, if_neg (h r List.mem_cons_self)]
    exact ih (fun r' hr' => h r' (List.mem_cons_of_mem r hr')) v

/-- What node `m` will hold under `key` once its queue is drained. -/
def State.view (s : State) (m : ℕ) (key : Bytes) : Option Val :=
  drained key ((s.node m).storageKeyValueMap key) (s.nodeQueue m)

/-- What taking a queued message does to the tables. -/
theorem map_replicated (hok : MessagesOK s) {n : ℕ} {r : Replication}
    {rest : List Replication} {received : Bytes} (hq : s.nodeQueue n = r :: rest)
    (hrecv : recvString nodeNodeSocketBufferSize r.msg = some received) (m : ℕ) (key : Bytes) :
    ((s.replicated n r rest received).node m).storageKeyValueMap key
      = if m = n ∧ r.key = key then some r.values else (s.node m).storageKeyValueMap key := by
  have hr : r.OK := hok n r (by rw [hq]; exact List.mem_cons_self)
  obtain rfl := hr.received hrecv
  change (Function.update s.node n (handleReplicaMessage (s.node n) r.msg) m).storageKeyValueMap key
    = _
  rw [Function.update_apply]
  by_cases hm : m = n
  · subst hm
    rw [if_pos rfl, hr.apply]
    simp
  · rw [if_neg hm, if_neg fun hmk => hm hmk.1]

/-- **Draining.** Taking a queued message does not change any view. -/
theorem view_replicated (hok : MessagesOK s) {n : ℕ} {r : Replication}
    {rest : List Replication} {received : Bytes} (hq : s.nodeQueue n = r :: rest)
    (hrecv : recvString nodeNodeSocketBufferSize r.msg = some received) (m : ℕ) (key : Bytes) :
    (s.replicated n r rest received).view m key = s.view m key := by
  unfold State.view
  rw [map_replicated hok hq hrecv, nodeQueue_replicated]
  by_cases hm : m = n
  · -- the head of the queue moves into the table
    subst hm
    rw [if_pos rfl, hq, drained_cons]
    simp
  · rw [if_neg fun hmk => hm hmk.1, if_neg hm]

section Served

variable {n i : ℕ} {rest : List ℕ} {c : Invocation} {received answer : Bytes}

/-- A message that stores nothing changes no view. -/
theorem view_served_none (h : storedBy received = none) (m : ℕ) (key : Bytes) :
    (s.served cfg.numNodes n i rest c received answer).view m key = s.view m key := by
  unfold State.view
  rw [map_served, nodeQueue_served_none h, h]
  rfl

/-- A message for another key changes no view. -/
theorem view_served_of_ne (hok : NodesOK cfg s) (hn : n < cfg.numNodes) {kv : Bytes × Bytes}
    (h : storedBy received = some kv) {key : Bytes} (hkey : kv.1 ≠ key) (m : ℕ) :
    (s.served cfg.numNodes n i rest c received answer).view m key = s.view m key := by
  have hsent : (Replication.mk (replicationMsg kv.1 kv.2) i).key ≠ key := by
    rw [key_sent i h]
    exact hkey
  unfold State.view
  rw [map_served, nodeQueue_served_some hok hn h, h, Option.elim_some,
    if_neg fun hmk => hkey hmk.2.symm]
  split
  · -- the message at the end of the queue is for the other key
    rw [drained_snoc, if_neg hsent]
  · rfl

/-- After a message for `key`, its value is in view at every live node behind the
one that served it. -/
theorem view_served_behind (hok : NodesOK cfg s) (hn : n < cfg.numNodes) {kv : Bytes × Bytes}
    (h : storedBy received = some kv) {m : ℕ} (hm : m ∈ behind cfg n)
    (hup : s.crashed m = false) :
    (s.served cfg.numNodes n i rest c received answer).view m kv.1
      = some (split space kv.2) := by
  -- whatever is in front of it in the queue, the message at the end decides
  unfold State.view
  rw [nodeQueue_served_some hok hn h, if_pos ⟨hm, hup⟩, drained_snoc, if_pos (key_sent i h),
    values_sent i h]

/-- The later nodes of a ring are behind the earlier ones. -/
theorem ringNode_mem_behind {key : Bytes} {j j' : ℕ} (hlt : j < j')
    (hj' : j' < cfg.numReplicas) : ringNode cfg key j' ∈ behind cfg (ringNode cfg key j) := by
  refine mem_ring.mpr ⟨j' - j - 1, by omega, ?_⟩
  unfold ringNode
  rw [Nat.add_assoc, Nat.mod_add_mod, Nat.add_assoc]
  congr 2
  omega

theorem notMem_behind (n : ℕ) (hn : n < cfg.numNodes) : n ∉ behind cfg n :=
  notMem_ring_succ hn cfg.le

/-- And at the serving node itself, if no message for the key is queued there. -/
theorem view_served_self (hok : NodesOK cfg s) (hn : n < cfg.numNodes) {kv : Bytes × Bytes}
    (h : storedBy received = some kv) (hquiet : ∀ r ∈ s.nodeQueue n, r.key ≠ kv.1) :
    (s.served cfg.numNodes n i rest c received answer).view n kv.1
      = some (split space kv.2) := by
  unfold State.view
  rw [map_served, nodeQueue_served_some hok hn h, if_neg fun hb => notMem_behind n hn hb.1,
    drained_of_ne hquiet, h, Option.elim_some, if_pos ⟨rfl, rfl⟩]

end Served

end Cluster
end GTStore
end OSLab
