import AdvancedOSLab.GTStore.Routing

/-!
# When a replica goes backwards

A node stores a key for two reasons: a client's `PUT`, at once, and another node's
`REPLICATE`, when its queue comes to it. After a failover the two meet. A `PUT`
that a replica serves directly overtakes the messages still queued there, and one
of those may then overwrite it: `failover_write_is_overwritten` is a run of two
nodes in which an acknowledged value is replaced by one that was acknowledged
before it was even sent.

`recorded_of_reached` ties the list `written` to the tables: what a node holds under
a key is the value of the last call on its list.

`writers` lists the calls that have stored or will store a key at a node, in order:
those that did, then those queued. Draining leaves the list as it is
(`writers_replicated`), and serving a call appends to it (`writers_served`) unless
the call overtakes a queued message. `overtakesNothing` excludes just that, and
`never_backwards` is the result for such runs.
-/

namespace OSLab
namespace GTStore
namespace Cluster

open Text Bytes

variable {cfg : Config} {P : Policy} {s s' : State}

/-! ### The property -/

/-- Call `i` had returned when call `j` was started. -/
def ReturnedBefore (s : State) (i j : ℕ) : Prop :=
  ∃ (c d : Invocation) (r : Result) (t : ℕ), s.calls[i]? = some c ∧ s.calls[j]? = some d ∧
    c.phase = .done r t ∧ t < d.startedAt

/-- No node replaces, under any key, what a call has stored by what an older call
had stored: one that had returned before the other was started. -/
def NeverBackwards (s : State) : Prop :=
  ∀ m key, (s.written m key).Pairwise fun i j => ¬ ReturnedBefore s j i

/-- A node takes a client's message only if nothing is queued at it for the key
that the message stores. -/
def overtakesNothing : Policy where
  start := fun _ _ => True
  serve := fun s n c =>
    ∀ kv ∈ storedBy (cstr c.op.request), ∀ r ∈ s.nodeQueue n, r.key ≠ kv.1
  crash := fun _ _ => True

instance (s : State) (l : Label) : Decidable (overtakesNothing.allows s l) :=
  match l with
  | .iterate n =>
    inferInstanceAs (Decidable (∀ c ∈ s.nextCall n, ∀ kv ∈ storedBy (cstr c.op.request),
      ∀ r ∈ s.nodeQueue n, r.key ≠ kv.1))
  | .start _ _ _ | .connect _ | .notice _ | .crash _ => inferInstanceAs (Decidable True)

/-! ### What the history says -/

theorem recordWrite_apply (written : ℕ → Bytes → List ℕ) (n : ℕ) (key : Bytes) (i m : ℕ)
    (κ : Bytes) : recordWrite written n key i m κ
      = if m = n ∧ κ = key then written m κ ++ [i] else written m κ := by
  unfold recordWrite
  rw [Function.update_apply]
  by_cases hm : m = n
  · subst hm
    rw [if_pos rfl, Function.update_apply]
    by_cases hκ : κ = key
    · subst hκ
      simp
    · simp [hκ]
  · simp [hm]

theorem written_served {n i : ℕ} {rest : List ℕ} {c : Invocation} {received answer : Bytes}
    (m : ℕ) (key : Bytes) :
    (s.served cfg.numNodes n i rest c received answer).written m key
      = (storedBy received).elim (s.written m key) fun kv =>
          if m = n ∧ key = kv.1 then s.written m key ++ [i] else s.written m key := by
  change (storedBy received).elim s.written (fun kv => recordWrite s.written n kv.1 i) m key = _
  cases storedBy received with
  | none => rfl
  | some kv => exact recordWrite_apply _ _ _ _ _ _

theorem written_replicated (hok : MessagesOK s) {n : ℕ} {r : Replication}
    {rest : List Replication} {received : Bytes} (hq : s.nodeQueue n = r :: rest)
    (hrecv : recvString nodeNodeSocketBufferSize r.msg = some received) (m : ℕ) (key : Bytes) :
    (s.replicated n r rest received).written m key
      = if m = n ∧ r.key = key then s.written m key ++ [r.origin] else s.written m key := by
  have hr : r.OK := hok n r (by rw [hq]; exact List.mem_cons_self)
  obtain rfl := hr.received hrecv
  change recordWrite s.written n r.key r.origin m key = _
  rw [recordWrite_apply]
  simp only [eq_comm]

/-- Call `i` stores the value list `v`. -/
def Stores (s : State) (i : ℕ) (v : Val) : Prop :=
  ∃ (c : Invocation) (kv : Bytes × Bytes), s.calls[i]? = some c ∧
    storedBy (cstr c.op.request) = some kv ∧ split space kv.2 = v

/-- What a call stores does not change. -/
theorem Micro.stores (h : Micro cfg P s s') {i : ℕ} {v : Val} (hv : Stores s i v) :
    Stores s' i v := by
  obtain ⟨c, kv, hc, hst, hsplit⟩ := hv
  obtain ⟨d, hd, hop, -⟩ := h.call_after hc
  exact ⟨d, kv, hd, by rw [hop]; exact hst, hsplit⟩

/-- The table of a node is what its history says, and the queued messages carry
what their calls store. -/
structure Recorded (s : State) : Prop where
  queue : ∀ m, ∀ r ∈ s.nodeQueue m, Stores s r.origin r.values
  table : ∀ m key, s.written m key = [] ∧ (s.node m).storageKeyValueMap key = none ∨
    ∃ pre i v, s.written m key = pre ++ [i] ∧ Stores s i v ∧
      (s.node m).storageKeyValueMap key = some v

/-- What the record says of a slot, with the calls of the next state. -/
theorem Recorded.table_after (ih : Recorded s) (h : Micro cfg P s s') (m : ℕ) (key : Bytes) :
    s.written m key = [] ∧ (s.node m).storageKeyValueMap key = none ∨
      ∃ pre i v, s.written m key = pre ++ [i] ∧ Stores s' i v ∧
        (s.node m).storageKeyValueMap key = some v := by
  rcases ih.table m key with hnone | ⟨pre, i, v, hw, hv, hmap⟩
  · exact .inl hnone
  · exact .inr ⟨pre, i, v, hw, h.stores hv, hmap⟩

/-- A change that touches neither tables nor queues keeps the record. -/
theorem Recorded.same (ih : Recorded s) (h : Micro cfg P s s') (hnode : s'.node = s.node)
    (hqueue : s'.nodeQueue = s.nodeQueue) (hwritten : s'.written = s.written) :
    Recorded s' where
  queue := by
    rw [hqueue]
    exact fun m r hr => h.stores (ih.queue m r hr)
  table := by
    intro m key
    rw [hnode, hwritten]
    exact ih.table_after h m key

/-- What each node holds under a key is the value of the last call on its list. -/
theorem recorded_of_reached (hr : Reached cfg P s) : Recorded s := by
  induction hr with
  | initial =>
    exact ⟨fun m r hr => absurd hr List.not_mem_nil, fun m key => .inl ⟨rfl, initial_map m key⟩⟩
  | @micro s s' hr h ih =>
    have hmicro := h
    cases h with
    | served n i rest c left received reply answer hn hup hq hc hph hrecv =>
      obtain ⟨-, rfl⟩ := recvString_eq_some_iff.mp hrecv
      cases hst : storedBy (cstr c.op.request) with
      | none =>
        refine ⟨fun m r hr => ?_, fun m key => ?_⟩
        · rw [nodeQueue_served_none hst] at hr
          exact hmicro.stores (ih.queue m r hr)
        · rw [written_served, map_served, hst]
          exact ih.table_after hmicro m key
      | some kv =>
        have hi := hmicro.stores ⟨c, kv, hc, hst, rfl⟩
        refine ⟨fun m r hr => ?_, fun m key => ?_⟩
        · obtain hr | ⟨-, rfl⟩ := mem_nodeQueue_of_served (nodesOK_of_reached ‹_›) hn hst hr
          · exact hmicro.stores (ih.queue m r hr)
          · rw [values_sent i hst]
            exact hi
        · rw [written_served, map_served, hst, Option.elim_some, Option.elim_some]
          split
          · -- the slot that is written: the call is the last on its list
            exact .inr ⟨_, i, _, rfl, hi, rfl⟩
          · exact ih.table_after hmicro m key
    | replicated n r rest received hq hrecv =>
      have hok := messagesOK_of_reached hr
      have hr := hmicro.stores (ih.queue n r (by rw [hq]; exact List.mem_cons_self))
      refine ⟨fun m r' hr' => hmicro.stores (ih.queue m r' (mem_nodeQueue_of_replicated hq hr')),
        fun m key => ?_⟩
      rw [written_replicated hok hq hrecv, map_replicated hok hq hrecv]
      split
      · exact .inr ⟨_, r.origin, r.values, rfl, hr, rfl⟩
      · exact ih.table_after hmicro m key
    | _ => exact ih.same hmicro rfl rfl rfl

/-! ### The writers of a slot -/

/-- The calls whose messages for a key are queued. -/
def queuedFor (key : Bytes) (q : List Replication) : List ℕ :=
  (q.filter fun r => r.key = key).map Replication.origin

/-- The calls that have stored a key at a node, then those that will. -/
def writers (s : State) (m : ℕ) (key : Bytes) : List ℕ :=
  s.written m key ++ queuedFor key (s.nodeQueue m)

theorem queuedFor_cons (key : Bytes) (r : Replication) (q : List Replication) :
    queuedFor key (r :: q) = if r.key = key then r.origin :: queuedFor key q
      else queuedFor key q := by
  unfold queuedFor
  rw [List.filter_cons]
  by_cases h : r.key = key <;> simp [h]

theorem queuedFor_append (key : Bytes) (q q' : List Replication) :
    queuedFor key (q ++ q') = queuedFor key q ++ queuedFor key q' := by
  unfold queuedFor
  rw [List.filter_append, List.map_append]

theorem queuedFor_of_ne {key : Bytes} {q : List Replication} (h : ∀ r ∈ q, r.key ≠ key) :
    queuedFor key q = [] := by
  unfold queuedFor
  rw [List.filter_eq_nil_iff.mpr (by simpa using h), List.map_nil]

/-- Taking a queued message moves its call from the second half to the first. -/
theorem writers_replicated (hok : MessagesOK s) {n : ℕ} {r : Replication}
    {rest : List Replication} {received : Bytes} (hq : s.nodeQueue n = r :: rest)
    (hrecv : recvString nodeNodeSocketBufferSize r.msg = some received) (m : ℕ) (key : Bytes) :
    writers (s.replicated n r rest received) m key = writers s m key := by
  unfold writers
  rw [nodeQueue_replicated, written_replicated hok hq hrecv]
  by_cases hm : m = n
  · -- the head of the queue becomes the last of those that have stored
    subst hm
    rw [if_pos rfl, hq, queuedFor_cons]
    by_cases hkey : r.key = key
    · simp [hkey]
    · simp [hkey]
  · rw [if_neg fun h => hm h.1, if_neg hm]

/-- Serving a call that overtakes nothing appends it, wherever it appends
anything. -/
theorem writers_served (hok : NodesOK cfg s) {n i : ℕ} (hn : n < cfg.numNodes)
    {rest : List ℕ} {c : Invocation} {received answer : Bytes}
    (hquiet : ∀ kv ∈ storedBy received, ∀ r ∈ s.nodeQueue n, r.key ≠ kv.1)
    (m : ℕ) (key : Bytes) :
    writers (s.served cfg.numNodes n i rest c received answer) m key = writers s m key ∨
    writers (s.served cfg.numNodes n i rest c received answer) m key
      = writers s m key ++ [i] := by
  unfold writers
  cases hst : storedBy received with
  | none =>
    rw [nodeQueue_served_none hst, written_served, hst]
    exact .inl rfl
  | some kv =>
    rw [written_served, hst, Option.elim_some, nodeQueue_served_some hok hn hst]
    by_cases hm : m = n
    · -- the serving node: nothing for this key is queued, nothing is sent to itself
      subst hm
      have hself : ¬ (m ∈ behind cfg m ∧ s.crashed m = false) :=
        fun hb => notMem_behind m hn hb.1
      rw [if_neg hself]
      by_cases hkey : key = kv.1
      · subst hkey
        rw [if_pos ⟨rfl, rfl⟩, queuedFor_of_ne (hquiet kv hst)]
        exact .inr (by simp)
      · rw [if_neg fun h => hkey h.2]
        exact .inl rfl
    · -- another node: the message goes to the end of its queue, or nothing happens
      rw [if_neg fun h => hm h.1]
      split
      · rw [queuedFor_append, queuedFor_cons, key_sent i hst]
        by_cases hkey : kv.1 = key
        · rw [if_pos hkey]
          exact .inr (by simp [queuedFor])
        · rw [if_neg hkey]
          exact .inl (by simp [queuedFor])
      · exact .inl rfl

/-! ### The invariant -/

/-- The writers of every slot have returned, and come in an order that contradicts
no return. -/
structure InOrder (s : State) : Prop where
  returned : ∀ m key, ∀ i ∈ writers s m key,
    ∃ c, s.calls[i]? = some c ∧ c.phase.isDone = true
  ordered : ∀ m key, (writers s m key).Pairwise fun i j => ¬ ReturnedBefore s j i

/-- Between calls that have returned, the order of return and start is settled. -/
theorem Micro.returnedBefore (h : Micro cfg P s s') {i j : ℕ}
    (hi : ∃ c, s.calls[i]? = some c ∧ c.phase.isDone = true)
    (hj : ∃ c, s.calls[j]? = some c ∧ c.phase.isDone = true)
    (hb : ReturnedBefore s' i j) : ReturnedBefore s i j := by
  obtain ⟨c, d, r, t, hc, hd, hph, hlt⟩ := hb
  obtain ⟨c', hc', hdone⟩ := hi
  obtain ⟨d', hd', hdone'⟩ := hj
  -- both calls are the same in the two states
  have hcc := h.call_done hc' hdone
  have hdd := h.call_done hd' hdone'
  rw [hcc] at hc
  rw [hdd] at hd
  obtain rfl := Option.some.inj hc
  obtain rfl := Option.some.inj hd
  exact ⟨_, _, r, t, hc', hd', hph, hlt⟩

/-- A change that leaves the writers as they are keeps the invariant. -/
theorem InOrder.same (ih : InOrder s) (h : Micro cfg P s s')
    (hw : ∀ m key, writers s' m key = writers s m key) : InOrder s' where
  returned := by
    intro m key i hi
    rw [hw] at hi
    obtain ⟨c, hc, hdone⟩ := ih.returned m key i hi
    exact ⟨c, h.call_done hc hdone, hdone⟩
  ordered := by
    intro m key
    rw [hw]
    refine (ih.ordered m key).imp_of_mem fun {i j} hi hj hij hb => hij ?_
    exact h.returnedBefore (ih.returned m key j hj) (ih.returned m key i hi) hb

/-- A call that returns now has not returned before anything was started. -/
theorem InOrder.append (ih : InOrder s) (hstamped : Stamped s) (h : Micro cfg P s s') {i : ℕ}
    {c : Invocation} {r : Result} (hc : s'.calls[i]? = some c)
    (hph : c.phase = .done r s.clock)
    (hw : ∀ m key, writers s' m key = writers s m key ∨
      writers s' m key = writers s m key ++ [i]) : InOrder s' where
  returned := by
    intro m key j hj
    have hold : ∀ j ∈ writers s m key, ∃ c, s'.calls[j]? = some c ∧ c.phase.isDone = true := by
      intro j hj
      obtain ⟨d, hd, hdone⟩ := ih.returned m key j hj
      exact ⟨d, h.call_done hd hdone, hdone⟩
    rcases hw m key with he | he
    · rw [he] at hj
      exact hold j hj
    · rw [he] at hj
      rcases List.mem_append.mp hj with hj | hj
      · exact hold j hj
      · obtain rfl := List.mem_singleton.mp hj
        exact ⟨c, hc, by rw [hph]; rfl⟩
  ordered := by
    intro m key
    have hold : (writers s m key).Pairwise fun i j => ¬ ReturnedBefore s' j i :=
      (ih.ordered m key).imp_of_mem fun {i j} hi hj hij hb =>
        hij (h.returnedBefore (ih.returned m key j hj) (ih.returned m key i hi) hb)
    rcases hw m key with he | he
    · rw [he]
      exact hold
    · rw [he, List.pairwise_append]
      refine ⟨hold, List.pairwise_singleton _ _, fun j hj i' hi' hb => ?_⟩
      -- the new writer returns at this step, and `j` was started before it
      obtain rfl := List.mem_singleton.mp hi'
      obtain ⟨c', d, r', t, hc', hd, hph', hlt⟩ := hb
      rw [hc] at hc'
      obtain rfl := Option.some.inj hc'
      obtain ⟨d₀, hd₀, hdone⟩ := ih.returned m key j hj
      rw [h.call_done hd₀ hdone] at hd
      obtain rfl := Option.some.inj hd
      have hpast := (hstamped j d₀ hd₀).1
      rw [hph] at hph'
      have ht := (Phase.done.inj hph').2
      omega

theorem inOrder_of_reached (hr : Reached cfg overtakesNothing s) : InOrder s := by
  induction hr with
  | initial =>
    exact ⟨fun m key i hi => absurd hi List.not_mem_nil, fun m key => List.Pairwise.nil⟩
  | @micro s s' hr h ih =>
    have hmicro := h
    cases h with
    | served n i rest c left received reply answer hn hup hq hc hph hrecv hreply hanswer hP =>
      obtain ⟨-, rfl⟩ := recvString_eq_some_iff.mp hrecv
      have hcall := getElem?_setPhase hc (.done (c.op.result answer) s.clock) i
      rw [if_pos rfl] at hcall
      exact ih.append (stamped_of_reached hr) hmicro hcall rfl
        (writers_served (nodesOK_of_reached hr) hn hP)
    | replicated n r rest received hq hrecv =>
      exact ih.same hmicro (writers_replicated (messagesOK_of_reached hr) hq hrecv)
    | _ => exact ih.same hmicro fun m key => rfl

/-- **No node goes backwards** in a run in which no `PUT` overtakes a queued message
for its key. -/
theorem never_backwards (cfg : Config) (s : State)
    (hr : (cluster cfg).Reachable overtakesNothing.allows s) : NeverBackwards s := by
  intro m key
  have h := (inOrder_of_reached (reached_of_reachable hr)).ordered m key
  exact (List.pairwise_append.mp h).1

/-- A failover in which the replica has drained its queue: node 1 takes the first
value with the call for another key, node 0 crashes, and node 1 serves the second. -/
theorem never_backwards_pair :
    ∃ s, (cluster pairConfig).Reachable overtakesNothing.allows s ∧
      s.written 1 (ascii "j") = [0, 2] ∧ NeverBackwards s := by
  have hrun : (((cluster pairConfig).guardedRun overtakesNothing.allows (initial pairConfig)
      [.start 0 (.put (ascii "j") [ascii "1"]) [], .connect 0, .iterate 0,
        .start 0 (.get (ascii "k")) [], .connect 1, .iterate 1, .crash 0,
        .start 0 (.put (ascii "j") [ascii "2"]) [0], .connect 2, .iterate 1]).any
        fun s => s.written 1 (ascii "j") = [0, 2]) = true := by decide +kernel
  obtain ⟨s, hr, hw⟩ := System.Reachable.of_any hrun
  exact ⟨s, hr, of_decide_eq_true hw, never_backwards pairConfig s hr⟩

/-- **A failover write is overwritten.** Node 0 acknowledges the value `1` and
crashes while its message to node 1 is queued. Node 1 serves a later `put` of `2`
and takes the message in the same iteration: it is back at `1`. -/
theorem failover_write_is_overwritten :
    ∃ s, (cluster pairConfig).Reachable System.anyStep s ∧
      (s.node 1).storageKeyValueMap (ascii "j") = some [ascii "1"] ∧ ¬ NeverBackwards s := by
  have hrun : (((cluster pairConfig).guardedRun System.anyStep (initial pairConfig)
      [.start 0 (.put (ascii "j") [ascii "1"]) [], .connect 0, .iterate 0, .crash 0,
        .start 0 (.put (ascii "j") [ascii "2"]) [], .connect 1, .connect 1, .iterate 1]).any
        fun s => (s.node 1).storageKeyValueMap (ascii "j") = some [ascii "1"] ∧
          s.written 1 (ascii "j") = [1, 0] ∧
          s.calls = [⟨0, .put (ascii "j") [ascii "1"], 0, .done (.acked true) 2⟩,
            ⟨0, .put (ascii "j") [ascii "2"], 4, .done (.acked true) 7⟩]) = true := by
    decide +kernel
  obtain ⟨s, hr, hend⟩ := System.Reachable.of_any hrun
  obtain ⟨hmap, hwritten, hcalls⟩ := of_decide_eq_true hend
  refine ⟨s, hr, hmap, fun hnever => ?_⟩
  have h := hnever 1 (ascii "j")
  rw [hwritten, List.pairwise_pair] at h
  exact h ⟨_, _, _, 2, by rw [hcalls]; rfl, by rw [hcalls]; rfl, rfl, by decide⟩

end Cluster
end GTStore
end OSLab
