import AdvancedOSLab.Framework.Linearizability
import AdvancedOSLab.GTStore.Failover

/-!
# The cluster as one map

What the clients of a cluster see is a history of calls. This module shows that it is a history of
the abstract store of `NodeMap.lean`, where a `get` returns the value of the latest `put` of its
key, although the keys are spread over the nodes and every node answers from its own table.

* `failover_linearizable` is about runs with crashes, any number of them as long as one node of
  every ring stays alive. Its condition is the one that a failover needs: a node takes a call only
  when no `REPLICATE` for the key of the call is queued at it (`caughtUp`). The calls may overlap,
  also the `put`s of one key.
* `linearizable_without_crashes` has no such condition: as long as no node crashes, no message for a
  key is ever queued at the node that serves the key.
* `live_replicas_agree` is the same invariant, seen from the tables of the nodes.

A call takes effect when a node serves it, and returns in the same step. So the calls are linearized
in the order in which they return, and the invariant `Explained` relates that order to the nodes:
the latest `put` of a key in the order is in view at every live node of the ring of the key.
-/

namespace OSLab
namespace GTStore
namespace Cluster

open Text Bytes

variable {cfg : Config} {P : Policy} {s s' : State} {order : List ℕ}

/-! ### Histories -/

def Phase.returned : Phase → Option (Result × ℕ)
  | .done result time => some (result, time)
  | _ => none

/-- A call as its client sees it. -/
def Invocation.seen (c : Invocation) : HistoryCall Op Result where
  op := c.op
  invoked := c.startedAt
  returned := c.phase.returned

/-- What the clients have seen. -/
def State.history (s : State) : List (HistoryCall Op Result) := s.calls.map Invocation.seen

theorem getElem?_history {i : ℕ} {c : Invocation} (hc : s.calls[i]? = some c) :
    s.history[i]? = some c.seen := by
  rw [State.history, List.getElem?_map, hc]
  rfl

theorem history_setPhase (i : ℕ) (c : Invocation) (phase : Phase) :
    (s.setPhase i c phase).history = s.history.set i { c.seen with returned := phase.returned } :=
  List.map_set

/-- A change of phase before the return is not seen. -/
theorem history_setPhase_of_same {i : ℕ} {c : Invocation} (hc : s.calls[i]? = some c)
    {phase : Phase} (hsame : phase.returned = c.phase.returned) :
    (s.setPhase i c phase).history = s.history := by
  obtain ⟨hlt, hget⟩ := List.getElem?_eq_some_iff.mp (getElem?_history hc)
  rw [history_setPhase, hsame]
  change s.history.set i c.seen = _
  rw [← hget, List.set_getElem_self]

theorem history_started (client : ℕ) (op : Op) (dead : List ℕ) :
    (s.started cfg client op dead).history = s.history ++ [⟨op, s.clock, none⟩] :=
  List.map_append

/-! ### The condition -/

/-- Calls are plain and fit the buffers, a node takes a call only when no message for its key is
queued there, and a node crashes only if a node of every ring stays alive. -/
def caughtUp (cfg : Config) : Policy where
  start := fun _ op => op.Plain ∧ op.Fits cfg.numNodes
  serve := fun s n c => ∀ r ∈ s.nodeQueue n, r.key ≠ c.op.key
  crash := fun s n => ∀ h < cfg.numNodes,
    ∃ m ∈ ring cfg.numNodes cfg.numReplicas h, (s.stopped n).crashed m = false

instance (s : State) (l : Label) : Decidable ((caughtUp cfg).allows s l) :=
  match l with
  | .start _ op _ => inferInstanceAs (Decidable (op.Plain ∧ op.Fits cfg.numNodes))
  | .iterate n =>
    inferInstanceAs (Decidable (∀ c ∈ s.nextCall n, ∀ r ∈ s.nodeQueue n, r.key ≠ c.op.key))
  | .crash n => inferInstanceAs (Decidable (∀ h < cfg.numNodes,
      ∃ m ∈ ring cfg.numNodes cfg.numReplicas h, (s.stopped n).crashed m = false))
  | .connect _ | .notice _ => inferInstanceAs (Decidable True)

/-- Calls are plain and fit the buffers, and no node crashes. -/
def crashFree (cfg : Config) : Policy where
  start := fun _ op => op.Plain ∧ op.Fits cfg.numNodes
  serve := fun _ _ _ => True
  crash := fun _ _ => False

instance (s : State) (l : Label) : Decidable ((crashFree cfg).allows s l) :=
  match l with
  | .start _ op _ => inferInstanceAs (Decidable (op.Plain ∧ op.Fits cfg.numNodes))
  | .iterate n => inferInstanceAs (Decidable (∀ c ∈ s.nextCall n, True))
  | .crash _ => inferInstanceAs (Decidable False)
  | .connect _ | .notice _ => inferInstanceAs (Decidable True)

/-- A node of every key is alive. -/
theorem exists_alive_of_reached (hr : Reached cfg (caughtUp cfg) s) (key : Bytes) :
    ∃ m ∈ replicasOf cfg key, s.crashed m = false := by
  induction hr with
  | initial => exact ⟨_, mem_replicasOf.mpr ⟨0, cfg.one_le, rfl⟩, rfl⟩
  | micro _ h ih =>
    cases h with
    | crash n hP => exact hP _ (hashNode_lt (numNodes_pos cfg) key)
    | _ => exact ih

/-! ### The invariant -/

/-- The order explains the history, and the nodes are where the order leads to. -/
structure Explained (cfg : Config) (s : State) (order : List ℕ) : Prop where
  linear : Linearization answer s.history order
  returned : ∀ i ∈ order, ∃ c, s.calls[i]? = some c ∧ c.phase.isDone = true
  view : ∀ key, ∀ m ∈ replicasOf cfg key, s.crashed m = false →
    s.view m key = latestPut key (opsAt s.history order)

/-- The latest `put` of a key is one of the calls. -/
theorem mem_of_latestPut {key : Bytes} {ops : List Op} {value : Val}
    (h : latestPut key ops = some value) : Op.put key value ∈ ops := by
  obtain ⟨op, hop, hvalue⟩ := List.exists_of_findSome?_eq_some h
  rw [List.mem_reverse] at hop
  cases op with
  | put k v =>
    obtain ⟨rfl, rfl⟩ : k = key ∧ v = value := by simpa using hvalue
    exact hop
  | get k => exact absurd hvalue (by simp)

theorem latestPut_ne_none {key : Bytes} {ops : List Op} {value : Val}
    (h : Op.put key value ∈ ops) : latestPut key ops ≠ none := by
  intro hnone
  have hop := List.findSome?_eq_none_iff.mp hnone _ (List.mem_reverse.mpr h)
  exact absurd hop (by simp)

theorem plainVal_of_latestPut (hplain : AllPlain s) {key : Bytes} {value : Val}
    (h : latestPut key (opsAt s.history order) = some value) : PlainVal value := by
  obtain ⟨i, -, c, hc, hop⟩ := mem_of_mem_opsAt (mem_of_latestPut h)
  rw [State.history, List.getElem?_map] at hc
  obtain ⟨d, hd, rfl⟩ := Option.map_eq_some_iff.mp hc
  exact (hplain i d hd).value hop

namespace Explained

/-- A change that is not seen by the clients, and changes no view. -/
theorem same (h : Explained cfg s order) (hhistory : s'.history = s.history)
    (hdone : ∀ (j : ℕ) (c : Invocation), s.calls[j]? = some c → c.phase.isDone = true →
      s'.calls[j]? = some c)
    (hview : ∀ m key, s'.view m key = s.view m key)
    (hup : ∀ m, s'.crashed m = false → s.crashed m = false) : Explained cfg s' order where
  linear := hhistory ▸ h.linear
  returned i hi := by
    obtain ⟨c, hc, hret⟩ := h.returned i hi
    exact ⟨c, hdone i c hc hret, hret⟩
  view key m hm halive := by
    rw [hview, hhistory]
    exact h.view key m hm (hup m halive)

section Served

variable {n i left : ℕ} {rest : List ℕ} {c : Invocation} {received ans : Bytes}

/-- A call that waits is not in the order. -/
theorem notMem_of_waiting (h : Explained cfg s order) (hc : s.calls[i]? = some c)
    (hph : c.phase = .waiting n left) : i ∉ order := by
  intro hi
  obtain ⟨d, hd, hdone⟩ := h.returned i hi
  obtain rfl := Option.some.inj (hc.symm.trans hd)
  rw [hph] at hdone
  exact absurd hdone (by simp [Phase.isDone])

/-- A served call is linearized behind all others, if its result is the right one and the nodes of
its key are up to date with it. -/
theorem served (h : Explained cfg s order) (hstamped : Stamped s) (hc : s.calls[i]? = some c)
    (hph : c.phase = .waiting n left)
    (hresult : c.op.result ans = answer (opsAt s.history order) c.op)
    (hview : ∀ key, ∀ m ∈ replicasOf cfg key, s.crashed m = false →
      (s.served cfg.numNodes n i rest c received ans).view m key =
        latestPut key (opsAt s.history order ++ [c.op])) :
    Explained cfg (s.served cfg.numNodes n i rest c received ans) (order ++ [i]) := by
  have hhistory : (s.served cfg.numNodes n i rest c received ans).history =
      s.history.set i { c.seen with returned := some (c.op.result ans, s.clock) } :=
    history_setPhase i c _
  have hget : (s.served cfg.numNodes n i rest c received ans).calls[i]? =
      some { c with phase := .done (c.op.result ans) s.clock } :=
    (getElem?_setPhase hc _ i).trans (if_pos rfl)
  have hnew := h.notMem_of_waiting hc hph
  refine ⟨?_, fun j hj => ?_, fun key m hm halive => ?_⟩
  · rw [hhistory]
    refine h.linear.respond (getElem?_history hc) hnew (fun d hd => ?_) hresult
    -- every call was started before this step
    obtain ⟨e, he, rfl⟩ := List.mem_map.mp hd
    obtain ⟨j, hj⟩ := List.getElem?_of_mem he
    exact (hstamped j e hj).1.le
  · rcases List.mem_append.mp hj with hj | hj
    · obtain ⟨d, hd, hdone⟩ := h.returned j hj
      have hne : j ≠ i := fun hij => hnew (hij ▸ hj)
      exact ⟨d, ((getElem?_setPhase hc _ j).trans (if_neg hne)).trans hd, hdone⟩
    · obtain rfl := List.mem_singleton.mp hj
      exact ⟨_, hget, rfl⟩
  · rw [hview key m hm halive, opsAt_snoc (getElem?_history hget), hhistory,
      opsAt_set (getElem?_history hc)]
    rfl

/-- Serving a `put`. -/
theorem served_put (h : Explained cfg s order) (hstamped : Stamped s) (hok : NodesOK cfg s)
    (hrouted : Routed cfg s) (hn : n < cfg.numNodes) (hc : s.calls[i]? = some c)
    (hph : c.phase = .waiting n left) (hplain : c.op.Plain)
    (hquiet : ∀ r ∈ s.nodeQueue n, r.key ≠ c.op.key) {key : Bytes} {value : Val}
    (hop : c.op = .put key value) :
    Explained cfg (s.served cfg.numNodes n i rest c (putMessage key value) ans) (order ++ [i]) := by
  rw [hop] at hplain hquiet
  refine h.served hstamped hc hph (by rw [hop]; rfl) fun κ m hm halive => ?_
  rw [hop, latestPut_snoc_put]
  by_cases hκ : key = κ
  · subst hκ
    rw [if_pos rfl]
    exact view_served_put hok hrouted hn hc hph hop hplain.1.noSpace hplain.2.noSpace hquiet hm
      halive
  · rw [if_neg hκ, view_served_of_ne hok hn (storedBy_putMessage hplain.1.noSpace value) hκ]
    exact h.view κ m hm halive

/-- Serving a `get`. The slot that is read has no message in front of it, so it holds what is in
view. -/
theorem served_get (h : Explained cfg s order) (hstamped : Stamped s) (hok : NodesOK cfg s)
    (hrouted : Routed cfg s) (hn : n < cfg.numNodes) (hup : s.crashed n = false)
    (hc : s.calls[i]? = some c) (hph : c.phase = .waiting n left) (hplain : AllPlain s)
    (hquiet : ∀ r ∈ s.nodeQueue n, r.key ≠ c.op.key) {key : Bytes} (hop : c.op = .get key)
    {reply : Bytes} (hreply : (handleClientMessage (s.node n) (getMessage key)).reply = some reply)
    {size : ℕ} (hanswer : recvString size reply = some ans) :
    Explained cfg (s.served cfg.numNodes n i rest c (getMessage key) ans) (order ++ [i]) := by
  have hkey : PlainKey key := by
    have := hplain i c hc
    rwa [hop] at this
  have hmem : n ∈ replicasOf cfg key := by
    obtain ⟨j, hj, hnode, -⟩ := hrouted.waiting hc hph
    rw [hop] at hnode
    exact mem_replicasOf.mpr ⟨j, hj, hnode.symm⟩
  -- no message for the key is queued at this node, so its table is up to date
  have hslot : (s.node n).storageKeyValueMap key = latestPut key (opsAt s.history order) := by
    rw [hop] at hquiet
    rw [← h.view key n hmem hup, State.view]
    exact (drained_of_ne hquiet _).symm
  refine h.served hstamped hc hph ?_ fun κ m hm halive => ?_
  · rw [hop]
    change _ = Result.value ((latestPut key (opsAt s.history order)).getD errorValue)
    -- a key that was never put is answered by the error value
    cases hlatest : latestPut key (opsAt s.history order) with
    | none => exact result_of_missing hkey (hslot.trans hlatest) hreply hanswer
    | some value =>
      have hid : 0 ∉ (s.node n).nodeId := by
        rw [(hok n hn).1]
        exact notMem_decimal (by decide) n
      exact result_of_get hkey (plainVal_of_latestPut hplain hlatest) hid (hslot.trans hlatest)
        hreply hanswer
  · rw [hop, latestPut_snoc_get, view_served_none (storedBy_getMessage hkey.noPut)]
    exact h.view κ m hm halive

end Served

end Explained

/-- Along every run that is caught up, some order explains what the clients have seen. -/
theorem exists_explained_of_reached (hr : Reached cfg (caughtUp cfg) s) :
    ∃ order, Explained cfg s order := by
  induction hr with
  | initial =>
    exact ⟨[], Linearization.nil, by simp, fun key m _ _ => initial_map m key⟩
  | @micro s s' hr h ih =>
    obtain ⟨order, ih⟩ := ih
    have hplain : AllPlain s := allPlain_of_start (P := caughtUp cfg) (fun _ _ hP => hP.1) hr
    have hmicro := h
    cases h with
    | start client op dead hdead hP =>
      refine ⟨order, ?_, fun i hi => ?_, fun key m hm halive => ?_⟩
      · rw [history_started]
        exact ih.linear.invoke op s.clock
      · obtain ⟨c, hc, hdone⟩ := ih.returned i hi
        exact ⟨c, hmicro.call_done hc hdone, hdone⟩
      · have hsame : opsAt (s.started cfg client op dead).history order = opsAt s.history order :=
          opsAt_congr fun i hi => by
            rw [history_started]
            exact List.getElem?_append_left (ih.linear.called i hi)
        exact (ih.view key m hm halive).trans (congrArg (latestPut key) hsame).symm
    | exhausted i c n hc hph =>
      -- the call would have found all nodes of its key crashed
      obtain ⟨m, hm, halive⟩ := exists_alive_of_reached hr c.op.key
      rw [(routed_of_reached hr).exhausted hc hph m hm] at halive
      exact absurd halive (by decide)
    | movedOn i c n left hc hph =>
      refine ⟨order, ih.same (history_setPhase_of_same hc ?_) (fun j c => hmicro.call_done)
        (fun _ _ => rfl) fun _ hup => hup⟩
      rcases hph with hph | hph <;> rw [hph] <;> rfl
    | connected i c n left hc hph =>
      refine ⟨order, ih.same (history_setPhase_of_same hc ?_) (fun j c => hmicro.call_done)
        (fun _ _ => rfl) fun _ hup => hup⟩
      rw [hph]
      rfl
    | served n i rest c left received reply answer hn hup hq hc hph hrecv hreply hanswer hP =>
      have hstamped := stamped_of_reached hr
      have hok := nodesOK_of_reached hr
      have hrouted := routed_of_reached hr
      obtain rfl := received_eq_request_of_plain (hplain i c hc) hrecv
      cases hop : c.op with
      | put key value =>
        exact ⟨_, ih.served_put hstamped hok hrouted hn hc hph (hplain i c hc) hP hop⟩
      | get key =>
        rw [hop] at hreply
        exact ⟨_, ih.served_get hstamped hok hrouted hn hup hc hph hplain hP hop hreply hanswer⟩
    | replicated n r rest received hq hrecv =>
      exact ⟨order, ih.same rfl (fun _ _ hc _ => hc)
        (view_replicated (messagesOK_of_reached hr) hq hrecv) fun _ hup => hup⟩
    | crash n hP =>
      refine ⟨order, ih.same rfl (fun _ _ hc _ => hc) (fun _ _ => rfl) fun m hup => ?_⟩
      by_contra hdown
      rw [crashed_stopped (by simpa using hdown)] at hup
      exact absurd hup (by decide)

/-- **Linearizability with crashes.** In every run that is caught up, what the clients have seen is
a history of one map. -/
theorem failover_linearizable (cfg : Config) (s : State)
    (hr : (cluster cfg).Reachable (caughtUp cfg).allows s) : Linearizable answer s.history := by
  obtain ⟨order, h⟩ := exists_explained_of_reached (reached_of_reachable hr)
  exact ⟨order, h.linear⟩

/-- Two `put`s of one key overlap, node 1 takes both values with a call for another key, node 0
crashes, and node 1 answers with the value that was served last. -/
theorem failover_linearizable_pair :
    ∃ s, (cluster pairConfig).Reachable (caughtUp pairConfig).allows s ∧ s.crashed 0 = true ∧
      s.calls[4]?.map Invocation.phase = some (.done (.value [ascii "1"]) 15) ∧
      Linearizable answer s.history := by
  have hrun : (((cluster pairConfig).guardedRun (caughtUp pairConfig).allows (initial pairConfig)
      [.start 0 (.put (ascii "j") [ascii "1"]) [], .start 1 (.put (ascii "j") [ascii "2"]) [],
        .connect 1, .connect 0, .iterate 0, .iterate 0,
        .start 1 (.get (ascii "k")) [], .connect 2, .iterate 1,
        .start 1 (.get (ascii "k")) [], .connect 3, .iterate 1, .crash 0,
        .start 0 (.get (ascii "j")) [0], .connect 4, .iterate 1]).any
        fun s => s.crashed 0 = true ∧
          s.calls[4]?.map Invocation.phase = some (.done (.value [ascii "1"]) 15)) = true := by
    decide +kernel
  obtain ⟨s, hr, hend⟩ := System.Reachable.of_any hrun
  obtain ⟨hcrashed, hcall⟩ := of_decide_eq_true hend
  exact ⟨s, hr, hcrashed, hcall, failover_linearizable pairConfig s hr⟩

/-! ### What the nodes hold -/

/-- What a live node of the ring holds when no message for the key is queued at it. -/
theorem Explained.slot (h : Explained cfg s order) {key : Bytes} {m : ℕ}
    (hm : m ∈ replicasOf cfg key) (halive : s.crashed m = false)
    (hquiet : ∀ r ∈ s.nodeQueue m, r.key ≠ key) :
    (s.node m).storageKeyValueMap key = latestPut key (opsAt s.history order) := by
  rw [← h.view key m hm halive, State.view, drained_of_ne hquiet]

/-- **Replicas agree.** In every run that is caught up, two live nodes of the ring of a key at which
no message for the key is queued hold the same value, and it is the value of a `put` that has
returned. They hold none only if no `put` of the key has returned. -/
theorem live_replicas_agree (cfg : Config) (s : State)
    (hr : (cluster cfg).Reachable (caughtUp cfg).allows s) (key : Bytes) (m : ℕ)
    (hm : m ∈ replicasOf cfg key) (halive : s.crashed m = false)
    (hquiet : ∀ r ∈ s.nodeQueue m, r.key ≠ key) :
    (∀ m' ∈ replicasOf cfg key, s.crashed m' = false → (∀ r ∈ s.nodeQueue m', r.key ≠ key) →
        (s.node m').storageKeyValueMap key = (s.node m).storageKeyValueMap key) ∧
      (∀ value, (s.node m).storageKeyValueMap key = some value →
        ∃ c ∈ s.calls, c.op = .put key value ∧ c.phase.isDone = true) ∧
      ((s.node m).storageKeyValueMap key = none →
        ∀ c ∈ s.calls, c.op.isPutOf key = true → c.phase.isDone = false) := by
  obtain ⟨order, h⟩ := exists_explained_of_reached (reached_of_reachable hr)
  have hslot := h.slot hm halive hquiet
  refine ⟨fun m' hm' halive' hquiet' => ?_, fun value hvalue => ?_, fun hnone c hc hput => ?_⟩
  · rw [h.slot hm' halive' hquiet', hslot]
  · obtain ⟨i, hi, d, hd, hop⟩ := mem_of_mem_opsAt (mem_of_latestPut (hslot.symm.trans hvalue))
    obtain ⟨c, hc, hdone⟩ := h.returned i hi
    obtain rfl := Option.some.inj ((getElem?_history hc).symm.trans hd)
    exact ⟨c, List.mem_of_getElem? hc, hop, hdone⟩
  · -- a `put` that has returned stands in the order, so some `put` is the latest
    by_contra hdone
    obtain ⟨i, hi⟩ := List.getElem?_of_mem hc
    obtain ⟨value, hop⟩ := isPutOf_iff.mp hput
    have hmem : Op.put key value ∈ opsAt s.history order := by
      refine List.mem_filterMap.mpr ⟨i, h.linear.complete i c.seen (getElem?_history hi) ?_, ?_⟩
      · cases hph : c.phase with
        | done r t => simp [Invocation.seen, Phase.returned, hph]
        | trying n left => exact absurd (by simp [hph, Phase.isDone]) hdone
        | waiting n left => exact absurd (by simp [hph, Phase.isDone]) hdone
      · rw [getElem?_history hi, ← hop]
        rfl
    exact absurd (latestPut_ne_none hmem) (not_not.mpr (hslot.symm.trans hnone))

/-- Three nodes, each with a copy of everything. -/
def tripleConfig : Config := ⟨3, 3, by decide, by decide, by decide⟩

/-- Nodes 1 and 2 have taken the value, each with a call for another key, and node 0 has crashed. -/
theorem live_replicas_agree_triple :
    ∃ s, (cluster tripleConfig).Reachable (caughtUp tripleConfig).allows s ∧ s.crashed 0 = true ∧
      (s.node 1).storageKeyValueMap (ascii "i") = some [ascii "1"] ∧
      (s.node 2).storageKeyValueMap (ascii "i") = (s.node 1).storageKeyValueMap (ascii "i") := by
  have hrun : (((cluster tripleConfig).guardedRun (caughtUp tripleConfig).allows
      (initial tripleConfig)
      [.start 0 (.put (ascii "i") [ascii "1"]) [], .connect 0, .iterate 0,
        .start 0 (.get (ascii "j")) [], .connect 1, .iterate 1,
        .start 0 (.get (ascii "k")) [], .connect 2, .iterate 2, .crash 0]).any
        fun s => s.crashed 0 = true ∧ s.crashed 1 = false ∧ s.crashed 2 = false ∧
          (s.nodeQueue 1).length = 0 ∧ (s.nodeQueue 2).length = 0 ∧
          (s.node 1).storageKeyValueMap (ascii "i") = some [ascii "1"]) = true := by
    decide +kernel
  obtain ⟨s, hr, hend⟩ := System.Reachable.of_any hrun
  obtain ⟨hcrashed, halive₁, halive₂, hqueue₁, hqueue₂, hslot⟩ := of_decide_eq_true hend
  rw [List.length_eq_zero_iff] at hqueue₁ hqueue₂
  have hagree := (live_replicas_agree tripleConfig s hr (ascii "i") 1 (by decide +kernel) halive₁
    (by simp [hqueue₁])).1 2 (by decide +kernel) halive₂ (by simp [hqueue₂])
  exact ⟨s, hr, hcrashed, hslot, hagree⟩

/-! ### Without crashes -/

/-- No node has crashed, and every message is queued behind the hash node of its key. -/
structure Outward (cfg : Config) (s : State) : Prop where
  alive : ∀ m, s.crashed m = false
  behind : ∀ m, ∀ r ∈ s.nodeQueue m, m ∈ behind cfg (hashNode cfg.numNodes r.key)

/-- A call that waits is at the hash node of its key. -/
theorem Outward.waiting (h : Outward cfg s) (hrouted : Routed cfg s) {i n left : ℕ}
    {c : Invocation} (hc : s.calls[i]? = some c) (hph : c.phase = .waiting n left) :
    n = hashNode cfg.numNodes c.op.key := by
  obtain ⟨j, -, rfl, hbefore⟩ := hrouted.waiting hc hph
  cases j with
  | zero => exact ringNode_zero _
  | succ j =>
    have hcrash := hbefore 0 (Nat.succ_pos j)
    rw [h.alive] at hcrash
    exact absurd hcrash (by decide)

/-- No message for a key is queued at its hash node. -/
theorem Outward.quiet (h : Outward cfg s) {key : Bytes} :
    ∀ r ∈ s.nodeQueue (hashNode cfg.numNodes key), r.key ≠ key := by
  rintro r hr rfl
  exact notMem_behind _ (hashNode_lt (numNodes_pos cfg) r.key) (h.behind _ r hr)

theorem outward_of_reached (hr : Reached cfg (crashFree cfg) s) : Outward cfg s := by
  induction hr with
  | initial => exact ⟨fun _ => rfl, fun m r hr => absurd hr List.not_mem_nil⟩
  | @micro s _ hr h ih =>
    cases h with
    | served n i rest c left received reply answer hn hup hq hc hph hrecv =>
      refine ⟨ih.alive, fun m r hmem => ?_⟩
      have hplain : c.op.Plain :=
        allPlain_of_start (P := crashFree cfg) (fun _ _ hP => hP.1) hr i c hc
      obtain rfl := received_eq_request_of_plain hplain hrecv
      cases hop : c.op with
      | get key =>
        rw [hop] at hmem hplain
        have hst : storedBy (Op.get key).request = none := storedBy_getMessage hplain.key.noPut
        rw [nodeQueue_served_none hst] at hmem
        exact ih.behind m r hmem
      | put key value =>
        rw [hop] at hmem hplain
        have hst := storedBy_putMessage hplain.1.noSpace value
        obtain hold | ⟨hm, rfl⟩ := mem_nodeQueue_of_served (nodesOK_of_reached hr) hn hst hmem
        · exact ih.behind m r hold
        · -- the new message is for the key of the call, and sent by the hash node of the key
          rw [key_sent i hst]
          obtain rfl := ih.waiting (routed_of_reached hr) hc hph
          rwa [hop] at hm
    | replicated n r rest received hq hrecv =>
      exact ⟨ih.alive, fun m r' hmem => ih.behind m r' (mem_nodeQueue_of_replicated hq hmem)⟩
    | crash n hP => exact hP.elim
    | _ => exact ⟨ih.alive, ih.behind⟩

/-- A run without crashes is caught up. -/
theorem caughtUp_of_crashFree (hr : Reached cfg (crashFree cfg) s) :
    Reached cfg (caughtUp cfg) s := by
  induction hr with
  | initial => exact .initial
  | micro hr h ih =>
    refine .micro ih ?_
    cases h with
    | start client op dead hdead hP => exact .start client op dead hdead hP
    | exhausted i c n hc hph => exact .exhausted i c n hc hph
    | movedOn i c n left hc hph hdown => exact .movedOn i c n left hc hph hdown
    | connected i c n left hc hph hup => exact .connected i c n left hc hph hup
    | served n i rest c left received reply answer hn hup hq hc hph hrecv hreply hanswer hP =>
      refine .served n i rest c left received reply answer hn hup hq hc hph hrecv hreply hanswer ?_
      -- without crashes the hash node serves all calls of a key, and gets no message for it
      have hout := outward_of_reached hr
      obtain rfl := hout.waiting (routed_of_reached hr) hc hph
      exact hout.quiet
    | replicated n r rest received hq hrecv => exact .replicated n r rest received hq hrecv
    | crash n hP => exact hP.elim

/-- **Linearizability without crashes.** As long as no node crashes, what the clients have seen is a
history of one map, whatever the order in which the nodes take calls and messages. -/
theorem linearizable_without_crashes (cfg : Config) (s : State)
    (hr : (cluster cfg).Reachable (crashFree cfg).allows s) : Linearizable answer s.history := by
  obtain ⟨order, h⟩ :=
    exists_explained_of_reached (caughtUp_of_crashFree (reached_of_reachable hr))
  exact ⟨order, h.linear⟩

/-- Two nodes without a message taken between them: a `get` that overlaps with a `put` of its key
returns the old value. -/
theorem linearizable_without_crashes_pair :
    ∃ s, (cluster pairConfig).Reachable (crashFree pairConfig).allows s ∧
      (s.nodeQueue 1).length = 2 ∧
      s.calls[2]?.map Invocation.phase = some (.done (.value [ascii "1"]) 7) ∧
      Linearizable answer s.history := by
  have hrun : (((cluster pairConfig).guardedRun (crashFree pairConfig).allows (initial pairConfig)
      [.start 0 (.put (ascii "j") [ascii "1"]) [], .connect 0, .iterate 0,
        .start 0 (.put (ascii "j") [ascii "2"]) [], .start 1 (.get (ascii "j")) [],
        .connect 2, .connect 1, .iterate 0, .iterate 0]).any
        fun s => (s.nodeQueue 1).length = 2 ∧
          s.calls[2]?.map Invocation.phase = some (.done (.value [ascii "1"]) 7)) = true := by
    decide +kernel
  obtain ⟨s, hr, hend⟩ := System.Reachable.of_any hrun
  obtain ⟨hqueue, hcall⟩ := of_decide_eq_true hend
  exact ⟨s, hr, hqueue, hcall, linearizable_without_crashes pairConfig s hr⟩

end Cluster
end GTStore
end OSLab
