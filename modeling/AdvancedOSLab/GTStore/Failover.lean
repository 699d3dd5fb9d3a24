import AdvancedOSLab.GTStore.NodeMap
import AdvancedOSLab.GTStore.Routing

/-!
# Reads across a failover

A `put` is acknowledged by the node that serves it, before its replicas have taken
the `REPLICATE` message. If that node crashes then, the next node of the ring
serves a `get` from a table that the message has not reached:
`failover_read_is_stale` is a run of two nodes in which a `get` that starts after
the acknowledgement, with one of the two nodes alive, returns `{"ERROR"}`.

`settled` is the condition under which reads are right: calls are plain and their texts fit the
buffers, the `put`s of one key do not overlap, and a node takes a client's call only when no message
for its key is queued there. `latest_acked` is the result for such runs. Its core is the invariant
`Fresh`: the value of the latest `put` of a key, once acknowledged, is in view at every live node of
the ring of the key. The nodes in front of the one that served it have crashed, the nodes behind it
have been sent the message, and nothing older can come after it.
-/

namespace OSLab
namespace GTStore
namespace Cluster

open Text Bytes

variable {cfg : Config} {P : Policy} {s s' : State}

/-! ### The property -/

/-- **The latest acknowledged value is read.** Let `p` be a `put` of a key that
returned `true`, and `g` a `get` of the key that was started after that and has
returned. If no other `put` of the key was started in between, and fewer than
`numReplicas` of the nodes of the key have crashed, then `g` returned the value of
`p`. -/
def LatestAcked (cfg : Config) (s : State) : Prop :=
  ∀ (p g : ℕ) (cp cg : Invocation) (key : Bytes) (value : Val) (tp : ℕ) (r : Result) (tg : ℕ),
    s.calls[p]? = some cp → cp.op = .put key value → cp.phase = .done (.acked true) tp →
    s.calls[g]? = some cg → cg.op = .get key → cg.phase = .done r tg → tp < cg.startedAt →
    (∀ (q : ℕ) (cq : Invocation), s.calls[q]? = some cq → cq.op.isPutOf key →
      tp < cq.startedAt → tg < cq.startedAt) →
    (replicasOf cfg key).countP s.crashed < cfg.numReplicas →
    r = .value value

/-- Calls are plain and fit the buffers, a `put` starts only when no other `put` of its
key is under way, and a node takes a call only when no message for its key is queued
there. -/
def settled (cfg : Config) : Policy where
  start := fun s op => op.Plain ∧ op.Fits cfg.numNodes ∧
    (op.isPutOf op.key → ∀ c ∈ s.calls, c.op.isPutOf op.key → c.phase.isDone)
  serve := fun s n c => ∀ r ∈ s.nodeQueue n, r.key ≠ c.op.key
  crash := fun _ _ => True

instance (s : State) (l : Label) : Decidable ((settled cfg).allows s l) :=
  match l with
  | .start _ op _ =>
    inferInstanceAs (Decidable (op.Plain ∧ op.Fits cfg.numNodes ∧
      (op.isPutOf op.key → ∀ c ∈ s.calls, c.op.isPutOf op.key → c.phase.isDone)))
  | .iterate n =>
    inferInstanceAs (Decidable (∀ c ∈ s.nextCall n, ∀ r ∈ s.nodeQueue n, r.key ≠ c.op.key))
  | .connect _ | .notice _ | .crash _ => inferInstanceAs (Decidable True)

/-- With fewer crashes than replicas, some node of the key is alive. -/
theorem exists_alive {key : Bytes} {crashed : ℕ → Bool}
    (h : (replicasOf cfg key).countP crashed < cfg.numReplicas) :
    ∃ m ∈ replicasOf cfg key, crashed m = false := by
  by_contra hnone
  have hall : ∀ m ∈ replicasOf cfg key, crashed m = true := by
    intro m hm
    by_contra hup
    exact hnone ⟨m, hm, by simpa using hup⟩
  rw [List.countP_eq_length.mpr hall] at h
  unfold replicasOf at h
  rw [ring_length] at h
  omega

/-! ### Plain calls that follow each other -/

def AllPlain (s : State) : Prop :=
  ∀ (j : ℕ) (c : Invocation), s.calls[j]? = some c → c.op.Plain

/-- If only plain calls may start, all calls are plain. -/
theorem allPlain_of_start (hP : ∀ s op, P.start s op → op.Plain) (hr : Reached cfg P s) :
    AllPlain s := by
  induction hr with
  | initial => exact fun j c hc => absurd hc (by simp [initial])
  | @micro s s' _ h ih =>
    intro j d hd
    rcases h.call_before hd with ⟨c, hc, hop, -⟩ | ⟨-, -, -, hstart⟩
    · exact hop ▸ ih j c hc
    · exact hP s d.op hstart

theorem isPutOf_iff {key : Bytes} {op : Op} :
    op.isPutOf key = true ↔ ∃ value, op = .put key value := by
  cases op with
  | put k value => simp [Op.isPutOf]
  | get k => simp [Op.isPutOf]

/-- Of two `put`s of a key, the first had returned when the second was started. -/
def Serial (s : State) : Prop :=
  ∀ (p q : ℕ) (cp cq : Invocation) (key : Bytes), p < q → s.calls[p]? = some cp →
    s.calls[q]? = some cq → cp.op.isPutOf key → cq.op.isPutOf key →
    ∃ r t, cp.phase = .done r t ∧ t < cq.startedAt

theorem serial_of_reached (hr : Reached cfg (settled cfg) s) : Serial s := by
  induction hr with
  | initial => exact fun p q cp cq key _ hp => absurd hp (by simp [initial])
  | @micro s s' hr h ih =>
    intro p q cp cq key hpq hp hq hcp hcq
    -- the earlier of the two is not the new call, since the later one is behind it
    have hp₀ : ∃ c, s.calls[p]? = some c ∧ c.op = cp.op ∧ c.startedAt = cp.startedAt := by
      rcases h.call_before hp with hold | ⟨hlast, -⟩
      · exact hold
      · rcases h.call_before hq with ⟨c, hc, -⟩ | ⟨hlast', -⟩
        · have := (List.getElem?_eq_some_iff.mp hc).1
          omega
        · omega
    obtain ⟨c, hc, hop, -⟩ := hp₀
    rcases h.call_before hq with ⟨d, hd, hopd, hstart⟩ | ⟨-, hstart, -, hP⟩
    · obtain ⟨r, t, hph, hlt⟩ :=
        ih p q c d key hpq hc hd (by rw [hop]; exact hcp) (by rw [hopd]; exact hcq)
      have hsame := h.call_done hc (by rw [hph]; rfl)
      rw [hp] at hsame
      obtain rfl := Option.some.inj hsame
      exact ⟨r, t, hph, by omega⟩
    · -- the later one starts now, so the earlier one has returned
      obtain ⟨value, hput⟩ := isPutOf_iff.mp hcq
      have hkey : cq.op.key = key := by rw [hput]; rfl
      have hdone := hP.2.2 (by rw [hkey]; exact hcq) c (List.mem_of_getElem? hc)
        (by rw [hkey, hop]; exact hcp)
      have hsame := h.call_done hc hdone
      rw [hp] at hsame
      obtain rfl := Option.some.inj hsame
      cases hph : cp.phase with
      | done r t =>
        refine ⟨r, t, rfl, ?_⟩
        rw [hstart]
        exact (stamped_of_reached hr p cp hc).2 r t hph
      | trying n left =>
        rw [hph] at hdone
        exact absurd hdone (by simp [Phase.isDone])
      | waiting n left =>
        rw [hph] at hdone
        exact absurd hdone (by simp [Phase.isDone])

/-! ### The latest value is in view -/

/-- The value of the latest `put` of a key, once acknowledged, is in view at every
live node of the key. -/
def Fresh (cfg : Config) (s : State) : Prop :=
  ∀ (p : ℕ) (cp : Invocation) (key : Bytes) (value : Val) (t : ℕ),
    s.calls[p]? = some cp → cp.op = .put key value → cp.phase = .done (.acked true) t →
    (∀ (q : ℕ) (cq : Invocation), s.calls[q]? = some cq → cq.op.isPutOf key → q ≤ p) →
    ∀ m ∈ replicasOf cfg key, s.crashed m = false → s.view m key = some value

/-- Being the latest `put` of a key is inherited from a later state. -/
theorem Micro.latest (h : Micro cfg P s s') {p : ℕ} {key : Bytes}
    (hlatest : ∀ (q : ℕ) (cq : Invocation), s'.calls[q]? = some cq → cq.op.isPutOf key → q ≤ p)
    (q : ℕ) (cq : Invocation) (hq : s.calls[q]? = some cq) (hput : cq.op.isPutOf key) :
    q ≤ p := by
  obtain ⟨d, hd, hop, -⟩ := h.call_after hq
  exact hlatest q d hd (by rw [hop]; exact hput)

/-- A change that acknowledges no `put` and changes no view keeps the invariant. -/
theorem Fresh.same (ih : Fresh cfg s) (h : Micro cfg P s s')
    (hview : ∀ m key, s'.view m key = s.view m key)
    (hup : ∀ m, s'.crashed m = false → s.crashed m = false)
    (hacked : ∀ (p : ℕ) (cp : Invocation) (t : ℕ), s'.calls[p]? = some cp →
      cp.phase = .done (.acked true) t → s.calls[p]? = some cp) : Fresh cfg s' := by
  intro p cp key value t hp hop hph hlatest m hm halive
  rw [hview]
  exact ih p cp key value t (hacked p cp t hp hph) hop hph (h.latest hlatest) m hm (hup m halive)

/-- After a change of phase, a call in another phase is an old one. -/
theorem getElem?_of_setPhase_ne {i p : ℕ} {c cp : Invocation} (hc : s.calls[i]? = some c)
    {phase phase' : Phase} (hne : phase ≠ phase')
    (hp : (s.setPhase i c phase).calls[p]? = some cp) (hph : cp.phase = phase') :
    s.calls[p]? = some cp := by
  rcases getElem?_setPhase_cases hc hp with ⟨-, hp⟩ | ⟨-, rfl⟩
  · exact hp
  · exact absurd hph hne

/-- The node sees a plain request as it was sent. -/
theorem received_eq_request_of_plain {op : Op} (h : op.Plain) {received : Bytes}
    (hrecv : recvString nodeClientSocketBufferSize op.request = some received) :
    received = op.request := by
  rw [← (recvString_eq_some_iff.mp hrecv).2, cstr_eq_self h.zero_notMem_request]

/-- Serving a `put` brings its value into view at every live node of its key: the
nodes in front have crashed, the serving node stores it, the nodes behind are sent
it. -/
theorem view_served_put (hok : NodesOK cfg s) (hrouted : Routed cfg s) {n i left : ℕ}
    {rest : List ℕ} {c : Invocation} {answer key : Bytes} {value : Val}
    (hn : n < cfg.numNodes) (hc : s.calls[i]? = some c) (hph : c.phase = .waiting n left)
    (hop : c.op = .put key value) (hkey : space ∉ key) (hvalue : ∀ v ∈ value, space ∉ v)
    (hquiet : ∀ r ∈ s.nodeQueue n, r.key ≠ key) {m : ℕ} (hm : m ∈ replicasOf cfg key)
    (halive : s.crashed m = false) :
    (s.served cfg.numNodes n i rest c (putMessage key value) answer).view m key
      = some value := by
  have hst := storedBy_putMessage hkey value
  have hsplit : split space (printValue value) = value := split_printValue hvalue
  have hwaiting := hrouted.waiting hc hph
  rw [show c.op.key = key by rw [hop]; rfl] at hwaiting
  obtain ⟨j, hj, rfl, hbefore⟩ := hwaiting
  obtain ⟨jm, hjm, rfl⟩ := mem_replicasOf.mp hm
  -- the node lies in front of the one that serves, is that one, or lies behind it
  rcases Nat.lt_trichotomy jm j with hlt | rfl | hgt
  · rw [hbefore jm hlt] at halive
    exact absurd halive (by decide)
  · exact (view_served_self hok hn hst hquiet).trans (congrArg some hsplit)
  · exact (view_served_behind hok hn hst (ringNode_mem_behind hgt hjm) halive).trans
      (congrArg some hsplit)

/-- Serving a `put` keeps the invariant. -/
theorem Fresh.served_put (ih : Fresh cfg s) (hok : NodesOK cfg s) (hrouted : Routed cfg s)
    (hserial : Serial s) {n i left : ℕ} {rest : List ℕ} {c : Invocation} {answer key : Bytes}
    {value : Val} (h : Micro cfg P s
      (s.served cfg.numNodes n i rest c (putMessage key value) answer))
    (hn : n < cfg.numNodes) (hc : s.calls[i]? = some c) (hph : c.phase = .waiting n left)
    (hop : c.op = .put key value) (hplain : c.op.Plain)
    (hquiet : ∀ r ∈ s.nodeQueue n, r.key ≠ key) :
    Fresh cfg (s.served cfg.numNodes n i rest c (putMessage key value) answer) := by
  have hkey : space ∉ key := by
    have := hplain.key.noSpace
    rwa [hop] at this
  intro p cp κ v t hp hopp hphp hlatest m hm halive
  rcases getElem?_setPhase_cases hc hp with ⟨hpi, hp⟩ | ⟨rfl, rfl⟩
  · have hlatest₀ := h.latest hlatest
    have hκ : key ≠ κ := by
      -- a later `put` of the key would have had to wait for this one
      rintro rfl
      have hput : c.op.isPutOf key = true := isPutOf_iff.mpr ⟨value, hop⟩
      have hle := hlatest₀ i c hc hput
      obtain ⟨r, t', hdone, -⟩ := hserial i p c cp key (by omega) hc hp hput
        (isPutOf_iff.mpr ⟨v, hopp⟩)
      rw [hph] at hdone
      exact absurd hdone (by simp)
    rw [view_served_of_ne hok hn (storedBy_putMessage hkey value) hκ]
    exact ih p cp κ v t hp hopp hphp hlatest₀ m hm halive
  · -- the latest `put` is the one that is served
    obtain ⟨rfl, rfl⟩ := Op.put.inj (hop.symm.trans hopp)
    exact view_served_put hok hrouted hn hc hph hop hkey (hplain.value hop).noSpace hquiet hm
      halive

theorem fresh_of_reached (hr : Reached cfg (settled cfg) s) : Fresh cfg s := by
  induction hr with
  | initial => exact fun p cp key value t hp => absurd hp (by simp [initial])
  | @micro s s' hr h ih =>
    have hmicro := h
    cases h with
    | start client op dead hdead hP =>
      refine ih.same hmicro (fun _ _ => rfl) (fun _ hup => hup) fun p cp t hp hph => ?_
      rcases getElem?_started hp with hp | ⟨-, -, -, hphase⟩
      · exact hp
      · rw [hph] at hphase
        exact absurd hphase (by simp)
    | exhausted i c n hc =>
      refine ih.same hmicro (fun _ _ => rfl) (fun _ hup => hup) fun p cp t hp hph =>
        getElem?_of_setPhase_ne hc ?_ hp hph
      -- a call without attempts left does not return `true`
      cases c.op <;> simp [Op.failure]
    | movedOn i c n left hc =>
      exact ih.same hmicro (fun _ _ => rfl) (fun _ hup => hup) fun p cp t hp hph =>
        getElem?_of_setPhase_ne hc (by simp) hp hph
    | connected i c n left hc =>
      exact ih.same hmicro (fun _ _ => rfl) (fun _ hup => hup) fun p cp t hp hph =>
        getElem?_of_setPhase_ne hc (by simp) hp hph
    | served n i rest c left received reply answer hn hup hq hc hph hrecv hreply hanswer hP =>
      have hplain := allPlain_of_start (P := settled cfg) (fun _ _ hP => hP.1) hr i c hc
      have hok := nodesOK_of_reached hr
      obtain rfl := received_eq_request_of_plain hplain hrecv
      cases hop : c.op with
      | put key value =>
        rw [hop] at hmicro
        refine ih.served_put hok (routed_of_reached hr) (serial_of_reached hr) hmicro hn hc hph
          hop hplain fun r hr' => ?_
        have := hP r hr'
        rwa [hop] at this
      | get key =>
        have hst : storedBy (Op.get key).request = none := by
          have := hplain.key.noPut
          rw [hop] at this
          exact storedBy_getMessage this
        rw [hop] at hmicro
        exact ih.same hmicro (fun m κ => view_served_none hst m κ) (fun _ hup => hup)
          fun p cp t hp hph =>
            getElem?_of_setPhase_ne hc (by rw [hop]; simp [Op.result]) hp hph
    | replicated n r rest received hq hrecv =>
      exact ih.same hmicro (view_replicated (messagesOK_of_reached hr) hq hrecv)
        (fun _ hup => hup) fun p cp t hp _ => hp
    | crash n hP =>
      refine ih.same hmicro (fun _ _ => rfl) (fun m hup => ?_) fun p cp t hp _ => hp
      by_contra hdown
      rw [crashed_stopped (by simpa using hdown)] at hup
      exact absurd hup (by decide)

/-! ### Reads -/

/-- A change after which no further call has returned keeps the property. -/
theorem LatestAcked.same (ih : LatestAcked cfg s) (h : Micro cfg P s s')
    (hcrashed : ∀ m, s.crashed m = true → s'.crashed m = true)
    (hdone : ∀ (j : ℕ) (c : Invocation) (r : Result) (t : ℕ), s'.calls[j]? = some c →
      c.phase = .done r t → s.calls[j]? = some c) : LatestAcked cfg s' := by
  intro p g cp cg key value tp r tg hp hop hphp hg hog hphg hlt hlater hcount
  refine ih p g cp cg key value tp r tg (hdone p cp _ _ hp hphp) hop hphp
    (hdone g cg _ _ hg hphg) hog hphg hlt (fun q cq hq hput hstart => ?_) ?_
  · obtain ⟨d, hd, hopd, hstartd⟩ := h.call_after hq
    have := hlater q d hd (by rw [hopd]; exact hput) (by omega)
    omega
  · exact Nat.lt_of_le_of_lt (List.countP_mono_left fun m _ hm => hcrashed m hm) hcount

/-- A change by which call `i` returns keeps the property, if a `get` returns the
value of the latest `put`. -/
theorem LatestAcked.finish (ih : LatestAcked cfg s) (hstamped : Stamped s) (hserial : Serial s)
    (h : Micro cfg P s s') {i : ℕ} {c : Invocation} {result : Result}
    (hc : s.calls[i]? = some c)
    (hcalls : s'.calls = (s.setPhase i c (.done result s.clock)).calls)
    (hcrashed : s'.crashed = s.crashed)
    (hget : ∀ (p : ℕ) (cp : Invocation) (key : Bytes) (value : Val) (tp : ℕ),
      s.calls[p]? = some cp → cp.op = .put key value → cp.phase = .done (.acked true) tp →
      c.op = .get key →
      (∀ (q : ℕ) (cq : Invocation), s.calls[q]? = some cq → cq.op.isPutOf key → q ≤ p) →
      (replicasOf cfg key).countP s.crashed < cfg.numReplicas → result = .value value) :
    LatestAcked cfg s' := by
  intro p g cp cg key value tp r tg hp hop hphp hg hog hphg hlt hlater hcount
  rw [hcrashed] at hcount
  have hlater₀ : ∀ (q : ℕ) (cq : Invocation), s.calls[q]? = some cq → cq.op.isPutOf key →
      tp < cq.startedAt → tg < cq.startedAt := by
    intro q cq hq hput hstart
    obtain ⟨d, hd, hopd, hstartd⟩ := h.call_after hq
    have := hlater q d hd (by rw [hopd]; exact hput) (by omega)
    omega
  rw [hcalls] at hp hg
  rcases getElem?_setPhase_cases hc hg with ⟨-, hg₀⟩ | ⟨rfl, rfl⟩
  · rcases getElem?_setPhase_cases hc hp with ⟨-, hp₀⟩ | ⟨rfl, rfl⟩
    · exact ih p g cp cg key value tp r tg hp₀ hop hphp hg₀ hog hphg hlt hlater₀ hcount
    · -- the `put` returns now, so the `get` was not started after it
      have hstart := (hstamped g cg hg₀).1
      have htp := (Phase.done.inj hphp).2
      omega
  · obtain ⟨rfl, rfl⟩ := Phase.done.inj hphg
    rcases getElem?_setPhase_cases hc hp with ⟨-, hp⟩ | ⟨rfl, rfl⟩
    · refine hget p cp key value tp hp hop hphp hog (fun q cq hq hput => ?_) hcount
      -- a later `put` would have been started in between
      by_contra hlt'
      obtain ⟨r', t', hph', hlt''⟩ := hserial p q cp cq key (by omega) hp hq
        (isPutOf_iff.mpr ⟨value, hop⟩) hput
      rw [hphp] at hph'
      obtain ⟨-, rfl⟩ := Phase.done.inj hph'
      have h₁ := hlater₀ q cq hq hput hlt''
      have h₂ := (hstamped q cq hq).1
      omega
    · exact absurd (hop.symm.trans hog) (by simp)

theorem latestAcked_of_reached (hr : Reached cfg (settled cfg) s) : LatestAcked cfg s := by
  induction hr with
  | initial => exact fun p g cp cg key value tp r tg hp => absurd hp (by simp [initial])
  | @micro s s' hr h ih =>
    have hmicro := h
    have hstamped := stamped_of_reached hr
    have hserial := serial_of_reached hr
    have hrouted := routed_of_reached hr
    cases h with
    | start client op dead hdead hP =>
      refine ih.same hmicro (fun _ hm => hm) fun j c r t hj hph => ?_
      rcases getElem?_started hj with hj | ⟨-, -, -, hphase⟩
      · exact hj
      · rw [hph] at hphase
        exact absurd hphase (by simp)
    | exhausted i c n hc hph =>
      refine ih.finish hstamped hserial hmicro hc rfl rfl ?_
      intro p cp key value tp _ _ _ hop _ hcount
      -- all nodes of the key would have crashed
      obtain ⟨m, hm, hup⟩ := exists_alive hcount
      have hdown := hrouted.exhausted hc hph m (by rw [hop]; exact hm)
      rw [hup] at hdown
      exact absurd hdown (by decide)
    | movedOn i c n left hc =>
      exact ih.same hmicro (fun _ hm => hm) fun j d r t hj hph =>
        getElem?_of_setPhase_ne hc (by simp) hj hph
    | connected i c n left hc =>
      exact ih.same hmicro (fun _ hm => hm) fun j d r t hj hph =>
        getElem?_of_setPhase_ne hc (by simp) hj hph
    | served n i rest c left received reply answer hn hup hq hc hph hrecv hreply hanswer hP =>
      refine ih.finish hstamped hserial hmicro hc rfl rfl ?_
      intro p cp key value tp hp hopp hphp hop hlatest _
      have hplain := allPlain_of_start (P := settled cfg) (fun _ _ hP => hP.1) hr
      obtain rfl := received_eq_request_of_plain (hplain i c hc) hrecv
      have hkey : PlainKey key := by
        have := (hplain i c hc).key
        rwa [hop] at this
      have hvalue : PlainVal value := (hplain p cp hp).value hopp
      -- the serving node is one of the key, so the value is in view, and nothing is queued
      have hmem : n ∈ replicasOf cfg key := by
        obtain ⟨j, hj, hn, -⟩ := hrouted.waiting hc hph
        rw [hop] at hn
        exact mem_replicasOf.mpr ⟨j, hj, hn.symm⟩
      have hview := fresh_of_reached hr p cp key value tp hp hopp hphp hlatest n hmem hup
      have hquiet : ∀ r ∈ s.nodeQueue n, r.key ≠ key := by
        intro r hr'
        have := hP r hr'
        rwa [hop] at this
      unfold State.view at hview
      rw [drained_of_ne hquiet] at hview
      have hid : 0 ∉ (s.node n).nodeId := by
        rw [(nodesOK_of_reached hr n hn).1]
        exact notMem_decimal (by decide) n
      rw [hop] at hreply ⊢
      exact result_of_get hkey hvalue hid hview hreply hanswer
    | replicated n r rest received =>
      exact ih.same hmicro (fun _ hm => hm) fun j c r t hj _ => hj
    | crash n hP =>
      exact ih.same hmicro (fun m hm => crashed_stopped hm) fun j c r t hj _ => hj

/-- **Reads across a failover.** In every run whose steps are `settled`, a `get`
returns the latest acknowledged value as long as a node of the key is alive. -/
theorem latest_acked (cfg : Config) (s : State)
    (hr : (cluster cfg).Reachable (settled cfg).allows s) : LatestAcked cfg s :=
  latestAcked_of_reached (reached_of_reachable hr)

/-- A failover with a drained queue: node 1 takes the value with the call for another
key, node 0 crashes, and node 1 answers with the value. -/
theorem latest_acked_pair :
    ∃ s, (cluster pairConfig).Reachable (settled pairConfig).allows s ∧ s.crashed 0 = true ∧
      s.calls[2]? = some ⟨0, .get (ascii "j"), 7, .done (.value [ascii "1"]) 9⟩ ∧
      LatestAcked pairConfig s := by
  have hrun : (((cluster pairConfig).guardedRun (settled pairConfig).allows (initial pairConfig)
      [.start 0 (.put (ascii "j") [ascii "1"]) [], .connect 0, .iterate 0,
        .start 0 (.get (ascii "k")) [], .connect 1, .iterate 1, .crash 0,
        .start 0 (.get (ascii "j")) [0], .connect 2, .iterate 1]).any
        fun s => s.crashed 0 = true ∧
          s.calls[2]? = some ⟨0, .get (ascii "j"), 7, .done (.value [ascii "1"]) 9⟩)
      = true := by decide +kernel
  obtain ⟨s, hr, hend⟩ := System.Reachable.of_any hrun
  obtain ⟨hcrashed, hcall⟩ := of_decide_eq_true hend
  exact ⟨s, hr, hcrashed, hcall, latest_acked pairConfig s hr⟩

/-- **A failover read is stale.** Node 0 acknowledges a `put` and crashes while its
message to node 1 is queued. A later `get` is served by node 1 before it takes the
message, and fails. -/
theorem failover_read_is_stale :
    ∃ s, (cluster pairConfig).Reachable System.anyStep s ∧ ¬ LatestAcked pairConfig s := by
  have hrun : (((cluster pairConfig).guardedRun System.anyStep (initial pairConfig)
      [.start 0 (.put (ascii "j") [ascii "1"]) [], .connect 0, .iterate 0, .crash 0,
        .start 0 (.get (ascii "j")) [], .connect 1, .connect 1, .iterate 1]).any
        fun s => (replicasOf pairConfig (ascii "j")).countP s.crashed = 1 ∧
          s.calls = [⟨0, .put (ascii "j") [ascii "1"], 0, .done (.acked true) 2⟩,
            ⟨0, .get (ascii "j"), 4, .done (.value errorValue) 7⟩]) = true := by
    decide +kernel
  obtain ⟨s, hr, hend⟩ := System.Reachable.of_any hrun
  obtain ⟨hcount, hcalls⟩ := of_decide_eq_true hend
  refine ⟨s, hr, fun hacked => ?_⟩
  have hread := hacked 0 1 _ _ (ascii "j") [ascii "1"] 2 (.value errorValue) 7
    (by rw [hcalls]; rfl) rfl rfl (by rw [hcalls]; rfl) rfl rfl (by decide) ?_
    (by rw [hcount]; decide)
  · exact absurd hread (by decide)
  · -- the only other call is the `get` itself
    rw [hcalls]
    intro q cq hq hput hlt
    match q with
    | 0 =>
      obtain rfl := Option.some.inj hq
      exact absurd hlt (by decide)
    | 1 =>
      obtain rfl := Option.some.inj hq
      exact absurd hput (by decide)
    | q + 2 => exact absurd hq (by simp)

end Cluster
end GTStore
end OSLab
