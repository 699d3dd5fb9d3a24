import AdvancedOSLab.GTStore.Client

/-!
# The cluster table of GTStore

A client learns the cluster from one text, the manager's answer to
`INITIALIZE_CLIENT`: the replication factor, the name of the hash function, and
a list of pairs `id:address` for the nodes and `id:DEAD` for those that were
reported dead. This module has both ends of it.

* `Manager` has the globals of `manager.cpp`, and `Manager.initializeResponse` is
  the answer. It ends in `response.pop_back()`, which removes the last comma.
* `Table` has the globals of `client.cpp` that `GTStoreClient::init` writes.
  `Table.parseResponse` finds the three tags and runs the loop over the pairs,
  `Table.addPair`. A client process starts with `Table.initial`.

`parseResponse_initializeResponse` is the round trip of the text. Its core is an
induction over the pairs: the addresses are assigned in the order of their ids,
so that every `resize` adds one entry (`foldlM_addPair_nodes`).

The results about routing speak of a `Client`, whose numbers are not negative.
`Table.client` is the `Client` that a table amounts to, and `client_of_init` says
what `init` makes it.
-/

namespace OSLab
namespace GTStore

open Text Bytes

/-- `MANAGER_CLIENT_SOCKET_BUFFER_SIZE`. -/
def managerClientSocketBufferSize : ℕ := 1024

/-! ### The manager's answer -/

/-- The globals of `manager.cpp`. The addresses come out of a receive buffer, so
they contain no NUL. -/
structure Manager where
  numRep : CInt
  nodeAddressMap : List CString
  deadNodeIds : List CInt

namespace Manager

/-- The pair of a node. -/
def nodePair (i : ℕ) (address : CString) : Bytes := decimal i ++ colon :: address.val

/-- The pair of a node that is marked as dead. -/
def deadPair (id : CInt) : Bytes := decimalInt id.val ++ ascii ":DEAD"

/-- The pairs of the answer, in the order of the two loops. -/
def pairs (m : Manager) : List Bytes :=
  m.nodeAddressMap.mapIdx nodePair ++ m.deadNodeIds.map deadPair

/-- The answer to `INITIALIZE_CLIENT`. -/
def initializeResponse (m : Manager) : Bytes :=
  (ascii "NUM_REPLICAS:" ++ decimalInt m.numRep.val ++ ascii ";HASH_FUNCTION:ADD-ASCII;NODES:"
    ++ terminated comma m.pairs).dropLast

/-- There are nodes, and their addresses can be told from separators and from the
mark of a dead node. -/
structure Listable (m : Manager) : Prop where
  ne_nil : m.nodeAddressMap ≠ []
  comma_notMem : ∀ address ∈ m.nodeAddressMap, comma ∉ address.val
  ne_dead : ∀ address ∈ m.nodeAddressMap, address.val ≠ ascii "DEAD"

end Manager

/-! ### The client's table -/

/-- The globals of `client.cpp` that `GTStoreClient::init` writes. -/
structure Table where
  numReplicas : ℤ
  nodeAddressMap : List Bytes
  deadNodeIds : List ℤ
  hashFunction : Bytes
deriving DecidableEq

namespace Table

/-- The globals when the client process starts. -/
def initial : Table where
  numReplicas := -1
  nodeAddressMap := []
  deadNodeIds := []
  hashFunction := []

/-- `node_address_map[id] = info`, after a `resize` if the map is too small. -/
def assignNode (nodeAddressMap : List Bytes) (id : ℕ) (info : Bytes) : List Bytes :=
  (nodeAddressMap ++ List.replicate (id + 1 - nodeAddressMap.length) []).set id info

/-- One pair of the table. A pair without a colon is passed over. -/
def addPair (t : Table) (nodePair : Bytes) : Option Table :=
  match find [colon] nodePair with
  | none => some t
  | some colonPos => do
    let nodeInfo := nodePair.drop (colonPos + 1)
    let nodeId ← stoi (nodePair.take colonPos)
    if nodeInfo = ascii "DEAD" then some { t with deadNodeIds := t.deadNodeIds ++ [nodeId] }
    -- compared with a size, a negative number is large: `resize` throws, or the index is outside
    else if nodeId < 0 then none
    else some { t with nodeAddressMap := assignNode t.nodeAddressMap nodeId.toNat nodeInfo }

/-- `s.substr(i, j - i)`. The difference is unsigned, so that it takes the whole
rest when `j` is in front of `i`. -/
def between (s : Bytes) (i j : ℕ) : Bytes :=
  if i ≤ j then (s.drop i).take (j - i) else s.drop i

/-- The parser of `GTStoreClient::init`. The loop over the commas and the code
for the last pair treat a pair alike. -/
def parseResponse (t : Table) (response : Bytes) : Option Table :=
  match find (ascii "NUM_REPLICAS:") response, find (ascii ";HASH_FUNCTION:") response,
    find (ascii ";NODES:") response with
  | some numReplicasPos, some hashFunctionPos, some nodesPos => do
    let numReplicas ← stoi
      (between response (numReplicasPos + (ascii "NUM_REPLICAS:").length) hashFunctionPos)
    let hashFunction :=
      between response (hashFunctionPos + (ascii ";HASH_FUNCTION:").length) nodesPos
    let nodesData := response.drop (nodesPos + (ascii ";NODES:").length)
    (split comma nodesData).foldlM addPair
      { numReplicas := numReplicas, nodeAddressMap := [], deadNodeIds := [],
        hashFunction := hashFunction }
  -- `Error: Invalid response from manager`
  | _, _, _ => some t

/-- `GTStoreClient::init`, given what the manager sends. -/
def init (t : Table) (response : Bytes) : Option Table :=
  (recvString managerClientSocketBufferSize response).bind (parseResponse t)

end Table

/-- The table that a manager describes. -/
def Manager.table (m : Manager) : Table where
  numReplicas := m.numRep.val
  nodeAddressMap := m.nodeAddressMap.map Subtype.val
  deadNodeIds := m.deadNodeIds.map Subtype.val
  hashFunction := ascii "ADD-ASCII"

/-! ### The pairs -/

namespace Table

variable {t : Table} {m : Manager}

/-- A pair is cut at the colon behind its id. -/
theorem addPair_append {id info : Bytes} (h : colon ∉ id) (t : Table) :
    addPair t (id ++ colon :: info) = (stoi id).bind fun nodeId =>
      if info = ascii "DEAD" then some { t with deadNodeIds := t.deadNodeIds ++ [nodeId] }
      else if nodeId < 0 then none
      else some { t with
        nodeAddressMap := assignNode t.nodeAddressMap nodeId.toNat info } := by
  have hdrop : (id ++ colon :: info).drop (id.length + 1) = info := by
    rw [← List.drop_drop, List.drop_left, List.drop_one, List.tail_cons]
  rw [addPair, find_singleton_append h]
  simp only [List.take_left, hdrop]
  rfl

/-- The next address in turn is appended. -/
theorem assignNode_length (nodeAddressMap : List Bytes) (info : Bytes) :
    assignNode nodeAddressMap nodeAddressMap.length info = nodeAddressMap ++ [info] := by
  simp [assignNode]

/-- A node with the next number is added. -/
theorem addPair_nodePair {address : CString} (hmax : t.nodeAddressMap.length ≤ intMax)
    (hdead : address.val ≠ ascii "DEAD") :
    addPair t (Manager.nodePair t.nodeAddressMap.length address)
      = some { t with nodeAddressMap := t.nodeAddressMap ++ [address.val] } := by
  have hpos : ¬ ((t.nodeAddressMap.length : ℤ) < 0) := Int.not_lt.mpr (Int.natCast_nonneg _)
  rw [Manager.nodePair, addPair_append (notMem_decimal (by decide) _), stoi_decimal hmax,
    Option.bind_some, if_neg hdead, if_neg hpos, Int.toNat_natCast, assignNode_length]

/-- A dead node is added. -/
theorem addPair_deadPair (id : CInt) :
    addPair t (Manager.deadPair id)
      = some { t with deadNodeIds := t.deadNodeIds ++ [id.val] } := by
  have hcolon : colon ∉ decimalInt id.val := notMem_decimalInt (by decide) (by decide) _
  change addPair t (decimalInt id.val ++ colon :: ascii "DEAD") = _
  rw [addPair_append hcolon, stoi_decimalInt id.property.1 id.property.2, Option.bind_some,
    if_pos rfl]

/-- The loop over the nodes. Behind the addresses read so far, the next pair has
the next number. -/
theorem foldlM_addPair_nodes {addresses : List CString}
    (hmax : t.nodeAddressMap.length + addresses.length ≤ intMax)
    (hdead : ∀ address ∈ addresses, address.val ≠ ascii "DEAD") :
    (addresses.mapIdx fun i => Manager.nodePair (t.nodeAddressMap.length + i)).foldlM addPair t
      = some { t with nodeAddressMap := t.nodeAddressMap ++ addresses.map Subtype.val } := by
  induction addresses generalizing t with
  | nil => simp
  | cons address addresses ih =>
    rw [List.length_cons] at hmax
    have hfirst := addPair_nodePair (t := t) (by omega) (hdead address List.mem_cons_self)
    have hrest := ih (t := { t with nodeAddressMap := t.nodeAddressMap ++ [address.val] })
      (by simp only [List.length_append, List.length_singleton]; omega)
      fun a ha => hdead a (List.mem_cons_of_mem address ha)
    rw [List.mapIdx_cons, List.foldlM_cons, Nat.add_zero, hfirst]
    simp only [List.length_append, List.length_singleton, Nat.add_assoc, Nat.add_comm 1] at hrest
    rw [Option.bind_eq_bind, Option.bind_some, hrest]
    simp

/-- The loop over the dead nodes. -/
theorem foldlM_addPair_dead (ids : List CInt) :
    (ids.map Manager.deadPair).foldlM addPair t
      = some { t with deadNodeIds := t.deadNodeIds ++ ids.map Subtype.val } := by
  induction ids generalizing t with
  | nil => simp
  | cons id ids ih =>
    rw [List.map_cons, List.foldlM_cons, addPair_deadPair, Option.bind_eq_bind, Option.bind_some,
      ih]
    simp

/-- The loop over all pairs, from empty lists. -/
theorem foldlM_pairs (h : m.Listable) (hmax : m.nodeAddressMap.length ≤ intMax) (numReplicas : ℤ)
    (hashFunction : Bytes) :
    m.pairs.foldlM addPair ⟨numReplicas, [], [], hashFunction⟩
      = some ⟨numReplicas, m.nodeAddressMap.map Subtype.val, m.deadNodeIds.map Subtype.val,
          hashFunction⟩ := by
  have hnodes := foldlM_addPair_nodes (t := ⟨numReplicas, [], [], hashFunction⟩)
    (by simpa using hmax) h.ne_dead
  simp only [List.length_nil, Nat.zero_add, List.nil_append] at hnodes
  rw [Manager.pairs, List.foldlM_append]
  change ((m.nodeAddressMap.mapIdx fun i => Manager.nodePair i).foldlM addPair _ >>= _) = _
  rw [hnodes, Option.bind_eq_bind, Option.bind_some, foldlM_addPair_dead]
  rfl

/-! ### The text -/

/-- What stands in front of the first semicolon. -/
private def tableHead (m : Manager) : Bytes := ascii "NUM_REPLICAS:" ++ decimalInt m.numRep.val

private theorem semicolon_notMem_tableHead (m : Manager) : 59 ∉ tableHead m := by
  unfold tableHead
  rw [List.mem_append, not_or]
  exact ⟨by decide, notMem_decimalInt (by decide) (by decide) _⟩

/-- With a node in the list, the byte that is removed is the comma behind the last pair. -/
theorem initializeResponse_eq (h : m.Listable) :
    m.initializeResponse = tableHead m ++ (ascii ";HASH_FUNCTION:" ++ (ascii "ADD-ASCII"
      ++ (ascii ";NODES:" ++ (terminated comma m.pairs).dropLast))) := by
  have hne : terminated comma m.pairs ≠ [] := by
    intro hnil
    have hlen := length_le_length_terminated comma m.pairs
    rw [hnil, Manager.pairs, List.length_append, List.length_mapIdx] at hlen
    have hpos := List.length_pos_of_ne_nil h.ne_nil
    simp only [List.length_nil] at hlen
    omega
  have htags : ascii ";HASH_FUNCTION:ADD-ASCII;NODES:"
      = ascii ";HASH_FUNCTION:" ++ ascii "ADD-ASCII" ++ ascii ";NODES:" := by decide
  unfold Manager.initializeResponse tableHead
  rw [List.dropLast_append_of_ne_nil hne, htags]
  simp only [List.append_assoc]

/-- The tag of the hash function is the first thing behind the replication factor. -/
private theorem find_hashFunction (m : Manager) (rest : Bytes) :
    find (ascii ";HASH_FUNCTION:") (tableHead m ++ (ascii ";HASH_FUNCTION:" ++ rest))
      = some (tableHead m).length := by
  have hpat : ascii ";HASH_FUNCTION:" = 59 :: ascii "HASH_FUNCTION:" := rfl
  rw [hpat, find_append_of_notMem (semicolon_notMem_tableHead m), ← hpat, find_append_self,
    Option.map_some, Nat.zero_add]

/-- The search for the tag of the nodes runs over the one of the hash function. -/
private theorem find_nodes (m : Manager) (rest : Bytes) :
    find (ascii ";NODES:") (tableHead m
        ++ (ascii ";HASH_FUNCTION:" ++ (ascii "ADD-ASCII" ++ (ascii ";NODES:" ++ rest))))
      = some ((tableHead m).length + (ascii ";HASH_FUNCTION:").length
          + (ascii "ADD-ASCII").length) := by
  have hpat : ascii ";NODES:" = 59 :: ascii "NODES:" := rfl
  have hskip : ascii ";HASH_FUNCTION:" ++ (ascii "ADD-ASCII" ++ (ascii ";NODES:" ++ rest))
      = 59 :: (ascii "HASH_FUNCTION:ADD-ASCII" ++ (ascii ";NODES:" ++ rest)) := rfl
  have hno : (59 : UInt8) ∉ ascii "HASH_FUNCTION:ADD-ASCII" := by decide
  -- at the first semicolon the texts differ in the next byte
  have hfirst : (ascii ";NODES:").isPrefixOf
      (59 :: (ascii "HASH_FUNCTION:ADD-ASCII" ++ (ascii ";NODES:" ++ rest))) = false := rfl
  rw [hskip, hpat, find_append_of_notMem (semicolon_notMem_tableHead m), ← hpat, find_cons, hfirst,
    if_neg (by decide), hpat, find_append_of_notMem hno, ← hpat, find_append_self]
  simp only [Option.map_some, Option.some.injEq]
  change 0 + 23 + 1 + _ = _ + 15 + 9
  omega

/-- A field between two positions of a text. -/
private theorem between_append (a b c : Bytes) {i j : ℕ} (hi : i = a.length)
    (hj : j = a.length + b.length) : between (a ++ (b ++ c)) i j = b := by
  subst hi hj
  rw [between, if_pos (Nat.le_add_right _ _), List.drop_left, Nat.add_sub_cancel_left,
    List.take_left]

/-- A byte that is in no number, no address and not in the mark of a dead node
is in no pair. -/
theorem notMem_of_mem_pairs {b : UInt8} {x : Bytes} (hdigit : isDigit b = false)
    (hminus : b ≠ 45) (hdead : b ∉ ascii ":DEAD")
    (haddress : ∀ address ∈ m.nodeAddressMap, b ∉ address.val) (hx : x ∈ m.pairs) : b ∉ x := by
  obtain hx | hx := List.mem_append.mp hx
  · obtain ⟨i, hi, rfl⟩ := List.mem_mapIdx.mp hx
    have hcolon : b ≠ colon := by
      rintro rfl
      exact hdead (by decide)
    unfold Manager.nodePair
    rw [List.mem_append, List.mem_cons, not_or, not_or]
    exact ⟨notMem_decimal hdigit i, hcolon, haddress _ (List.getElem_mem hi)⟩
  · obtain ⟨id, -, rfl⟩ := List.mem_map.mp hx
    unfold Manager.deadPair
    rw [List.mem_append, not_or]
    exact ⟨notMem_decimalInt hdigit hminus _, hdead⟩

/-- No pair is empty. -/
theorem ne_nil_of_mem_pairs {x : Bytes} (hx : x ∈ m.pairs) : x ≠ [] := by
  obtain hx | hx := List.mem_append.mp hx
  · obtain ⟨i, hi, rfl⟩ := List.mem_mapIdx.mp hx
    simp [Manager.nodePair]
  · obtain ⟨id, -, rfl⟩ := List.mem_map.mp hx
    simp [Manager.deadPair, decimalInt_ne_nil]

/-- **The round trip of the text.** The parser reads out of the manager's answer
the table that the manager describes, whatever table the client had. -/
theorem parseResponse_initializeResponse (h : m.Listable)
    (hmax : m.nodeAddressMap.length ≤ intMax) (t : Table) :
    parseResponse t m.initializeResponse = some m.table := by
  have hcomma : ∀ x ∈ m.pairs, comma ∉ x := fun x =>
    notMem_of_mem_pairs (by decide) (by decide) (by decide) h.comma_notMem
  have hne : ∀ x ∈ m.pairs, x ≠ [] := fun x => ne_nil_of_mem_pairs
  have hnum : find (ascii "NUM_REPLICAS:") m.initializeResponse = some 0 := by
    rw [initializeResponse_eq h, tableHead, List.append_assoc, find_append_self]
  have hhash : find (ascii ";HASH_FUNCTION:") m.initializeResponse = some (tableHead m).length := by
    rw [initializeResponse_eq h, find_hashFunction]
  have hnodes : find (ascii ";NODES:") m.initializeResponse
      = some ((tableHead m).length + (ascii ";HASH_FUNCTION:").length
          + (ascii "ADD-ASCII").length) := by
    rw [initializeResponse_eq h, find_nodes]
  -- the three fields
  have hreplicas : between m.initializeResponse (0 + (ascii "NUM_REPLICAS:").length)
      (tableHead m).length = decimalInt m.numRep.val := by
    rw [initializeResponse_eq h, tableHead, List.append_assoc]
    exact between_append _ _ _ (Nat.zero_add _) (List.length_append ..)
  have hfunction : between m.initializeResponse
      ((tableHead m).length + (ascii ";HASH_FUNCTION:").length)
      ((tableHead m).length + (ascii ";HASH_FUNCTION:").length + (ascii "ADD-ASCII").length)
      = ascii "ADD-ASCII" := by
    rw [initializeResponse_eq h, ← List.append_assoc (tableHead m)]
    exact between_append _ _ _ (List.length_append ..).symm
      (by rw [List.length_append])
  have hdata : m.initializeResponse.drop ((tableHead m).length + (ascii ";HASH_FUNCTION:").length
      + (ascii "ADD-ASCII").length + (ascii ";NODES:").length)
      = (terminated comma m.pairs).dropLast := by
    rw [initializeResponse_eq h, ← List.append_assoc, ← List.append_assoc, ← List.append_assoc,
      ← List.length_append, ← List.length_append, ← List.length_append, List.drop_left]
  unfold parseResponse
  rw [hnum, hhash, hnodes]
  dsimp only
  rw [hreplicas, hfunction, hdata, split_dropLast_terminated hcomma hne,
    stoi_decimalInt m.numRep.property.1 m.numRep.property.2]
  exact foldlM_pairs h hmax _ _

/-- The answer of the manager contains no NUL. -/
theorem zero_notMem_initializeResponse (m : Manager) : 0 ∉ m.initializeResponse := by
  have hpair : ∀ x ∈ m.pairs, 0 ∉ x := fun x =>
    notMem_of_mem_pairs (by decide) (by decide) (by decide) fun address _ => address.property
  intro hzero
  obtain hzero | hzero := List.mem_append.mp (List.mem_of_mem_dropLast hzero)
  · rw [List.mem_append, List.mem_append] at hzero
    obtain (hzero | hzero) | hzero := hzero
    · exact absurd hzero (by decide)
    · exact notMem_decimalInt (by decide) (by decide) _ hzero
    · exact absurd hzero (by decide)
  · obtain heq | ⟨x, hx, hzero⟩ := mem_terminated hzero
    · exact absurd heq (by decide)
    · exact hpair x hx hzero

/-- An answer that fits the buffer has few nodes. -/
theorem length_le_of_fits (hfits : m.initializeResponse.length < managerClientSocketBufferSize) :
    m.nodeAddressMap.length ≤ intMax := by
  have hlen := length_le_length_terminated comma m.pairs
  rw [Manager.pairs, List.length_append, List.length_mapIdx] at hlen
  rw [Manager.initializeResponse, List.length_dropLast, List.length_append, Manager.pairs] at hfits
  unfold managerClientSocketBufferSize at hfits
  unfold intMax
  omega

/-- **The cluster table survives the text.** For every replication factor, every
list of nodes whose addresses are no marks and contain no separator, and every
list of dead ids, a client reads the manager's table out of an answer that fits
its buffer: the same replication factor, hash function, addresses in the same
order, and dead ids. -/
theorem init_initializeResponse (m : Manager) (h : m.Listable)
    (hfits : m.initializeResponse.length < managerClientSocketBufferSize) (t : Table) :
    t.init m.initializeResponse = some
      { numReplicas := m.numRep.val
        hashFunction := ascii "ADD-ASCII"
        nodeAddressMap := m.nodeAddressMap.map Subtype.val
        deadNodeIds := m.deadNodeIds.map Subtype.val } := by
  unfold init
  rw [recvString_eq_some hfits (zero_notMem_initializeResponse m), Option.bind_some]
  exact parseResponse_initializeResponse h (length_le_of_fits hfits) t

/-- Three nodes with two replicas. One is dead, and so is a node that does not exist. -/
def trioManager : Manager where
  numRep := ⟨2, by decide⟩
  nodeAddressMap := [⟨ascii "/tmp/a:1", by decide⟩, ⟨[], by decide⟩, ⟨ascii "/tmp/b", by decide⟩]
  deadNodeIds := [⟨2, by decide⟩, ⟨-7, by decide⟩]

theorem init_initializeResponse_trio :
    trioManager.initializeResponse = ascii
        "NUM_REPLICAS:2;HASH_FUNCTION:ADD-ASCII;NODES:0:/tmp/a:1,1:,2:/tmp/b,2:DEAD,-7:DEAD" ∧
      initial.init trioManager.initializeResponse = some
        { numReplicas := 2
          hashFunction := ascii "ADD-ASCII"
          nodeAddressMap := [ascii "/tmp/a:1", [], ascii "/tmp/b"]
          deadNodeIds := [2, -7] } :=
  ⟨by decide +kernel, init_initializeResponse trioManager ⟨by decide, by decide, by decide⟩
    (by decide +kernel) initial⟩

/-! ### The table that routing uses -/

/-- A client that has got the answer has the manager's table. -/
theorem eq_table_of_init {t' : Table} (h : m.Listable)
    (hinit : t.init m.initializeResponse = some t') : t' = m.table := by
  obtain ⟨response, hrecv, hparse⟩ := Option.bind_eq_some_iff.mp hinit
  obtain ⟨hfits, rfl⟩ := recvString_eq_some_iff.mp hrecv
  rw [cstr_eq_self (zero_notMem_initializeResponse m),
    parseResponse_initializeResponse h (length_le_of_fits hfits)] at hparse
  exact (Option.some.inj hparse).symm

/-- What routing sees of a table: `node_id` is never negative, so neither is a
dead id that it meets. -/
def client (t : Table) : Client where
  numReplicas := t.numReplicas.toNat
  nodeAddressMap := t.nodeAddressMap
  deadNodeIds := (t.deadNodeIds.filter (0 ≤ ·)).map Int.toNat
  hashFunction := t.hashFunction

/-- A client that has got the answer routes over the manager's nodes with the
manager's replication factor, and passes over the manager's dead ids. -/
theorem client_of_init {t' : Table} (h : m.Listable)
    (hinit : t.init m.initializeResponse = some t') :
    t'.client.nodeAddressMap.length = m.nodeAddressMap.length ∧
      t'.client.numReplicas = m.numRep.val.toNat ∧
      ∀ d : ℕ, d ∈ t'.client.deadNodeIds ↔ ∃ id ∈ m.deadNodeIds, id.val = d := by
  rw [eq_table_of_init h hinit]
  refine ⟨List.length_map .., rfl, fun d => ?_⟩
  simp only [client, Manager.table, List.mem_map, List.mem_filter, decide_eq_true_eq]
  constructor
  · rintro ⟨_, ⟨⟨id, hid, rfl⟩, hpos⟩, rfl⟩
    exact ⟨id, hid, (Int.toNat_of_nonneg hpos).symm⟩
  · rintro ⟨id, hid, heq⟩
    exact ⟨id.val, ⟨⟨id, hid, rfl⟩, heq ▸ Int.natCast_nonneg d⟩, by rw [heq, Int.toNat_natCast]⟩

end Table

end GTStore
end OSLab
