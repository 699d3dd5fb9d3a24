import AdvancedOSLab.GTStore.Storage
import Mathlib.Data.List.Range
import Mathlib.Data.List.Nodup
import Mathlib.Data.Nat.ModEq

/-!
# The GTStore manager's placement

The part of `manager.cpp` that places replicas on the ring of nodes, and what a
node makes of it.

* `ring N K h` is the abstract placement: the `K` nodes `h, h + 1, …` modulo `N`.
* `replicaMessage N K i` is the text that `send_node_replica_node_fds` sends to
  node `i`. It ends in `message.pop_back()`, which removes the last comma, or,
  when there is no replica at all (`K = 1`), the colon of the tag, so that the
  node does not recognise the message.
* `listener N path` is the node that listens on a node-to-node path.

`parse_replicaMessage` closes the loop: for every `N`, `K` and node, the paths a
node decodes are those of the nodes that follow it on the ring.
-/

namespace OSLab
namespace GTStore

open Text Bytes

/-! ### The ring -/

/-- The `K` nodes that hold a key whose first node is `h`, in failover order. -/
def ring (N K h : ℕ) : List ℕ := (List.range K).map fun i => (h + i) % N

theorem ring_length (N K h : ℕ) : (ring N K h).length = K := by
  simp [ring]

theorem mem_ring {N K h m : ℕ} : m ∈ ring N K h ↔ ∃ i < K, (h + i) % N = m := by
  simp [ring]

theorem ring_succ (N K h : ℕ) :
    ring N (K + 1) h = h % N :: ring N K (h + 1) := by
  unfold ring
  rw [List.range_succ_eq_map, List.map_cons, List.map_map, Nat.add_zero]
  congr 1
  refine List.map_congr_left fun i _ => ?_
  change (h + (i + 1)) % N = (h + 1 + i) % N
  rw [Nat.add_right_comm, Nat.add_assoc]

theorem lt_of_mem_ring {N K h m : ℕ} (hN : 0 < N) (hm : m ∈ ring N K h) : m < N := by
  obtain ⟨i, -, rfl⟩ := mem_ring.mp hm
  exact Nat.mod_lt _ hN

/-- Within one turn of the ring, distinct offsets are distinct nodes. -/
theorem ring_offset_injective {N h i j : ℕ} (hi : i < N) (hj : j < N)
    (he : (h + i) % N = (h + j) % N) : i = j := by
  have h₁ : i % N = j % N := Nat.ModEq.add_left_cancel' h he
  rwa [Nat.mod_eq_of_lt hi, Nat.mod_eq_of_lt hj] at h₁

theorem ring_nodup {N K h : ℕ} (hKN : K ≤ N) : (ring N K h).Nodup := by
  unfold ring
  refine List.Nodup.map_on ?_ List.nodup_range
  intro i hi j hj he
  rw [List.mem_range] at hi hj
  exact ring_offset_injective (by omega) (by omega) he

/-- With no more copies than nodes, a node is not one of those behind it. -/
theorem notMem_ring_succ {N K n : ℕ} (hn : n < N) (hKN : K ≤ N) : n ∉ ring N (K - 1) (n + 1) := by
  intro hmem
  obtain ⟨j, hj, hjn⟩ := mem_ring.mp hmem
  -- the offsets `1 + j` and `0` lie within one turn of the ring
  have hinj := @ring_offset_injective N n (1 + j) 0 (by omega) (by omega)
    (by rw [← Nat.add_assoc, hjn, Nat.add_zero, Nat.mod_eq_of_lt hn])
  omega

/-! ### Node-to-node paths -/

/-- The socket path of node `i`: `NODE_NODE_SOCKET_PATH_PREFIX + to_string(i)`. -/
def nodeNodePath (i : ℕ) : Bytes := ascii "/tmp/gtstore_node_node_socket_" ++ decimal i

/-- The node that listens on `path`. -/
def listener (N : ℕ) (path : Bytes) : Option ℕ :=
  (List.range N).find? fun i => nodeNodePath i = path

theorem nodeNodePath_injective : Function.Injective nodeNodePath := by
  intro i j h
  exact decimal_injective (List.append_cancel_left h)

theorem comma_notMem_nodeNodePath (i : ℕ) : comma ∉ nodeNodePath i := by
  unfold nodeNodePath
  rw [List.mem_append, not_or]
  exact ⟨by decide, notMem_decimal (by decide) i⟩

theorem nodeNodePath_ne_nil (i : ℕ) : nodeNodePath i ≠ [] := by
  unfold nodeNodePath
  rw [ne_eq, List.append_eq_nil_iff, not_and_or]
  exact Or.inr (decimal_ne_nil i)

/-- The path of node `i` leads to node `i`. -/
theorem listener_nodeNodePath {N i : ℕ} (hi : i < N) : listener N (nodeNodePath i) = some i := by
  unfold listener
  rw [List.find?_eq_some_iff_getElem]
  refine ⟨by simp, i, by simpa using hi, by simp, ?_⟩
  intro j hj
  simpa using fun he => absurd (nodeNodePath_injective he) (by omega)

/-- The paths of the replicas of node `i`, as the loop over `j` computes them. -/
def replicaPaths (N K i : ℕ) : List Bytes :=
  (List.range (K - 1)).map fun j => nodeNodePath ((N + i + (j + 1)) % N)

/-- The message that `GTStoreManager::send_node_replica_node_fds` builds for
node `i` of `N`, with `num_rep = K`. -/
def replicaMessage (N K i : ℕ) : Bytes :=
  (ascii "NUM_REPLICAS:" ++ decimal K ++ ascii ";" ++ ascii "REPLICA_PATHS:"
    ++ terminated comma (replicaPaths N K i)).dropLast

/-- The replica paths are those of the nodes behind `i` on the ring. -/
theorem replicaPaths_eq (N K i : ℕ) :
    replicaPaths N K i = (ring N (K - 1) (i + 1)).map nodeNodePath := by
  unfold replicaPaths ring
  rw [List.map_map]
  -- the source adds `N` before it reduces modulo `N`
  refine List.map_congr_left fun j _ => ?_
  change nodeNodePath ((N + i + (j + 1)) % N) = nodeNodePath ((i + 1 + j) % N)
  rw [Nat.add_assoc, Nat.add_mod_left]
  congr 2
  omega

/-- What stands in front of the tag of the paths. -/
private def messageHead (K : ℕ) : Bytes :=
  ascii "NUM_REPLICAS:" ++ decimal K ++ ascii ";"

/-- The search for the tag of the paths runs over the replica count, although
that starts with the same letters. -/
private theorem find_messageHead (K : ℕ) (s : Bytes) :
    find (ascii "REPLICA_PATHS:") (messageHead K ++ s)
      = (find (ascii "REPLICA_PATHS:") s).map (· + (messageHead K).length) := by
  have hR : ∀ b ∈ decimal K, b ≠ 82 := fun b hb he => notMem_decimal (by decide) K (he ▸ hb)
  -- `NUM_` and everything behind the first `R` hold no `R`
  have hrest : (82 : UInt8) ∉ ascii "EPLICAS:" ++ decimal K ++ ascii ";" := by
    rw [List.mem_append, List.mem_append, not_or, not_or]
    exact ⟨⟨by decide, fun hm => hR 82 hm rfl⟩, by decide⟩
  have hsplit : messageHead K ++ s
      = ascii "NUM_" ++ 82 :: (ascii "EPLICAS:" ++ decimal K ++ ascii ";" ++ s) := by
    simp [messageHead, ascii]
  have hpat : ascii "REPLICA_PATHS:" = 82 :: ascii "EPLICA_PATHS:" := rfl
  have hlen : (messageHead K).length
      = (ascii "EPLICAS:" ++ decimal K ++ ascii ";").length + 1 + (ascii "NUM_").length := by
    simp [messageHead, ascii]
  rw [hsplit, hpat, find_append_of_notMem (by decide), find_cons, if_neg ?_,
    find_append_of_notMem hrest, Option.map_map, Option.map_map, hlen]
  · rfl
  · -- at the `R` the texts agree on `REPLICA` and differ in the next byte
    simp [List.isPrefixOf, ascii]

/-- With no replica the last byte removed is the colon of the tag. -/
theorem replicaMessage_one (N i : ℕ) :
    replicaMessage N 1 i
      = ascii "NUM_REPLICAS:" ++ decimal 1 ++ ascii ";" ++ ascii "REPLICA_PATHS" := by
  rfl

/-- With replicas it is the comma behind the last path. -/
theorem replicaMessage_of_one_lt {N K : ℕ} (hK : 1 < K) (i : ℕ) :
    replicaMessage N K i = ascii "NUM_REPLICAS:" ++ decimal K ++ ascii ";"
      ++ (ascii "REPLICA_PATHS:" ++ (terminated comma (replicaPaths N K i)).dropLast) := by
  have hne : terminated comma (replicaPaths N K i) ≠ [] := by
    obtain ⟨k, rfl⟩ : ∃ k, K = k + 2 := ⟨K - 2, by omega⟩
    unfold replicaPaths
    rw [show k + 2 - 1 = k + 1 from rfl, List.range_succ_eq_map, List.map_cons, terminated_cons]
    simp
  unfold replicaMessage
  rw [List.dropLast_append_of_ne_nil hne, List.append_assoc]

/-- With replicas the tag of the paths stands behind the replica count. -/
private theorem find_paths_replicaMessage {N K : ℕ} (hK : 1 < K) (i : ℕ) :
    find (ascii "REPLICA_PATHS:") (replicaMessage N K i) = some (messageHead K).length := by
  rw [replicaMessage_of_one_lt hK]
  change find _ (messageHead K ++ _) = _
  rw [find_messageHead, find_append_self, Option.map_some, Nat.zero_add]

/-- **The node decodes the placement.** For every number of nodes, every
replication factor and every node `i`, the paths that `parse_node_connection_msg`
reads out of the manager's message are those of the nodes behind `i`. -/
theorem parse_replicaMessage (N K i : ℕ) (hK : 1 ≤ K) :
    parseNodeConnectionMsg (replicaMessage N K i)
      = (ring N (K - 1) (i + 1)).map nodeNodePath := by
  rcases Nat.lt_or_ge 1 K with hlt | hle
  · -- both tags are found, and the rest is the list of paths without its last comma
    have hnum : find (ascii "NUM_REPLICAS:") (replicaMessage N K i) = some 0 := by
      rw [replicaMessage_of_one_lt hlt, List.append_assoc, List.append_assoc, find_append_self]
    unfold parseNodeConnectionMsg
    rw [hnum, find_paths_replicaMessage hlt]
    change split comma ((replicaMessage N K i).drop _) = _
    rw [replicaMessage_of_one_lt hlt, ← List.append_assoc]
    change split comma ((messageHead K ++ ascii "REPLICA_PATHS:" ++ _).drop _) = _
    rw [← List.length_append, List.drop_left, ← replicaPaths_eq]
    refine split_dropLast_terminated ?_ ?_
    · intro x hx
      obtain ⟨j, -, rfl⟩ := List.mem_map.mp hx
      exact comma_notMem_nodeNodePath _
    · intro x hx
      obtain ⟨j, -, rfl⟩ := List.mem_map.mp hx
      exact nodeNodePath_ne_nil _
  · -- the colon of the tag is gone, so the tag is not found
    obtain rfl : K = 1 := by omega
    have hpaths : find (ascii "REPLICA_PATHS:") (replicaMessage N 1 i) = none := by
      rw [replicaMessage_one]
      change find _ (messageHead 1 ++ _) = _
      rw [find_messageHead, Option.map_eq_none_iff]
      decide
    unfold parseNodeConnectionMsg
    rw [hpaths]
    simp [ring]

end GTStore
end OSLab
