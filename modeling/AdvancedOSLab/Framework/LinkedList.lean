import Mathlib.Data.List.Nodup
import Mathlib.Data.List.Perm.Subperm
import Mathlib.Data.List.Range
import Mathlib.Logic.Function.Basic

/-!
# Doubly linked lists on a heap

The list that C programs link by hand: every node points to the next and to the previous one, and a
global variable points to the first. An address is a number, and a null pointer is `none`.

* `DList.append` allocates a node and links it behind the last one, which it finds by walking
  through the list. `DList.unlink` takes a node out and frees it. `findFrom` walks to the first node
  with a value. `DList.values` reads the whole list.
* A walk has no result when it meets an address that is not allocated, or when it does not end.
  The number of turns is bounded by the number of addresses that were ever allocated.
* `Segment heap prev start stop cells` says that the nodes from `start` up to `stop` are `cells`,
  and that the first of them points back to `prev`. Segments compose (`segment_append`), and what
  is outside of a segment can be written freely (`Segment.congr`).

`Represents l cells` is what a list on the heap stands for. `Represents.append`, `Represents.unlink`
and `Represents.findFrom` say what the operations do to it, and `Represents.wellLinked` what it says
about the pointers themselves.
-/

namespace OSLab

namespace LinkedList

variable {α : Type}

/-- A node of the list. -/
structure Node (α : Type) where
  value : α
  next : Option ℕ
  prev : Option ℕ
deriving DecidableEq

/-- What is allocated at an address. -/
abbrev Heap (α : Type) : Type := ℕ → Option (Node α)

/-- A list: the pointer to its first node, and the heap. The addresses from `fresh` on were never
allocated. -/
structure DList (α : Type) where
  heap : Heap α
  head : Option ℕ
  fresh : ℕ

/-! ### The operations -/

/-- The last node behind the one at `a`. -/
def last (heap : Heap α) : ℕ → ℕ → Option ℕ
  | 0, _ => none
  | fuel + 1, a => do
    let node ← heap a
    match node.next with
    | none => some a
    | some b => last heap fuel b

/-- The first node from a pointer on whose value satisfies `p`. -/
def findFrom (heap : Heap α) (p : α → Bool) : ℕ → Option ℕ → Option (Option ℕ)
  | _, none => some none
  | 0, some _ => none
  | fuel + 1, some a => do
    let node ← heap a
    if p node.value then some (some a) else findFrom heap p fuel node.next

/-- The values from a pointer on. -/
def valuesFrom (heap : Heap α) : ℕ → Option ℕ → Option (List α)
  | _, none => some []
  | 0, some _ => none
  | fuel + 1, some a => do
    let node ← heap a
    let values ← valuesFrom heap fuel node.next
    some (node.value :: values)

namespace DList

/-- The list without nodes. -/
def empty : DList α := ⟨fun _ => none, none, 0⟩

/-- The address of the first node whose value satisfies `p`. -/
def find (l : DList α) (p : α → Bool) : Option (Option ℕ) := findFrom l.heap p l.fresh l.head

/-- The values of the list. -/
def values (l : DList α) : Option (List α) := valuesFrom l.heap l.fresh l.head

/-- A new node behind the last one. -/
def append (l : DList α) (value : α) : Option (DList α) :=
  match l.head with
  | none => some
      { heap := Function.update l.heap l.fresh (some ⟨value, none, none⟩)
        head := some l.fresh
        fresh := l.fresh + 1 }
  | some first => do
    let tail ← last l.heap l.fresh first
    let node ← l.heap tail
    let heap := Function.update l.heap tail (some { node with next := some l.fresh })
    some
      { heap := Function.update heap l.fresh (some ⟨value, none, some tail⟩)
        head := l.head
        fresh := l.fresh + 1 }

/-- The pointer to what follows `prev` is redirected to `next`. -/
def setNext (l : DList α) (prev next : Option ℕ) : Option (DList α) :=
  match prev with
  | none => some { l with head := next }
  | some b => do
    let node ← l.heap b
    some { l with heap := Function.update l.heap b (some { node with next := next }) }

/-- The pointer back from `next` is redirected to `prev`. -/
def setPrev (l : DList α) (prev next : Option ℕ) : Option (DList α) :=
  match next with
  | none => some l
  | some c => do
    let node ← l.heap c
    some { l with heap := Function.update l.heap c (some { node with prev := prev }) }

/-- The node at an address is taken out of the list and freed. -/
def unlink (l : DList α) (a : ℕ) : Option (DList α) := do
  let node ← l.heap a
  let l ← l.setNext node.prev node.next
  let l ← l.setPrev node.prev node.next
  some { l with heap := Function.update l.heap a none }

end DList

/-! ### Segments -/

/-- The nodes from `start` up to `stop` are `cells`. The first one points back to `prev`. -/
def Segment (heap : Heap α) : Option ℕ → Option ℕ → Option ℕ → List (ℕ × α) → Prop
  | _, start, stop, [] => start = stop
  | prev, start, stop, (a, v) :: cells =>
    start = some a ∧ ∃ next, heap a = some ⟨v, next, prev⟩ ∧ Segment heap (some a) next stop cells

/-- The address of the last of the nodes, or `prev` if there are none. -/
def lastAddress : Option ℕ → List (ℕ × α) → Option ℕ
  | prev, [] => prev
  | _, (a, _) :: cells => lastAddress (some a) cells

variable {heap heap' : Heap α} {prev start stop : Option ℕ} {cells cells' : List (ℕ × α)}
  {a b : ℕ} {v w : α}

@[simp] theorem lastAddress_append_singleton (prev : Option ℕ) (cells : List (ℕ × α)) (c : ℕ × α) :
    lastAddress prev (cells ++ [c]) = some c.1 := by
  induction cells generalizing prev with
  | nil => rfl
  | cons d cells ih => exact ih (some d.1)

/-- Two segments one after the other. -/
theorem segment_append : Segment heap prev start stop (cells ++ cells') ↔
    ∃ mid, Segment heap prev start mid cells ∧
      Segment heap (lastAddress prev cells) mid stop cells' := by
  induction cells generalizing prev start with
  | nil => simp [Segment, lastAddress]
  | cons c cells ih =>
    obtain ⟨a, v⟩ := c
    simp only [List.cons_append, Segment, ih, lastAddress]
    constructor
    · rintro ⟨rfl, next, hnode, mid, hleft, hright⟩
      exact ⟨mid, ⟨rfl, next, hnode, hleft⟩, hright⟩
    · rintro ⟨mid, ⟨rfl, next, hnode, hleft⟩, hright⟩
      exact ⟨rfl, next, hnode, mid, hleft, hright⟩

/-- A segment only depends on its own nodes. -/
theorem Segment.congr (h : Segment heap prev start stop cells)
    (heq : ∀ c ∈ cells, heap' c.1 = heap c.1) : Segment heap' prev start stop cells := by
  induction cells generalizing prev start with
  | nil => exact h
  | cons c cells ih =>
    obtain ⟨a, v⟩ := c
    obtain ⟨rfl, next, hnode, hrest⟩ := h
    refine ⟨rfl, next, (heq (a, v) List.mem_cons_self).trans hnode, ih hrest fun c hc => ?_⟩
    exact heq c (List.mem_cons_of_mem _ hc)

/-- Writing at an address outside of a segment. -/
theorem Segment.update {node : Option (Node α)} (h : Segment heap prev start stop cells)
    (ha : a ∉ cells.map Prod.fst) :
    Segment (Function.update heap a node) prev start stop cells := by
  refine h.congr fun c hc => Function.update_of_ne ?_ _ _
  rintro rfl
  exact ha (List.mem_map_of_mem hc)

/-- The node of a cell. -/
theorem Segment.heap_eq (h : Segment heap prev start stop (cells ++ (a, v) :: cells')) :
    ∃ next, heap a = some ⟨v, next, lastAddress prev cells⟩ ∧
      Segment heap prev start (some a) cells ∧ Segment heap (some a) next stop cells' := by
  obtain ⟨mid, hleft, rfl, next, hnode, hright⟩ := segment_append.mp h
  exact ⟨next, hnode, hleft, hright⟩

/-- The last node of a segment is made to point elsewhere. -/
theorem Segment.setLast (h : Segment heap prev start stop (cells ++ [(b, w)]))
    (hnodup : ((cells ++ [(b, w)]).map Prod.fst).Nodup) (next : Option ℕ) :
    ∃ node, heap b = some node ∧
      Segment (Function.update heap b (some { node with next := next })) prev start next
        (cells ++ [(b, w)]) := by
  obtain ⟨next', hnode, hleft, -⟩ := h.heap_eq
  have hb : b ∉ cells.map Prod.fst := by
    rw [List.map_append, List.nodup_append] at hnodup
    exact fun hmem => hnodup.2.2 b hmem b (by simp) rfl
  refine ⟨_, hnode, segment_append.mpr ⟨some b, hleft.update hb, rfl, next, ?_, rfl⟩⟩
  rw [Function.update_self]

/-- The first node of a segment is made to point back elsewhere. -/
theorem Segment.setFirst (h : Segment heap prev start stop ((b, w) :: cells))
    (hnodup : (((b, w) :: cells).map Prod.fst).Nodup) (prev' : Option ℕ) :
    ∃ node, heap b = some node ∧
      Segment (Function.update heap b (some { node with prev := prev' })) prev' start stop
        ((b, w) :: cells) := by
  obtain ⟨rfl, next, hnode, hrest⟩ := h
  have hb : b ∉ cells.map Prod.fst := (List.nodup_cons.mp hnodup).1
  refine ⟨_, hnode, rfl, next, ?_, hrest.update hb⟩
  rw [Function.update_self]

/-! ### Walks -/

theorem Segment.last {fuel : ℕ} (h : Segment heap prev (some b) none cells)
    (hfuel : cells.length ≤ fuel) : last heap fuel b = lastAddress (some b) cells := by
  induction cells generalizing prev b fuel with
  | nil => exact absurd h (by simp [Segment])
  | cons c cells ih =>
    obtain ⟨a, v⟩ := c
    obtain ⟨hb, next, hnode, hrest⟩ := h
    obtain rfl := Option.some.inj hb
    obtain ⟨fuel, rfl⟩ := Nat.exists_eq_succ_of_ne_zero (n := fuel) (by rintro rfl; simp at hfuel)
    rw [LinkedList.last, hnode, Option.bind_eq_bind, Option.bind_some, lastAddress]
    cases next with
    | none =>
      -- nothing follows a node that points nowhere
      cases cells with
      | nil => rfl
      | cons c cells => exact absurd hrest.1 (by simp)
    | some a' =>
      have hlast := ih hrest (Nat.le_of_succ_le_succ hfuel)
      cases cells with
      | nil => exact absurd hrest (by simp [Segment])
      | cons c cells => exact hlast

theorem Segment.findFrom {p : α → Bool} {fuel : ℕ} (h : Segment heap prev start none cells)
    (hfuel : cells.length ≤ fuel) :
    findFrom heap p fuel start = some ((cells.find? fun c => p c.2).map Prod.fst) := by
  induction cells generalizing prev start fuel with
  | nil =>
    obtain rfl : start = none := h
    cases fuel <;> rfl
  | cons c cells ih =>
    obtain ⟨a, v⟩ := c
    obtain ⟨rfl, next, hnode, hrest⟩ := h
    obtain ⟨fuel, rfl⟩ := Nat.exists_eq_succ_of_ne_zero (n := fuel) (by rintro rfl; simp at hfuel)
    rw [LinkedList.findFrom, hnode, Option.bind_eq_bind, Option.bind_some,
      ih hrest (Nat.le_of_succ_le_succ hfuel), List.find?_cons]
    cases p v <;> rfl

theorem Segment.valuesFrom {fuel : ℕ} (h : Segment heap prev start none cells)
    (hfuel : cells.length ≤ fuel) : valuesFrom heap fuel start = some (cells.map Prod.snd) := by
  induction cells generalizing prev start fuel with
  | nil =>
    obtain rfl : start = none := h
    cases fuel <;> rfl
  | cons c cells ih =>
    obtain ⟨a, v⟩ := c
    obtain ⟨rfl, next, hnode, hrest⟩ := h
    obtain ⟨fuel, rfl⟩ := Nat.exists_eq_succ_of_ne_zero (n := fuel) (by rintro rfl; simp at hfuel)
    rw [LinkedList.valuesFrom, hnode, Option.bind_eq_bind, Option.bind_some,
      ih hrest (Nat.le_of_succ_le_succ hfuel)]
    rfl

/-! ### Lists -/

/-- The list has the given nodes, at different addresses that were allocated. -/
structure Represents (l : DList α) (cells : List (ℕ × α)) : Prop where
  segment : Segment l.heap none l.head none cells
  nodup : (cells.map Prod.fst).Nodup
  allocated : ∀ c ∈ cells, c.1 < l.fresh

namespace Represents

variable {l : DList α}

theorem empty : Represents (DList.empty : DList α) [] :=
  ⟨rfl, List.nodup_nil, by simp⟩

/-- A walk ends before it has seen all addresses. -/
theorem length_le (h : Represents l cells) : cells.length ≤ l.fresh := by
  have hsubset : cells.map Prod.fst ⊆ List.range l.fresh := by
    intro a ha
    obtain ⟨c, hc, rfl⟩ := List.mem_map.mp ha
    exact List.mem_range.mpr (h.allocated c hc)
  calc cells.length = (cells.map Prod.fst).length := (List.length_map ..).symm
    _ ≤ (List.range l.fresh).length := (h.nodup.subperm hsubset).length_le
    _ = l.fresh := List.length_range

theorem values (h : Represents l cells) : l.values = some (cells.map Prod.snd) :=
  h.segment.valuesFrom h.length_le

theorem find (h : Represents l cells) (p : α → Bool) :
    l.find p = some ((cells.find? fun c => p c.2).map Prod.fst) :=
  h.segment.findFrom h.length_le

/-- A new address is that of no node. -/
theorem fresh_notMem (h : Represents l cells) : l.fresh ∉ cells.map Prod.fst := by
  intro hmem
  obtain ⟨c, hc, heq⟩ := List.mem_map.mp hmem
  exact absurd (h.allocated c hc) (by omega)

/-- The parts of the invariant that only concern the addresses, with a new node. -/
theorem addresses_append (h : Represents l cells) (v : α) :
    ((cells ++ [(l.fresh, v)]).map Prod.fst).Nodup ∧
      ∀ c ∈ cells ++ [(l.fresh, v)], c.1 < l.fresh + 1 := by
  constructor
  · rw [List.map_append, List.nodup_append]
    refine ⟨h.nodup, List.nodup_singleton _, fun a ha b hb hab => h.fresh_notMem ?_⟩
    obtain rfl := List.mem_singleton.mp hb
    exact (show a = l.fresh from hab) ▸ ha
  · intro c hc
    obtain hc | hc := List.mem_append.mp hc
    · exact Nat.lt_succ_of_lt (h.allocated c hc)
    · obtain rfl := List.mem_singleton.mp hc
      exact Nat.lt_succ_self _

/-- A new node goes to the end. -/
theorem append (h : Represents l cells) (v : α) :
    ∃ l', l.append v = some l' ∧ Represents l' (cells ++ [(l.fresh, v)]) := by
  obtain ⟨hnodup, hallocated⟩ := h.addresses_append v
  obtain rfl | ⟨front, ⟨b, w⟩, rfl⟩ := cells.eq_nil_or_concat'
  · have hhead : l.head = none := h.segment
    refine ⟨_, by rw [DList.append, hhead], ?_, hnodup, hallocated⟩
    exact ⟨rfl, none, Function.update_self .., rfl⟩
  · -- the walk ends at the last node, which is made to point to the new one
    cases hhead : l.head with
    | none =>
      have hseg := h.segment
      rw [hhead] at hseg
      cases front with
      | nil => exact absurd hseg.1 (by simp)
      | cons c front => exact absurd hseg.1 (by simp)
    | some first =>
      have hlast : LinkedList.last l.heap l.fresh first = some b := by
        have hseg := h.segment
        rw [hhead] at hseg
        rw [hseg.last h.length_le, lastAddress_append_singleton]
      obtain ⟨node, hnode, hseg⟩ := h.segment.setLast h.nodup (some l.fresh)
      have happend : l.append v = some
          { heap := Function.update
              (Function.update l.heap b (some { node with next := some l.fresh }))
              l.fresh (some ⟨v, none, some b⟩)
            head := l.head
            fresh := l.fresh + 1 } := by
        simp only [DList.append, hhead, hlast, hnode, Option.bind_eq_bind, Option.bind_some]
      refine ⟨_, happend, segment_append.mpr ⟨some l.fresh, ?_, rfl, none, ?_, rfl⟩, hnodup,
        hallocated⟩
      · exact hseg.update h.fresh_notMem
      · rw [lastAddress_append_singleton]
        exact Function.update_self ..

/-- The first half of taking out a node: what is in front of it is linked to what follows it. -/
theorem setNext {front rest : List (ℕ × α)} {next : Option ℕ}
    (hfront : Segment l.heap none l.head (some a) front)
    (hrest : Segment l.heap (some a) next none rest)
    (hnodup : ((front ++ (a, v) :: rest).map Prod.fst).Nodup) :
    ∃ l', l.setNext (lastAddress none front) next = some l' ∧ l'.fresh = l.fresh ∧
      Segment l'.heap none l'.head next front ∧ Segment l'.heap (some a) next none rest := by
  obtain rfl | ⟨front, ⟨b, w⟩, rfl⟩ := front.eq_nil_or_concat'
  · exact ⟨_, rfl, rfl, rfl, hrest⟩
  · rw [lastAddress_append_singleton]
    have hsub : ((front ++ [(b, w)]).map Prod.fst).Nodup := by
      rw [List.map_append] at hnodup
      exact hnodup.of_append_left
    have hb : b ∉ rest.map Prod.fst := by
      intro hmem
      rw [List.map_append, List.nodup_append] at hnodup
      exact hnodup.2.2 b (by simp) b (by simpa using .inr (by simpa using hmem)) rfl
    obtain ⟨node, hnode, hseg⟩ := hfront.setLast hsub next
    have hset : l.setNext (some b) next = some
        { l with heap := Function.update l.heap b (some { node with next := next }) } := by
      simp only [DList.setNext, hnode, Option.bind_eq_bind, Option.bind_some]
    exact ⟨_, hset, rfl, hseg, hrest.update hb⟩

/-- The second half: what follows it is linked back. -/
theorem setPrev {front rest : List (ℕ × α)} {next : Option ℕ}
    (hfront : Segment l.heap none l.head next front)
    (hrest : Segment l.heap (some a) next none rest)
    (hnodup : ((front ++ (a, v) :: rest).map Prod.fst).Nodup) :
    ∃ l', l.setPrev (lastAddress none front) next = some l' ∧ l'.fresh = l.fresh ∧
      Segment l'.heap none l'.head none (front ++ rest) := by
  -- only a node that follows has a pointer back
  cases rest with
  | nil =>
    obtain rfl : next = none := hrest
    exact ⟨l, rfl, rfl, by simpa using hfront⟩
  | cons c rest =>
    obtain ⟨b, w⟩ := c
    obtain rfl : next = some b := hrest.1
    have hsub : (((b, w) :: rest).map Prod.fst).Nodup := by
      rw [List.map_append] at hnodup
      exact (List.nodup_cons.mp hnodup.of_append_right).2
    -- the write to `b` does not touch the segment in front
    have hb : b ∉ front.map Prod.fst := by
      intro hmem
      rw [List.map_append, List.nodup_append] at hnodup
      exact hnodup.2.2 b hmem b (by simp) rfl
    obtain ⟨node, hnode, hseg⟩ := hrest.setFirst hsub (lastAddress none front)
    have hset : l.setPrev (lastAddress none front) (some b) = some
        { l with
          heap :=
            Function.update l.heap b (some { node with prev := lastAddress none front }) } := by
      simp only [DList.setPrev, hnode, Option.bind_eq_bind, Option.bind_some]
    exact ⟨_, hset, rfl, segment_append.mpr ⟨some b, hfront.update hb, hseg⟩⟩

/-- A node is taken out, and the others stay in their order. -/
theorem unlink {front rest : List (ℕ × α)} (h : Represents l (front ++ (a, v) :: rest)) :
    ∃ l', l.unlink a = some l' ∧ Represents l' (front ++ rest) := by
  obtain ⟨next, hnode, hfront, hrest⟩ := h.segment.heap_eq
  -- the two halves: the pointer to the node, and the pointer back
  obtain ⟨l₁, hl₁, hfresh₁, hfront₁, hrest₁⟩ := setNext hfront hrest h.nodup
  obtain ⟨l₂, hl₂, hfresh₂, hseg₂⟩ := setPrev hfront₁ hrest₁ h.nodup
  have hunlink : l.unlink a = some { l₂ with heap := Function.update l₂.heap a none } := by
    simp only [DList.unlink, hnode, hl₁, hl₂, Option.bind_eq_bind, Option.bind_some]
  have hnodup := h.nodup
  rw [List.map_append, List.map_cons, List.nodup_middle, List.nodup_cons] at hnodup
  have hsubset : ∀ c ∈ front ++ rest, c ∈ front ++ (a, v) :: rest := fun c hc => by
    simp only [List.mem_append, List.mem_cons] at hc ⊢
    exact hc.imp_right .inr
  -- the node that is freed is not on the list any more
  refine ⟨_, hunlink, hseg₂.update ?_, ?_, fun c hc => ?_⟩
  · rw [List.map_append]
    exact hnodup.1
  · rw [List.map_append]
    exact hnodup.2
  · exact (h.allocated c (hsubset c hc)).trans_eq (hfresh₂.trans hfresh₁).symm

end Represents

end LinkedList

end OSLab
