import AdvancedOSLab.Framework.CriticalSection
import Mathlib.Data.List.Nodup
import Mathlib.Logic.Function.Basic

/-!
# Tail queues

The `TAILQ` of the BSD queue macros. A queue has a head with a pointer to its first element and
the address of the last link; an element has a pointer to the next element and the *address of the
link that points to it*. With these addresses the two operations need no case for the first and
hardly one for the last element: `*(head)->tqh_last = elm` writes through an address that is either
that of the head's own pointer or that of the `next` pointer of some element.

An element has one pair of pointers only, so it can be in one queue at a time. Any number of queues
share the elements, and the memory of all of them is one value, `Links`:

* `Field` is the address of a link, `Links.target` is what is stored there.
* `insertTail` and `remove` are the macros that write the links. `first` and `isEmpty` read a
  head, and `walk` follows the links as `TAILQ_FOREACH` does.

`Represents links queues` says that for every head `q` the links spell out the list `queues q`, in
both directions, and that no element is in two of the lists. `Represents.insertTail` and
`Represents.remove` are the rules for the operations: one list changes, and *all* lists are
represented afterwards.
-/

namespace OSLab

namespace TailQueue

variable {ι α : Type}

/-- The address of a link: `tqh_first` of a head or `tqe_next` of an element. -/
inductive Field (ι α : Type) where
  | first (q : ι)
  | next (x : α)
deriving DecidableEq

/-- The pointers of all heads and all elements. -/
structure Links (ι α : Type) where
  /-- What a link points to: `tqh_first` and `tqe_next`. -/
  target : Field ι α → Option α
  /-- `tqh_last`: the address of the last link. -/
  last : ι → Field ι α
  /-- `tqe_prev`: the address of the link that points to the element. -/
  prev : α → Field ι α

/-! ### The macros -/

/-- After `TAILQ_INIT` on every head. The elements were never linked; what their pointers back
contain does not matter. -/
def Links.initial (prev : α → Field ι α) : Links ι α where
  target _ := none
  last q := .first q
  prev := prev

section Macros

variable [DecidableEq ι] [DecidableEq α]

namespace Links

/-- `TAILQ_FIRST`. -/
def first (links : Links ι α) (q : ι) : Option α := links.target (.first q)

/-- `TAILQ_EMPTY`. -/
def isEmpty (links : Links ι α) (q : ι) : Bool := (links.first q).isNone

/-- `TAILQ_INSERT_TAIL`. -/
def insertTail (links : Links ι α) (q : ι) (x : α) : Links ι α :=
  { target := Function.update (Function.update links.target (.next x) none) (links.last q) (some x)
    prev := Function.update links.prev x (links.last q)
    last := Function.update links.last q (.next x) }

/-- `TAILQ_REMOVE`. -/
def remove (links : Links ι α) (q : ι) (x : α) : Links ι α :=
  let links' :=
    match links.target (.next x) with
    | some y => { links with prev := Function.update links.prev y (links.prev x) }
    | none => { links with last := Function.update links.last q (links.prev x) }
  { links' with target := Function.update links.target (links.prev x) (links.target (.next x)) }

/-- The statements of `TAILQ_INSERT_TAIL`. -/
def insertTailBody (q : ι) (x : α) : Body (Links ι α) :=
  [fun links => some { links with target := Function.update links.target (.next x) none },
    fun links => some { links with prev := Function.update links.prev x (links.last q) },
    fun links => some { links with target := Function.update links.target (links.last q) (some x) },
    fun links => some { links with last := Function.update links.last q (.next x) }]

theorem runBody_insertTailBody (links : Links ι α) (q : ι) (x : α) :
    runBody (insertTailBody q x) links = some (links.insertTail q x) := rfl

/-- The first statement of `TAILQ_REMOVE`: what follows the element points back behind it. -/
def bypassPrev (links : Links ι α) (q : ι) (x : α) : Links ι α :=
  match links.target (.next x) with
  | some y => { links with prev := Function.update links.prev y (links.prev x) }
  | none => { links with last := Function.update links.last q (links.prev x) }

/-- The second statement of `TAILQ_REMOVE`: what precedes the element points to what follows it. -/
def bypassNext (links : Links ι α) (x : α) : Links ι α :=
  { links with target := Function.update links.target (links.prev x) (links.target (.next x)) }

theorem bypassNext_bypassPrev (links : Links ι α) (q : ι) (x : α) :
    (links.bypassPrev q x).bypassNext x = links.remove q x := by
  unfold bypassPrev bypassNext remove
  cases h : links.target (.next x) with
  | none => simp [h]
  | some y =>
    -- the first statement may write the link that the second one reads, but does not change it
    have hprev : Function.update links.prev y (links.prev x) x = links.prev x := by
      by_cases hxy : x = y
      · subst hxy
        exact Function.update_self ..
      · exact Function.update_of_ne hxy ..
    simp [h, hprev]

/-- What `TAILQ_REMOVE` does to the last element. -/
theorem remove_of_none {links : Links ι α} {q : ι} {x : α} (h : links.target (.next x) = none) :
    links.remove q x =
      { links with
        target := Function.update links.target (links.prev x) none
        last := Function.update links.last q (links.prev x) } := by
  simp only [remove, h]

/-- What `TAILQ_REMOVE` does to an element that another one follows. -/
theorem remove_of_some {links : Links ι α} {q : ι} {x y : α}
    (h : links.target (.next x) = some y) :
    links.remove q x =
      { links with
        target := Function.update links.target (links.prev x) (some y)
        prev := Function.update links.prev y (links.prev x) } := by
  simp only [remove, h]

end Links

end Macros

/-- The elements that at most `fuel` turns of `TAILQ_FOREACH` visit, from a link on. -/
def walk (links : Links ι α) : ℕ → Field ι α → List α
  | 0, _ => []
  | fuel + 1, f =>
    match links.target f with
    | none => []
    | some x => x :: walk links fuel (.next x)

/-! ### Segments -/

/-- The links from `f` on spell out `xs` and end at the link `e`. -/
def Segment (links : Links ι α) : Field ι α → Field ι α → List α → Prop
  | f, e, [] => f = e
  | f, e, x :: xs => links.target f = some x ∧ links.prev x = f ∧ Segment links (.next x) e xs

/-- The links of a list that starts at `f`; the last one is where it ends. -/
def fields (f : Field ι α) (xs : List α) : List (Field ι α) := f :: xs.map .next

variable {links links' : Links ι α} {f e : Field ι α} {xs ys : List α} {x y : α} {q r : ι}

theorem fields_append : fields f (xs ++ x :: ys) = fields f xs ++ fields (.next x) ys := by
  simp [fields]

/-- Two segments one after the other. -/
theorem segment_append : Segment links f e (xs ++ ys) ↔
    ∃ m, Segment links f m xs ∧ Segment links m e ys := by
  induction xs generalizing f with
  | nil => simp [Segment]
  | cons x xs ih =>
    simp only [List.cons_append, Segment, ih]
    constructor
    · rintro ⟨htarget, hprev, m, hxs, hys⟩
      exact ⟨m, ⟨htarget, hprev, hxs⟩, hys⟩
    · rintro ⟨m, ⟨htarget, hprev, hxs⟩, hys⟩
      exact ⟨htarget, hprev, m, hxs, hys⟩

/-- A segment ends at one of its links. -/
theorem Segment.end_mem (h : Segment links f e xs) : e ∈ fields f xs := by
  induction xs generalizing f with
  | nil => exact List.mem_singleton.mpr h.symm
  | cons x xs ih => exact List.mem_cons_of_mem f (ih h.2.2)

/-- A segment does not depend on what its last link points to, only on the other ones. -/
theorem Segment.congr (h : Segment links f e xs) (hnodup : (fields f xs).Nodup)
    (htarget : ∀ g ∈ fields f xs, g ≠ e → links'.target g = links.target g)
    (hprev : ∀ x ∈ xs, links'.prev x = links.prev x) : Segment links' f e xs := by
  induction xs generalizing f with
  | nil => exact h
  | cons x xs ih =>
    obtain ⟨hf, hx, hrest⟩ := h
    obtain ⟨hnotMem, hnodup⟩ := List.nodup_cons.mp hnodup
    -- the first link is not the last one
    have hne : f ≠ e := fun heq => hnotMem (heq ▸ hrest.end_mem)
    refine ⟨(htarget f List.mem_cons_self hne).trans hf,
      (hprev x List.mem_cons_self).trans hx, ih hrest hnodup ?_ ?_⟩
    · exact fun g hg => htarget g (List.mem_cons_of_mem f hg)
    · exact fun y hy => hprev y (List.mem_cons_of_mem x hy)

/-- What `TAILQ_FOREACH` visits. -/
theorem Segment.walk {fuel : ℕ} (h : Segment links f e xs) (hend : links.target e = none)
    (hfuel : xs.length < fuel) : walk links fuel f = xs := by
  induction xs generalizing f fuel with
  | nil =>
    obtain ⟨fuel, rfl⟩ := Nat.exists_eq_succ_of_ne_zero (Nat.ne_of_gt hfuel)
    obtain rfl : f = e := h
    simp [TailQueue.walk, hend]
  | cons x xs ih =>
    obtain ⟨fuel, rfl⟩ := Nat.exists_eq_succ_of_ne_zero (Nat.ne_of_gt (Nat.zero_lt_of_lt hfuel))
    obtain ⟨hf, -, hrest⟩ := h
    rw [TailQueue.walk, hf]
    exact congrArg (x :: ·) (ih hrest (Nat.lt_of_succ_lt_succ hfuel))

/-! ### What the links represent -/

/-- Every queue is spelled out by its links, and no element is linked twice. -/
structure Represents (links : Links ι α) (queues : ι → List α) : Prop where
  segment : ∀ q, Segment links (.first q) (links.last q) (queues q)
  target_last : ∀ q, links.target (links.last q) = none
  nodup : ∀ q, (queues q).Nodup
  eq_of_mem : ∀ {x q r}, x ∈ queues q → x ∈ queues r → q = r

namespace Represents

variable {queues : ι → List α}

theorem nodup_fields (h : Represents links queues) (q : ι) :
    (fields (.first q) (queues q)).Nodup := by
  refine List.nodup_cons.mpr ⟨by simp, (List.nodup_map_iff ?_).mpr (h.nodup q)⟩
  exact fun x y hxy => Field.next.inj hxy

/-- A link belongs to one queue only. -/
theorem eq_of_mem_fields (h : Represents links queues) {g : Field ι α}
    (hq : g ∈ fields (.first q) (queues q)) (hr : g ∈ fields (.first r) (queues r)) : q = r := by
  cases g with
  | first s =>
    have hs : ∀ {t}, Field.first s ∈ fields (.first t) (queues t) → s = t := by
      intro t ht
      simpa [fields] using ht
    exact (hs hq).symm.trans (hs hr)
  | next x =>
    have hx : ∀ {t}, Field.next x ∈ fields (.first t) (queues t) → x ∈ queues t := by
      intro t ht
      simpa [fields] using ht
    exact h.eq_of_mem (hx hq) (hx hr)

/-- The `next` link of an element that is in no queue belongs to none. -/
theorem next_notMem (hx : ∀ r, x ∉ queues r) (q : ι) :
    Field.next x ∉ fields (.first q) (queues q) := by
  simpa [fields] using hx q

theorem last_mem (h : Represents links queues) (q : ι) :
    links.last q ∈ fields (.first q) (queues q) :=
  (h.segment q).end_mem

/-- `TAILQ_FIRST` is the head of the list. -/
theorem first_eq (h : Represents links queues) (q : ι) : links.first q = (queues q).head? := by
  have hseg := h.segment q
  cases hqueue : queues q with
  | nil =>
    rw [hqueue] at hseg
    rw [Links.first, show Field.first q = links.last q from hseg, h.target_last]
    rfl
  | cons x xs =>
    rw [hqueue] at hseg
    exact hseg.1

theorem isEmpty_iff (h : Represents links queues) (q : ι) : links.isEmpty q ↔ queues q = [] := by
  rw [Links.isEmpty, h.first_eq, Option.isNone_iff_eq_none, List.head?_eq_none_iff]

/-- `TAILQ_FOREACH` visits the elements of the list in their order. -/
theorem walk_eq (h : Represents links queues) {fuel : ℕ} (hfuel : (queues q).length < fuel) :
    walk links fuel (.first q) = queues q :=
  (h.segment q).walk (h.target_last q) hfuel

/-- Links that agree on what belongs to a queue spell out the same list. -/
theorem segment_congr (h : Represents links queues) (links' : Links ι α) (q : ι)
    (htarget : ∀ g ∈ fields (.first q) (queues q), links'.target g = links.target g)
    (hprev : ∀ x ∈ queues q, links'.prev x = links.prev x) (hlast : links'.last q = links.last q) :
    Segment links' (.first q) (links'.last q) (queues q) ∧
      links'.target (links'.last q) = none := by
  rw [hlast]
  refine ⟨(h.segment q).congr (h.nodup_fields q) (fun g hg _ => htarget g hg) hprev, ?_⟩
  rw [htarget _ (h.last_mem q), h.target_last]

/-- It is enough to look at one queue, if the links of the others are the same. -/
theorem of_update [DecidableEq ι] (h : Represents links queues) (q : ι) (xs : List α)
    (hseg : Segment links' (.first q) (links'.last q) xs)
    (hend : links'.target (links'.last q) = none) (hnodup : xs.Nodup)
    (hfresh : ∀ x ∈ xs, ∀ r, r ≠ q → x ∉ queues r)
    (hother : ∀ r, r ≠ q → (∀ g ∈ fields (.first r) (queues r), links'.target g = links.target g) ∧
      (∀ x ∈ queues r, links'.prev x = links.prev x) ∧ links'.last r = links.last r) :
    Represents links' (Function.update queues q xs) := by
  have hcongr : ∀ r, r ≠ q → _ := fun r hr =>
    h.segment_congr links' r (hother r hr).1 (hother r hr).2.1 (hother r hr).2.2
  -- each clause is the hypothesis at `q`, and the old one at the other queues
  refine ⟨fun r => ?_, fun r => ?_, fun r => ?_, fun {x r s} hr hs => ?_⟩
  · by_cases hr : r = q
    · subst hr
      rwa [Function.update_self]
    · rw [Function.update_of_ne hr]
      exact (hcongr r hr).1
  · by_cases hr : r = q
    · subst hr
      exact hend
    · exact (hcongr r hr).2
  · by_cases hr : r = q
    · subst hr
      rwa [Function.update_self]
    · rw [Function.update_of_ne hr]
      exact h.nodup r
  -- no element is in two queues: those of `q` are in none of the others
  · by_cases hrq : r = q
    · by_cases hsq : s = q
      · exact hrq.trans hsq.symm
      · subst hrq
        rw [Function.update_self] at hr
        rw [Function.update_of_ne hsq] at hs
        exact absurd hs (hfresh x hr s hsq)
    · rw [Function.update_of_ne hrq] at hr
      by_cases hsq : s = q
      · subst hsq
        rw [Function.update_self] at hs
        exact absurd hr (hfresh x hs r hrq)
      · rw [Function.update_of_ne hsq] at hs
        exact h.eq_of_mem hr hs

theorem initial (prev : α → Field ι α) : Represents (Links.initial prev) fun _ => [] where
  segment _ := rfl
  target_last _ := rfl
  nodup _ := List.nodup_nil
  eq_of_mem hx := absurd hx (by simp)

/-- A queue that is cut at one of its elements: what is in front of it ends at the link that points
to it, and what follows begins at its own link. -/
theorem segment_of_append (h : Represents links queues) (hqueue : queues q = xs ++ x :: ys) :
    Segment links (.first q) (links.prev x) xs ∧ Segment links (.next x) (links.last q) ys := by
  have hseg := h.segment q
  rw [hqueue] at hseg
  obtain ⟨m, hxs, -, rfl, hys⟩ := segment_append.mp hseg
  exact ⟨hxs, hys⟩

/-- The links in front of an element and those behind it are different. -/
theorem nodup_fields_append (h : Represents links queues) (hqueue : queues q = xs ++ x :: ys) :
    (fields (.first q) xs).Nodup ∧ (fields (.next x : Field ι α) ys).Nodup ∧
      ∀ g ∈ fields (.first q) xs, g ∉ fields (.next x) ys := by
  have hnodup := h.nodup_fields q
  rw [hqueue, fields_append, List.nodup_append] at hnodup
  exact ⟨hnodup.1, hnodup.2.1, fun g hg hg' => hnodup.2.2 g hg g hg' rfl⟩

/-- Removing the last element. -/
theorem segment_remove_last [DecidableEq ι] [DecidableEq α] (h : Represents links queues)
    (hqueue : queues q = xs ++ [x]) :
    Segment (links.remove q x) (.first q) ((links.remove q x).last q) xs ∧
      (links.remove q x).target ((links.remove q x).last q) = none := by
  obtain ⟨hxs, hys⟩ := h.segment_of_append hqueue
  have hnone : links.target (.next x) = none := by
    rw [show Field.next x = links.last q from hys, h.target_last]
  rw [Links.remove_of_none hnone]
  simp only [Function.update_self]
  refine ⟨hxs.congr (h.nodup_fields_append hqueue).1 (fun g _ hg => ?_) fun _ _ => rfl, trivial⟩
  exact Function.update_of_ne hg _ _

/-- Removing an element that another one follows. -/
theorem segment_remove_next [DecidableEq ι] [DecidableEq α] (h : Represents links queues)
    (hqueue : queues q = xs ++ x :: y :: ys) :
    Segment (links.remove q x) (.first q) ((links.remove q x).last q) (xs ++ y :: ys) ∧
      (links.remove q x).target ((links.remove q x).last q) = none := by
  obtain ⟨hxs, hsome, -, hys⟩ := h.segment_of_append hqueue
  obtain ⟨hfront, hback, hdisjoint⟩ := h.nodup_fields_append hqueue
  have hmem := hxs.end_mem
  have hnodup := h.nodup q
  rw [hqueue, List.nodup_append] at hnodup
  have hnodup' := (List.nodup_cons.mp (List.nodup_cons.mp hnodup.2.1).2).1
  have htarget : ∀ g, g ≠ links.prev x →
      Function.update links.target (links.prev x) (some y) g = links.target g :=
    fun g hg => Function.update_of_ne hg _ _
  -- nothing behind the element is the link that is redirected
  have hbehind : ∀ g ∈ fields (.next y) ys, g ≠ links.prev x := by
    rintro g hg rfl
    exact hdisjoint _ hmem (List.mem_cons_of_mem _ hg)
  rw [Links.remove_of_some hsome]
  refine ⟨segment_append.mpr ⟨links.prev x, ?_, ?_, ?_, ?_⟩, ?_⟩
  · refine hxs.congr hfront (fun g _ hg => htarget g hg) fun z hz => Function.update_of_ne ?_ _ _
    rintro rfl
    exact hnodup.2.2 z hz z (by simp) rfl
  · exact Function.update_self ..
  · exact Function.update_self ..
  · refine hys.congr (List.nodup_cons.mp hback).2 (fun g hg _ => htarget g (hbehind g hg))
      fun z hz => Function.update_of_ne ?_ _ _
    rintro rfl
    exact hnodup' hz
  · exact (htarget _ (hbehind _ hys.end_mem)).trans (h.target_last q)

variable [DecidableEq ι] [DecidableEq α]

/-- An element that is in no queue is appended to one of them. -/
theorem insertTail (h : Represents links queues) (hx : ∀ r, x ∉ queues r) (q : ι) :
    Represents (links.insertTail q x) (Function.update queues q (queues q ++ [x])) := by
  have hnext : Field.next x ≠ links.last q := fun heq => next_notMem hx q (heq ▸ h.last_mem q)
  -- the links that are written: the one of the new element, and the last one of the queue
  have htarget : ∀ g, g ≠ .next x → g ≠ links.last q →
      (links.insertTail q x).target g = links.target g := by
    intro g hg hlast
    exact (Function.update_of_ne hlast _ _).trans (Function.update_of_ne hg _ _)
  have hprev : ∀ r, ∀ y ∈ queues r, (links.insertTail q x).prev y = links.prev y := by
    intro r y hy
    refine Function.update_of_ne ?_ _ _
    rintro rfl
    exact hx r hy
  have hlast : (links.insertTail q x).last q = .next x := Function.update_self ..
  have hmem : ∀ {r g}, g ∈ fields (.first r) (queues r) → g ≠ .next x := by
    rintro r g hg rfl
    exact next_notMem hx r hg
  refine h.of_update q _ ?_ ?_ ?_ ?_ fun r hr => ⟨fun g hg => ?_, hprev r, ?_⟩
  · -- the old elements, and the new one behind the link that was the last
    rw [hlast]
    refine segment_append.mpr ⟨links.last q, ?_, ?_, ?_, rfl⟩
    · exact (h.segment q).congr (h.nodup_fields q) (fun g hg => htarget g (hmem hg)) (hprev q)
    · exact Function.update_self ..
    · exact Function.update_self ..
  · rw [hlast]
    exact (Function.update_of_ne hnext _ _).trans (Function.update_self ..)
  · rw [List.nodup_append]
    refine ⟨h.nodup q, List.nodup_singleton x, fun a ha b hb hab => hx q ?_⟩
    rwa [← List.mem_singleton.mp hb, ← hab]
  · intro y hy r hr hyr
    obtain hy | hy := List.mem_append.mp hy
    · exact hr (h.eq_of_mem hyr hy)
    · exact hx r (List.mem_singleton.mp hy ▸ hyr)
  · refine htarget g (hmem hg) ?_
    rintro rfl
    exact hr (h.eq_of_mem_fields hg (h.last_mem q))
  · exact Function.update_of_ne hr _ _

/-- The other queues do not notice a removal. -/
theorem remove_other (h : Represents links queues) (hqueue : queues q = xs ++ x :: ys)
    (hr : r ≠ q) :
    (∀ g ∈ fields (.first r) (queues r), (links.remove q x).target g = links.target g) ∧
      (∀ y ∈ queues r, (links.remove q x).prev y = links.prev y) ∧
      (links.remove q x).last r = links.last r := by
  obtain ⟨hxs, hys⟩ := h.segment_of_append hqueue
  -- the one field that is written belongs to `q`
  have hmem : links.prev x ∈ fields (.first q) (queues q) := by
    rw [hqueue, fields_append]
    exact List.mem_append_left _ hxs.end_mem
  have htarget : ∀ g ∈ fields (.first r) (queues r), ∀ v,
      Function.update links.target (links.prev x) v g = links.target g := by
    intro g hg v
    refine Function.update_of_ne ?_ _ _
    rintro rfl
    exact hr (h.eq_of_mem_fields hg hmem)
  -- the last element moves the end of the queue, another one a pointer back
  cases ys with
  | nil =>
    have hnone : links.target (.next x) = none := by
      rw [show Field.next x = links.last q from hys, h.target_last]
    rw [Links.remove_of_none hnone]
    exact ⟨fun g hg => htarget g hg _, fun _ _ => rfl, Function.update_of_ne hr _ _⟩
  | cons y ys =>
    rw [Links.remove_of_some hys.1]
    refine ⟨fun g hg => htarget g hg _, fun z hz => Function.update_of_ne ?_ _ _, rfl⟩
    rintro rfl
    exact hr (h.eq_of_mem hz (hqueue ▸ by simp))

/-- An element is taken out of its queue, and the others stay in their order. -/
theorem remove (h : Represents links queues) (hx : x ∈ queues q) :
    Represents (links.remove q x) (Function.update queues q ((queues q).erase x)) := by
  obtain ⟨xs, ys, hqueue⟩ := List.append_of_mem hx
  have herase : (queues q).erase x = xs ++ ys := by
    have hnotMem : x ∉ xs := fun hmem => by
      have hnodup := h.nodup q
      rw [hqueue, List.nodup_append] at hnodup
      exact hnodup.2.2 x hmem x List.mem_cons_self rfl
    rw [hqueue, List.erase_append_right _ hnotMem, List.erase_cons_head]
  -- whether something follows the element decides what else is written
  have hseg : Segment (links.remove q x) (.first q) ((links.remove q x).last q) (xs ++ ys) ∧
      (links.remove q x).target ((links.remove q x).last q) = none := by
    cases ys with
    | nil => simpa using h.segment_remove_last hqueue
    | cons y ys => exact h.segment_remove_next hqueue
  rw [← herase] at hseg
  refine h.of_update q _ hseg.1 hseg.2 ((h.nodup q).erase x) ?_ fun r hr =>
    h.remove_other hqueue hr
  intro y hy r hr hyr
  exact hr (h.eq_of_mem hyr (List.mem_of_mem_erase hy))

end Represents

end TailQueue

end OSLab
