import Mathlib.Data.List.Rotate
import Mathlib.Data.List.FinRange
import Mathlib.Data.List.Pairwise
import Mathlib.Logic.Function.Basic

/-!
# Round robin

In a round robin the elements wait in a queue. The one at the head is served and goes to the end,
so that all of them have their turn before any has its next one.

* `RoundRobin α` is such a queue with the number of times that each element has been served. The
  numbers do not decrease along the queue and differ by at most one; this is a field of the
  structure, and `RoundRobin.serve` keeps it. `RoundRobin.served_le_succ` is what it is for: no
  element is ever ahead of another by more than one turn.
* Programs rarely keep the queue. They keep a cursor into a circle of `n` places, of which some take
  part, and look for the next one behind the cursor. `behind n c` is the circle as seen from the
  cursor, and `waiting p c` the places in it that take part. `waiting_of_find` says that such a
  search is a round robin: the place that it finds is the head of the queue, and with the cursor
  there, it is at the end.
-/

namespace OSLab

/-- The elements in the order in which they will be served, and how often each has been. -/
structure RoundRobin (α : Type) where
  queue : List α
  served : α → ℕ
  nodup : queue.Nodup
  /-- Who has a turn later has had at least as many, and at most one more. -/
  fair : queue.Pairwise fun a b => served a ≤ served b ∧ served b ≤ served a + 1

namespace RoundRobin

variable {α : Type} {a b : α} {queue rest : List α}

/-- A queue in which nobody has been served. -/
def start (queue : List α) (hnodup : queue.Nodup) : RoundRobin α where
  queue := queue
  served _ := 0
  nodup := hnodup
  fair := List.pairwise_of_forall fun _ _ => ⟨le_rfl, Nat.zero_le 1⟩

/-- The head of the queue is served. -/
def serve [DecidableEq α] (r : RoundRobin α) (a : α) (rest : List α) (h : r.queue = a :: rest) :
    RoundRobin α where
  queue := rest ++ [a]
  served := Function.update r.served a (r.served a + 1)
  nodup := List.nodup_append_comm.mp (show (a :: rest).Nodup from h ▸ r.nodup)
  fair := by
    obtain ⟨hhead, hrest⟩ := List.pairwise_cons.mp (h ▸ r.fair)
    have hne : ∀ b ∈ rest, b ≠ a := fun b hb heq =>
      (List.nodup_cons.mp (h ▸ r.nodup)).1 (heq ▸ hb)
    refine List.pairwise_append.mpr ⟨hrest.imp_of_mem ?_, List.pairwise_singleton _ a, ?_⟩
    · intro b c hb hc hbc
      rwa [Function.update_of_ne (hne b hb), Function.update_of_ne (hne c hc)]
    · -- the others were not behind the head, so none is ahead of it now
      intro b hb c hc
      obtain rfl := List.mem_singleton.mp hc
      rw [Function.update_self, Function.update_of_ne (hne b hb)]
      exact ⟨(hhead b hb).2, Nat.succ_le_succ (hhead b hb).1⟩

/-- **A round robin is balanced.** No element has been served more than once more than another. -/
theorem served_le_succ (r : RoundRobin α) (ha : a ∈ r.queue) (hb : b ∈ r.queue) :
    r.served a ≤ r.served b + 1 := by
  let Close (a b : α) : Prop := r.served a ≤ r.served b + 1 ∧ r.served b ≤ r.served a + 1
  have : Std.Symm Close := ⟨fun _ _ h => h.symm⟩
  have hclose : r.queue.Pairwise Close := r.fair.imp fun h => ⟨Nat.le_succ_of_le h.1, h.2⟩
  exact (hclose.forall_of_forall (fun _ _ => ⟨Nat.le_succ _, Nat.le_succ _⟩) ha hb).1

/-! ### A cursor in a circle -/

variable {n c : ℕ} {p q : Fin n → Bool} {i : Fin n}

/-- The `n` places of a circle in the order in which they follow the place `c`, which comes last. -/
def behind (n c : ℕ) : List (Fin n) := (List.finRange n).rotate (c + 1)

/-- The places behind `c` that take part. -/
def waiting (p : Fin n → Bool) (c : ℕ) : List (Fin n) := (behind n c).filter p

@[simp] theorem length_behind (n c : ℕ) : (behind n c).length = n := by
  rw [behind, List.length_rotate, List.length_finRange]

theorem mem_behind (c : ℕ) (i : Fin n) : i ∈ behind n c :=
  List.mem_rotate.mpr (List.mem_finRange i)

theorem nodup_behind (n c : ℕ) : (behind n c).Nodup :=
  List.nodup_rotate.mpr (List.nodup_finRange n)

theorem val_getElem_behind {d : ℕ} (hd : d < (behind n c).length) :
    ((behind n c)[d] : ℕ) = (c + 1 + d) % n := by
  simp only [behind, List.getElem_rotate, List.getElem_finRange, List.length_finRange,
    Fin.val_cast, Nat.add_comm d]

/-- Moving the cursor to a place turns the circle until the place comes last. -/
theorem behind_of_append {before after : List (Fin n)}
    (h : behind n c = before ++ i :: after) : behind n i = after ++ (before ++ [i]) := by
  have hd : before.length < (behind n c).length := by rw [h]; simp
  have hi : (i : ℕ) = (c + 1 + before.length) % n := by
    have hget : (behind n c)[before.length] = i := by simp [h]
    rw [← hget, val_getElem_behind hd]
  calc behind n i = (List.finRange n).rotate (i + 1) := rfl
    _ = (List.finRange n).rotate (c + 1 + (before.length + 1)) := by
      rw [← List.rotate_mod, ← List.rotate_mod _ (c + 1 + (before.length + 1)), hi,
        List.length_finRange, Nat.mod_add_mod, Nat.add_assoc]
    _ = (behind n c).rotate (before ++ [i]).length := by
      rw [behind, List.rotate_rotate, List.length_append, List.length_singleton]
    _ = after ++ (before ++ [i]) := by
      rw [h, List.append_cons, List.rotate_append_length_eq]

/-- One turn of a search moves the cursor by one place. -/
theorem behind_eq_cons (hi : (i : ℕ) = (c + 1) % n) :
    ∃ rest, behind n c = i :: rest ∧ behind n i = rest ++ [i] := by
  have hpos : 0 < (behind n c).length := by
    rw [length_behind]
    exact i.pos
  obtain ⟨j, rest, hcons⟩ := List.exists_cons_of_length_pos hpos
  obtain rfl : j = i := by
    have hget : (behind n c)[0] = j := by simp [hcons]
    rw [Fin.ext_iff, ← hget, val_getElem_behind hpos, hi, Nat.add_zero]
  have hnext : behind n j = rest ++ ([] ++ [j]) := behind_of_append hcons
  exact ⟨rest, hcons, hnext⟩

theorem mem_waiting : i ∈ waiting p c ↔ p i := by
  simp [waiting, mem_behind]

theorem nodup_waiting (p : Fin n → Bool) (c : ℕ) : (waiting p c).Nodup :=
  (nodup_behind n c).filter p

/-- **A search behind a cursor is a round robin.** It finds the place that waits at the head of the
queue; when the cursor is set to this place, it waits at the end. -/
theorem waiting_of_find (h : (behind n c).find? p = some i) :
    ∃ rest, waiting p c = i :: rest ∧ waiting p i = rest ++ [i] := by
  obtain ⟨hp, before, after, hcut, hbefore⟩ := List.find?_eq_some_iff_append.mp h
  -- what the search passes over takes no part
  have hskip : before.filter p = [] :=
    List.filter_eq_nil_iff.mpr fun j hj => by simpa using hbefore j hj
  refine ⟨after.filter p, ?_, ?_⟩
  · rw [waiting, hcut, List.filter_append, hskip, List.filter_cons_of_pos hp, List.nil_append]
  · rw [waiting, behind_of_append hcut, List.filter_append, List.filter_append, hskip,
      List.filter_cons_of_pos hp, List.filter_nil, List.nil_append]

end RoundRobin

end OSLab
