import Mathlib.Data.List.Nodup
import Mathlib.Data.List.Pairwise

/-!
# Linearizable histories

A history is the list of the calls that the clients of a shared object have made so far, each with
the time of its invocation and, if it has returned, its result and the time of its return. What the
object is for is a function `answer ops op`: what `op` returns if the operations `ops` were executed
before it, one after the other.

`Linearization answer h order` says that `order` explains `h`: it lists calls of `h` by their
positions, all calls that have returned among them, no call stands in front of one that had returned
before it was invoked, and every result is the one that the calls in front of it lead to. A call
that is still under way may or may not stand in the order.

An object whose operations take effect when they return is linearized in the order of the returns.
The rules for this case are `Linearization.invoke` and `Linearization.respond`: the order stays as
it is when a call is invoked, and grows at its end by the call that returns.
-/

namespace OSLab

variable {Op Result : Type}

/-- A call of a history, with the result and the time of its return if it has returned. -/
structure HistoryCall (Op Result : Type) where
  op : Op
  invoked : ℕ
  returned : Option (Result × ℕ)

/-- The call had returned when the other one was invoked. -/
def HistoryCall.Precedes (c d : HistoryCall Op Result) : Prop :=
  ∃ r t, c.returned = some (r, t) ∧ t < d.invoked

/-- The operations of the calls at the given positions. -/
def opsAt (h : List (HistoryCall Op Result)) (order : List ℕ) : List Op :=
  order.filterMap fun i => h[i]?.map HistoryCall.op

/-- The order explains the history. -/
structure Linearization (answer : List Op → Op → Result) (h : List (HistoryCall Op Result))
    (order : List ℕ) : Prop where
  nodup : order.Nodup
  called : ∀ i ∈ order, i < h.length
  complete : ∀ i c, h[i]? = some c → c.returned.isSome → i ∈ order
  realTime : order.Pairwise fun i j =>
    ∀ c d, h[i]? = some c → h[j]? = some d → ¬ d.Precedes c
  legal : ∀ before i after, order = before ++ i :: after →
    ∀ c r t, h[i]? = some c → c.returned = some (r, t) → r = answer (opsAt h before) c.op

/-- Some order explains the history. -/
def Linearizable (answer : List Op → Op → Result) (h : List (HistoryCall Op Result)) : Prop :=
  ∃ order, Linearization answer h order

section Ops

variable {h h' : List (HistoryCall Op Result)} {order : List ℕ}

theorem opsAt_snoc {i : ℕ} {c : HistoryCall Op Result} (hi : h[i]? = some c) :
    opsAt h (order ++ [i]) = opsAt h order ++ [c.op] := by
  simp [opsAt, hi]

/-- The operations depend on the calls of the order only. -/
theorem opsAt_congr (hsame : ∀ i ∈ order, h'[i]? = h[i]?) : opsAt h' order = opsAt h order :=
  List.filterMap_congr fun i hi => by rw [hsame i hi]

/-- The operation of a call does not change when it returns. -/
theorem opsAt_set {i : ℕ} {c : HistoryCall Op Result} (hi : h[i]? = some c)
    (returned : Option (Result × ℕ)) :
    opsAt (h.set i { c with returned := returned }) order = opsAt h order := by
  refine List.filterMap_congr fun j _ => ?_
  by_cases hj : i = j
  · subst hj
    rw [List.getElem?_set_self (List.getElem?_eq_some_iff.mp hi).1, hi]
    rfl
  · rw [List.getElem?_set_ne hj]

theorem mem_of_mem_opsAt {op : Op} (hop : op ∈ opsAt h order) :
    ∃ i ∈ order, ∃ c, h[i]? = some c ∧ c.op = op := by
  obtain ⟨i, hi, hcall⟩ := List.mem_filterMap.mp hop
  obtain ⟨c, hc, rfl⟩ := Option.map_eq_some_iff.mp hcall
  exact ⟨i, hi, c, hc, rfl⟩

end Ops

namespace Linearization

variable {answer : List Op → Op → Result} {h h' : List (HistoryCall Op Result)} {order : List ℕ}

theorem nil : Linearization answer [] [] where
  nodup := List.nodup_nil
  called := by simp
  complete := by simp
  realTime := List.Pairwise.nil
  legal := by simp

/-- Another history with the same calls in the order, and no further returns. -/
theorem congr (hlin : Linearization answer h order) (hsame : ∀ i ∈ order, h'[i]? = h[i]?)
    (hreturned : ∀ (i : ℕ) (c : HistoryCall Op Result), h'[i]? = some c → c.returned.isSome →
      h[i]? = some c) : Linearization answer h' order where
  nodup := hlin.nodup
  -- the calls of the order are in the new history too, so it is long enough
  called i hi := by
    have hlt := hlin.called i hi
    have hget := hsame i hi
    rw [List.getElem?_eq_getElem hlt] at hget
    exact (List.getElem?_eq_some_iff.mp hget).1
  complete i c hc hret := hlin.complete i c (hreturned i c hc hret) hret
  realTime := by
    refine hlin.realTime.imp_of_mem fun hi hj hpair c d hc hd => ?_
    rw [hsame _ hi] at hc
    rw [hsame _ hj] at hd
    exact hpair c d hc hd
  -- what is answered depends on the calls in front only, and these are the same
  legal before i after horder c r t hc hret := by
    have hbefore : ∀ j ∈ before, h'[j]? = h[j]? := fun j hj =>
      hsame j (horder ▸ List.mem_append_left _ hj)
    rw [hsame i (horder ▸ List.mem_append_right _ List.mem_cons_self)] at hc
    rw [opsAt_congr hbefore]
    exact hlin.legal before i after horder c r t hc hret

/-- **Invocation.** -/
theorem invoke (hlin : Linearization answer h order) (op : Op) (now : ℕ) :
    Linearization answer (h ++ [⟨op, now, none⟩]) order := by
  refine hlin.congr (fun i hi => List.getElem?_append_left (hlin.called i hi)) fun i c hc hret => ?_
  rw [List.getElem?_append] at hc
  split at hc
  · exact hc
  · -- the new call has not returned
    rw [List.getElem?_singleton] at hc
    split at hc
    · obtain rfl := Option.some.inj hc
      exact absurd hret (by simp)
    · exact absurd hc (by simp)

/-- **Return.** A call that is not in the order yet returns what the order leads to, at a time at
which every call of the history has been invoked. -/
theorem respond (hlin : Linearization answer h order) {i now : ℕ} {c : HistoryCall Op Result}
    {r : Result} (hi : h[i]? = some c) (hnew : i ∉ order) (hpast : ∀ d ∈ h, d.invoked ≤ now)
    (hr : r = answer (opsAt h order) c.op) :
    Linearization answer (h.set i { c with returned := some (r, now) }) (order ++ [i]) := by
  have hlt : i < h.length := (List.getElem?_eq_some_iff.mp hi).1
  have hself := List.getElem?_set_self (a := { c with returned := some (r, now) }) hlt
  have hother : ∀ j ∈ order, (h.set i { c with returned := some (r, now) })[j]? = h[j]? :=
    fun j hj => List.getElem?_set_ne (by rintro rfl; exact hnew hj)
  refine ⟨?_, fun j hj => ?_, fun j d hd hret => ?_, ?_, ?_⟩
  · exact List.nodup_append.mpr ⟨hlin.nodup, List.nodup_singleton i, fun j hj k hk hjk =>
      hnew (List.mem_singleton.mp hk ▸ hjk ▸ hj)⟩
  · rw [List.length_set]
    rcases List.mem_append.mp hj with hj | hj
    · exact hlin.called j hj
    · exact List.mem_singleton.mp hj ▸ hlt
  · by_cases hij : i = j
    · exact List.mem_append_right _ (List.mem_singleton.mpr hij.symm)
    · rw [List.getElem?_set_ne hij] at hd
      exact List.mem_append_left _ (hlin.complete j d hd hret)
  · -- the call that returns now did so after every invocation
    refine List.pairwise_append.mpr ⟨?_, List.pairwise_singleton _ _, fun j hj k hk d e hd he => ?_⟩
    · refine hlin.realTime.imp_of_mem fun hj hk hpair d e hd he => ?_
      rw [hother _ hj] at hd
      rw [hother _ hk] at he
      exact hpair d e hd he
    · obtain rfl := List.mem_singleton.mp hk
      rw [hself] at he
      rw [hother j hj] at hd
      obtain rfl := Option.some.inj he
      rintro ⟨r', t, hret, hlt⟩
      obtain ⟨rfl, rfl⟩ := Prod.mk.inj (Option.some.inj hret)
      exact absurd (hpast d (List.mem_of_getElem? hd)) (Nat.not_le.mpr hlt)
  · intro before j after horder d r' t hd hret
    rw [opsAt_set hi]
    rcases List.eq_nil_or_concat after with rfl | ⟨after, k, rfl⟩
    · -- it is the last one of the order
      obtain ⟨rfl, hij⟩ := List.append_inj' horder rfl
      obtain rfl := List.singleton_inj.mp hij
      rw [hself] at hd
      obtain rfl := Option.some.inj hd
      obtain ⟨rfl, -⟩ := Prod.mk.inj (Option.some.inj hret)
      exact hr
    · rw [List.concat_eq_append, ← List.cons_append, ← List.append_assoc] at horder
      obtain ⟨horder, -⟩ := List.append_inj' horder rfl
      rw [hother j (horder ▸ List.mem_append_right _ List.mem_cons_self)] at hd
      exact hlin.legal before j after horder d r' t hd hret

end Linearization

end OSLab
