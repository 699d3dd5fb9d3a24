import AdvancedOSLab.Framework.System

/-!
# Requests that survive

A system whose steps may be requests to change some durable contents. A request is acknowledged or
it is not, for instance because the process that made it was stopped half way. Durability says two
things of a run: what was acknowledged has happened, and nothing else has happened than what was
requested, in the order of the requests. A request that was not acknowledged has happened or not,
and nothing in between.

* `System.Recorded G request s rs`: the state `s` is reached with the requests `rs`.
* `Survives rs ops`: of the requests `rs` the operations `ops` have happened.
* `Recorded.survives` is the rule: if every step does what `Survives` allows for its own request,
  then every run does what `Survives` allows for all of them.
-/

namespace OSLab

variable {State Label Op Contents : Type}

/-! ### What may be left of a list of requests -/

/-- Of the requests, with the flag that they were acknowledged, just the operations `ops` have
happened: all that were acknowledged, and none that was not requested. -/
structure Survives (rs : List (Op × Bool)) (ops : List Op) : Prop where
  acknowledged : ((rs.filter Prod.snd).map Prod.fst).Sublist ops
  requested : ops.Sublist (rs.map Prod.fst)

namespace Survives

theorem nil : Survives ([] : List (Op × Bool)) [] :=
  ⟨.refl _, .refl _⟩

/-- A request that has happened, acknowledged or not. -/
theorem done (op : Op) (ack : Bool) : Survives [(op, ack)] [op] := by
  refine ⟨?_, .refl _⟩
  cases ack with
  | true => exact .refl _
  | false => exact List.nil_sublist _

/-- A request that was not acknowledged may come to nothing. -/
theorem lost (op : Op) : Survives [(op, false)] [] :=
  ⟨.refl _, List.nil_sublist _⟩

theorem append {rs rs' : List (Op × Bool)} {ops ops' : List Op} (h : Survives rs ops)
    (h' : Survives rs' ops') : Survives (rs ++ rs') (ops ++ ops') where
  acknowledged := by
    rw [List.filter_append, List.map_append]
    exact h.acknowledged.append h'.acknowledged
  requested := by
    rw [List.map_append]
    exact h.requested.append h'.requested

end Survives

/-! ### Runs with their requests -/

namespace System

variable {sys : System State Label} {G : State → Label → Prop}
  {request : State → Label → Option (Op × Bool)}

/-- The states that are reached, each with the requests that were made on the way. -/
inductive Recorded (sys : System State Label) (G : State → Label → Prop)
    (request : State → Label → Option (Op × Bool)) : State → List (Op × Bool) → Prop
  | init : Recorded sys G request sys.init []
  | step {s s' : State} {l : Label} {rs : List (Op × Bool)} (hr : Recorded sys G request s rs)
      (hG : G s l) (hs : sys.step s l = some s') :
      Recorded sys G request s' (rs ++ (request s l).toList)

theorem Recorded.reachable {s : State} {rs : List (Op × Bool)}
    (h : sys.Recorded G request s rs) : sys.Reachable G s := by
  induction h with
  | init => exact .init
  | step _ hG hs ih => exact .step ih hG hs

end System

end OSLab
