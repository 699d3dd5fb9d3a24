import Mathlib.Data.List.Infix
import Mathlib.Data.List.Basic
import Mathlib.Tactic.Common

/-!
# Searching, splitting and joining text

The string operations that hand-written text protocols are built from, over an
arbitrary alphabet `α`:

* `find pat s` is the position of the first occurrence of `pat` in `s`, with
  `none` in the place of C++'s `npos`. `find_eq_none_iff` reads it as substring
  containment; `find_singleton_append` locates a separator behind a field that
  does not contain it.
* `splitWith keep d s` is the ubiquitous loop that cuts `s` at each `d`, pushes
  the piece in front when `keep` accepts it, and pushes what is left at the end
  unless it is empty. `split` keeps every piece.
* `terminated d xs` writes every field followed by `d`. `split_terminated` and
  `split_dropLast_terminated` are the two round trips: with the last separator
  left in place, and with it removed.

The loop is written with an explicit number of iterations so that it computes;
`splitLoop_fuel` says that the length of the text is always enough.
-/

namespace OSLab
namespace Text

variable {α : Type} [DecidableEq α]

/-! ### Substring search -/

/-- The position of the first occurrence of `pat`, or `none`. -/
def find (pat : List α) : List α → Option ℕ
  | [] => if pat = [] then some 0 else none
  | c :: s => if pat.isPrefixOf (c :: s) then some 0 else (find pat s).map (· + 1)

/-- The first occurrence of `pat` at position `pos` or later. -/
def findFrom (pat : List α) (s : List α) (pos : ℕ) : Option ℕ :=
  (find pat (s.drop pos)).map (· + pos)

/-- The position right behind a found character. For a search that failed C++
computes `npos + 1`, which wraps around to `0`. -/
def after : Option ℕ → ℕ
  | none => 0
  | some pos => pos + 1

@[simp] theorem after_some (n : ℕ) : after (some n) = n + 1 := rfl

theorem find_cons (pat : List α) (c : α) (s : List α) :
    find pat (c :: s) = if pat.isPrefixOf (c :: s) then some 0 else (find pat s).map (· + 1) :=
  rfl

/-- A search fails exactly when the pattern is not a substring. -/
theorem find_eq_none_iff {pat s : List α} : find pat s = none ↔ ¬ pat <:+: s := by
  induction s with
  | nil =>
    rw [List.infix_nil]
    unfold find
    split
    · next h => simp [h]
    · next h => simp [h]
  | cons c s ih =>
    rw [find_cons, List.infix_cons_iff, not_or, ← ih]
    by_cases h : pat.isPrefixOf (c :: s) = true
    · simp [h, List.isPrefixOf_iff_prefix.mp h]
    · have h' : ¬ pat <+: c :: s := fun hp => h (List.isPrefixOf_iff_prefix.mpr hp)
      simp [h, h']

/-- The pattern lies inside the text. -/
theorem add_length_le_of_find {pat s : List α} {pos : ℕ} (h : find pat s = some pos) :
    pos + pat.length ≤ s.length := by
  -- on the text, as the search shifts along it
  induction s generalizing pos with
  | nil =>
    unfold find at h
    split at h
    · next hpat =>
      obtain rfl := Option.some.inj h
      simp [hpat]
    · exact absurd h (by simp)
  | cons c s ih =>
    rw [find_cons] at h
    split at h
    · next hp =>
      obtain rfl := Option.some.inj h
      rw [Nat.zero_add]
      exact (List.isPrefixOf_iff_prefix.mp hp).length_le
    · obtain ⟨pos', hpos', rfl⟩ := Option.map_eq_some_iff.mp h
      have hle := ih hpos'
      rw [List.length_cons]
      omega

/-- A text that starts with the pattern is found at position `0`. -/
theorem find_append_self (pat s : List α) : find pat (pat ++ s) = some 0 := by
  cases h : pat ++ s with
  | nil =>
    have : pat = [] := (List.append_eq_nil_iff.mp h).1
    simp [find, this]
  | cons c t =>
    rw [find_cons, ← h, if_pos (List.isPrefixOf_iff_prefix.mpr (List.prefix_append pat s))]

/-- A text without the first character of the pattern is skipped. -/
theorem find_append_of_notMem {p : α} {a : List α} (h : p ∉ a) (pat s : List α) :
    find (p :: pat) (a ++ s) = (find (p :: pat) s).map (· + a.length) := by
  induction a with
  | nil => simp
  | cons c a ih =>
    have hc : (p == c) = false := by
      have : p ≠ c := fun he => h (he ▸ List.mem_cons_self)
      simpa using this
    rw [List.cons_append, find_cons, ih fun hm => h (List.mem_cons_of_mem c hm)]
    simp only [List.isPrefixOf, hc, Bool.false_and, Bool.false_eq_true, ↓reduceIte,
      Option.map_map, List.length_cons]
    rfl

/-- A character that does not occur is not found. -/
theorem find_singleton_of_notMem {d : α} {s : List α} (h : d ∉ s) : find [d] s = none := by
  rw [find_eq_none_iff]
  intro hin
  exact h (hin.subset (List.mem_singleton.mpr rfl))

/-- The first occurrence of a separator is the one behind a field without it. -/
theorem find_singleton_append {d : α} {a : List α} (h : d ∉ a) (b : List α) :
    find [d] (a ++ d :: b) = some a.length := by
  induction a with
  | nil => simp [find_cons, List.isPrefixOf]
  | cons c a ih =>
    have hc : (d == c) = false := by
      have : d ≠ c := fun he => h (he ▸ List.mem_cons_self)
      simpa using this
    have ha : d ∉ a := fun hm => h (List.mem_cons_of_mem c hm)
    rw [List.cons_append, find_cons]
    simp [List.isPrefixOf, hc, ih ha]

/-- A found character splits the text around it, and does not occur before. -/
theorem find_singleton_eq_some {d : α} {s : List α} {n : ℕ} (h : find [d] s = some n) :
    ∃ a b, s = a ++ d :: b ∧ d ∉ a ∧ a.length = n := by
  induction s generalizing n with
  | nil => simp [find] at h
  | cons c s ih =>
    rw [find_cons] at h
    by_cases hc : d = c
    · subst hc
      simp only [List.isPrefixOf, BEq.rfl, Bool.and_self, ↓reduceIte, Option.some.injEq] at h
      exact ⟨[], s, rfl, List.not_mem_nil, h⟩
    · have hb : (d == c) = false := by simpa using hc
      simp only [List.isPrefixOf, hb, Bool.false_and, Bool.false_eq_true, ↓reduceIte,
        Option.map_eq_some_iff] at h
      obtain ⟨m, hm, rfl⟩ := h
      obtain ⟨a, b, rfl, ha, rfl⟩ := ih hm
      refine ⟨c :: a, b, rfl, ?_, rfl⟩
      simp [hc, ha]

/-- The search for the second separator starts behind the first. -/
theorem findFrom_append {d : α} {a b : List α} (h : d ∉ b) (c : List α) :
    findFrom [d] (a ++ b ++ d :: c) a.length = some (b.length + a.length) := by
  unfold findFrom
  rw [List.append_assoc, List.drop_left, find_singleton_append h]
  rfl

/-! ### The splitting loop -/

/-- `n` iterations of the loop that cuts `s` at `d`: the piece in front of each
`d` is pushed when `keep` accepts it, the rest at the end unless it is empty. -/
def splitLoop (keep : List α → Bool) (d : α) : ℕ → List α → List (List α)
  | 0, s => if s = [] then [] else [s]
  | n + 1, s =>
    match find [d] s with
    | none => if s = [] then [] else [s]
    | some pos =>
      (if keep (s.take pos) then [s.take pos] else []) ++ splitLoop keep d n (s.drop (pos + 1))

/-- The splitting loop run to its end. -/
def splitWith (keep : List α → Bool) (d : α) (s : List α) : List (List α) :=
  splitLoop keep d s.length s

/-- The splitting loop that keeps every piece. -/
def split (d : α) (s : List α) : List (List α) :=
  splitWith (fun _ => true) d s

/-- The text length bounds the number of iterations: more change nothing. -/
theorem splitLoop_fuel (keep : List α → Bool) (d : α) :
    ∀ (n m : ℕ) (s : List α), s.length ≤ n → s.length ≤ m →
      splitLoop keep d n s = splitLoop keep d m s := by
  have hnil : ∀ m, splitLoop keep d m [] = [] := by
    intro m
    cases m <;> simp [splitLoop, find]
  intro n
  induction n with
  | zero =>
    intro m s hn _
    obtain rfl : s = [] := List.length_eq_zero_iff.mp (Nat.le_zero.mp hn)
    rw [hnil, hnil]
  | succ n ih =>
    intro m s hn hm
    cases m with
    | zero =>
      obtain rfl : s = [] := List.length_eq_zero_iff.mp (Nat.le_zero.mp hm)
      rw [hnil, hnil]
    | succ m =>
      unfold splitLoop
      cases hf : find [d] s with
      | none => rfl
      | some pos =>
        -- at least the separator is consumed, so the induction hypothesis applies
        obtain ⟨a, b, rfl, -, rfl⟩ := find_singleton_eq_some hf
        have hlen : ((a ++ d :: b).drop (a.length + 1)).length ≤ (a ++ d :: b).length - 1 := by
          simp only [List.length_drop, List.length_append, List.length_cons]
          omega
        simp only [List.length_append, List.length_cons] at hn hm hlen
        dsimp only
        rw [ih m ((a ++ d :: b).drop (a.length + 1)) (by omega) (by omega)]

/-- A text without the separator is one field, or none when it is empty. -/
theorem splitWith_of_notMem (keep : List α → Bool) {d : α} {s : List α} (h : d ∉ s) :
    splitWith keep d s = if s = [] then [] else [s] := by
  unfold splitWith
  cases hs : s.length with
  | zero => rfl
  | succ n =>
    unfold splitLoop
    rw [find_singleton_of_notMem h]

/-- The splitting loop takes off the field in front of the first separator. -/
theorem splitWith_append (keep : List α → Bool) {d : α} {a : List α} (h : d ∉ a)
    (b : List α) :
    splitWith keep d (a ++ d :: b) = (if keep a then [a] else []) ++ splitWith keep d b := by
  unfold splitWith
  have hlen : (a ++ d :: b).length = (a.length + b.length) + 1 := by
    simp only [List.length_append, List.length_cons]
    omega
  rw [hlen, splitLoop, find_singleton_append h]
  have hdrop : (a ++ d :: b).drop (a.length + 1) = b := by
    rw [List.drop_append, List.drop_of_length_le (by omega)]
    simp
  change (if keep ((a ++ d :: b).take a.length) then [(a ++ d :: b).take a.length] else [])
    ++ splitLoop keep d (a.length + b.length) ((a ++ d :: b).drop (a.length + 1)) = _
  rw [hdrop, List.take_left,
    splitLoop_fuel keep d (a.length + b.length) b.length b (by omega) le_rfl]

/-- The splitting loop starts anew behind a separator. -/
theorem splitWith_concat_append (keep : List α → Bool) (d : α) (a b : List α) :
    splitWith keep d (a ++ d :: b) = splitWith keep d (a ++ [d]) ++ splitWith keep d b := by
  -- by induction on the number of separators in `a`, through its length
  induction hn : a.length using Nat.strong_induction_on generalizing a with
  | _ n ih =>
    by_cases hd : d ∈ a
    · obtain ⟨x, y, rfl, hx⟩ : ∃ x y, a = x ++ d :: y ∧ d ∉ x :=
        List.eq_append_cons_of_mem hd
      have hlt : y.length < n := by
        rw [← hn, List.length_append, List.length_cons]
        omega
      rw [List.append_assoc, List.cons_append, splitWith_append _ hx, ih _ hlt y rfl,
        List.append_assoc x, List.cons_append, splitWith_append _ hx, List.append_assoc]
    · rw [splitWith_append _ hd, splitWith_append _ hd, List.append_assoc]
      rfl

/-- A character other than the separator is in one of the pieces, unless that piece is dropped. -/
theorem exists_mem_splitWith {keep : List α → Bool} {d c : α} {s : List α} (hc : c ≠ d)
    (hkeep : ∀ x, c ∈ x → keep x = true) (h : c ∈ s) : ∃ x ∈ splitWith keep d s, c ∈ x := by
  induction hn : s.length using Nat.strong_induction_on generalizing s with
  | _ n ih =>
    by_cases hd : d ∈ s
    · obtain ⟨a, b, rfl, ha⟩ : ∃ a b, s = a ++ d :: b ∧ d ∉ a := List.eq_append_cons_of_mem hd
      have hlt : b.length < n := by
        rw [← hn, List.length_append, List.length_cons]
        omega
      rw [splitWith_append _ ha]
      rcases List.mem_append.mp h with hca | hcb
      · exact ⟨a, List.mem_append_left _ (by simp [hkeep a hca]), hca⟩
      · obtain ⟨x, hx, hcx⟩ := ih _ hlt ((List.mem_cons.mp hcb).resolve_left hc) rfl
        exact ⟨x, List.mem_append_right _ hx, hcx⟩
    · rw [splitWith_of_notMem _ hd, if_neg (List.ne_nil_of_mem h)]
      exact ⟨s, List.mem_singleton_self s, h⟩

/-- The first piece is a beginning of the text without the separator, and only the empty text has
no piece. -/
theorem split_eq_cons {d : α} {s x : List α} {xs : List (List α)} (h : split d s = x :: xs) :
    s ≠ [] ∧ d ∉ x ∧ x <+: s := by
  unfold split at h
  -- without a separator the whole text is the only piece
  cases hf : find [d] s with
  | none =>
    have hd : d ∉ s := by
      intro hmem
      obtain ⟨a, b, rfl⟩ := List.append_of_mem hmem
      rw [find_eq_none_iff] at hf
      exact hf ⟨a, b, by simp⟩
    rw [splitWith_of_notMem _ hd] at h
    by_cases hs : s = []
    · rw [if_pos hs] at h
      exact absurd h.symm (List.cons_ne_nil x xs)
    · rw [if_neg hs] at h
      obtain rfl : s = x := (List.cons.inj h).1
      exact ⟨hs, hd, List.prefix_rfl⟩
  | some pos =>
    obtain ⟨a, b, rfl, ha, -⟩ := find_singleton_eq_some hf
    rw [splitWith_append _ ha] at h
    obtain rfl : a = x := (List.cons.inj h).1
    exact ⟨by simp, ha, List.prefix_append _ _⟩

/-! ### Joining, and the two round trips -/

/-- Every field followed by the separator `d`. -/
def terminated (d : α) (xs : List (List α)) : List α :=
  xs.flatMap fun x => x ++ [d]

omit [DecidableEq α] in
@[simp] theorem terminated_nil (d : α) : terminated d ([] : List (List α)) = [] := rfl

omit [DecidableEq α] in
theorem terminated_cons (d : α) (x : List α) (xs : List (List α)) :
    terminated d (x :: xs) = x ++ d :: terminated d xs := by
  simp [terminated]

omit [DecidableEq α] in
theorem terminated_append (d : α) (xs ys : List (List α)) :
    terminated d (xs ++ ys) = terminated d xs ++ terminated d ys := List.flatMap_append

omit [DecidableEq α] in
/-- A joined text has only characters of its fields, and the separator. -/
theorem mem_terminated {d c : α} {xs : List (List α)} (h : c ∈ terminated d xs) :
    c = d ∨ ∃ x ∈ xs, c ∈ x := by
  obtain ⟨x, hx, hc⟩ := List.mem_flatMap.mp h
  rcases List.mem_append.mp hc with hc | hc
  · exact Or.inr ⟨x, hx, hc⟩
  · exact Or.inl (List.mem_singleton.mp hc)

omit [DecidableEq α] in
/-- Every field takes at least its separator. -/
theorem length_le_length_terminated (d : α) (xs : List (List α)) :
    xs.length ≤ (terminated d xs).length := by
  induction xs with
  | nil => exact le_rfl
  | cons x xs ih =>
    rw [terminated_cons, List.length_append, List.length_cons, List.length_cons]
    omega

omit [DecidableEq α] in
theorem length_terminated_le {d : α} {xs : List (List α)} {m : ℕ} (h : ∀ x ∈ xs, x.length ≤ m) :
    (terminated d xs).length ≤ xs.length * (m + 1) := by
  induction xs with
  | nil => simp
  | cons x xs ih =>
    obtain ⟨hx, hxs⟩ := List.forall_mem_cons.mp h
    have hrest := ih hxs
    rw [terminated_cons, List.length_append, List.length_cons, List.length_cons, Nat.succ_mul]
    omega

omit [DecidableEq α] in
theorem le_length_terminated {d : α} {xs : List (List α)} {m : ℕ} (h : ∀ x ∈ xs, m ≤ x.length) :
    xs.length * (m + 1) ≤ (terminated d xs).length := by
  induction xs with
  | nil => simp
  | cons x xs ih =>
    obtain ⟨hx, hxs⟩ := List.forall_mem_cons.mp h
    have hrest := ih hxs
    rw [terminated_cons, List.length_append, List.length_cons, List.length_cons, Nat.succ_mul]
    omega

/-- Cutting and joining adds at most the last separator. -/
theorem length_terminated_split_le (d : α) (s : List α) :
    (terminated d (split d s)).length ≤ s.length + 1 := by
  unfold split
  induction hn : s.length using Nat.strong_induction_on generalizing s with
  | _ n ih =>
    by_cases hd : d ∈ s
    · obtain ⟨a, b, rfl, ha⟩ : ∃ a b, s = a ++ d :: b ∧ d ∉ a := List.eq_append_cons_of_mem hd
      rw [List.length_append, List.length_cons] at hn
      have hrest := ih b.length (by omega) b rfl
      rw [splitWith_append _ ha, if_pos rfl, List.singleton_append, terminated_cons,
        List.length_append, List.length_cons]
      omega
    · rw [splitWith_of_notMem _ hd]
      split
      · simp
      · rw [terminated_cons, terminated_nil, List.length_append, List.length_singleton, hn]

omit [DecidableEq α] in
/-- Separators between the fields are all separators but the last. -/
theorem intercalate_eq_dropLast_terminated (d : α) (xs : List (List α)) :
    [d].intercalate xs = (terminated d xs).dropLast := by
  induction xs with
  | nil => rfl
  | cons x xs ih =>
    cases xs with
    | nil => simp [terminated_cons]
    | cons y ys =>
      have hne : terminated d (y :: ys) ≠ [] := by simp [terminated_cons]
      rw [List.intercalate_cons_cons, ih, terminated_cons d x,
        List.dropLast_append_of_ne_nil (List.cons_ne_nil _ _), List.dropLast_cons_of_ne_nil hne,
        List.append_assoc, List.singleton_append]

/-- Splitting gives back the fields that `keep` accepts. -/
theorem splitWith_terminated (keep : List α → Bool) {d : α} {xs : List (List α)}
    (h : ∀ x ∈ xs, d ∉ x) : splitWith keep d (terminated d xs) = xs.filter keep := by
  induction xs with
  | nil => rfl
  | cons x xs ih =>
    have hx : d ∉ x := h x List.mem_cons_self
    have hxs : ∀ y ∈ xs, d ∉ y := fun y hy => h y (List.mem_cons_of_mem x hy)
    rw [terminated_cons, splitWith_append keep hx, ih hxs, List.filter_cons]
    split <;> rfl

/-- **Round trip with the last separator in place.** -/
theorem split_terminated {d : α} {xs : List (List α)} (h : ∀ x ∈ xs, d ∉ x) :
    split d (terminated d xs) = xs := by
  unfold split
  rw [splitWith_terminated _ h, List.filter_true]

/-- **Round trip with the last separator removed.** The last field must not be
empty, or the loop would drop it; it is enough that none is. -/
theorem split_dropLast_terminated {d : α} {xs : List (List α)} (h : ∀ x ∈ xs, d ∉ x)
    (hne : ∀ x ∈ xs, x ≠ []) : split d (terminated d xs).dropLast = xs := by
  unfold split
  induction xs with
  | nil => rfl
  | cons x xs ih =>
    have hx : d ∉ x := h x List.mem_cons_self
    have hxs : ∀ y ∈ xs, d ∉ y := fun y hy => h y (List.mem_cons_of_mem x hy)
    have hnexs : ∀ y ∈ xs, y ≠ [] := fun y hy => hne y (List.mem_cons_of_mem x hy)
    rw [terminated_cons]
    cases xs with
    | nil =>
      rw [terminated_nil, List.dropLast_concat, splitWith_of_notMem _ hx,
        if_neg (hne x List.mem_cons_self)]
    | cons y ys =>
      -- the removed separator is the last one, behind the remaining fields
      have hne' : d :: terminated d (y :: ys) ≠ [] := List.cons_ne_nil _ _
      have hne'' : terminated d (y :: ys) ≠ [] := by
        rw [terminated_cons]
        simp
      rw [List.dropLast_append_of_ne_nil hne', List.dropLast_cons_of_ne_nil hne'',
        splitWith_append _ hx, ih hxs hnexs]
      rfl

end Text
end OSLab
