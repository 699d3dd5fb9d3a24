import AdvancedOSLab.Framework.Text
import Mathlib.Data.List.TakeWhile

/-!
# Byte strings, C strings and decimal numbers

Text as C and C++ programs move it around: a list of bytes.

* `ascii` writes a string literal as bytes.
* `cstr` is the part of a buffer in front of its first NUL, which is all that a
  `char *` shows of it, and `recvString size msg` is what a program holds after
  `n = recv(fd, buffer, size, 0); buffer[n] = '\0'; string(buffer)`. A message
  that fills the buffer puts the terminator past its end, so there is no result.
* `decimal` is `to_string` on a number that is not negative and `stoi` is its
  reader, with the two exceptions that the library function throws as `none`.
  `stoi_decimal` is their round trip. `decimalInt` is `to_string` on any `int`.
-/

namespace OSLab

/-- A byte string. -/
abbrev Bytes := List UInt8

/-- The bytes of a string literal (of ASCII characters). -/
def ascii (s : String) : Bytes := s.toList.map fun c => c.toNat.toUInt8

/-- The largest value of a C `int`. -/
def intMax : ℕ := 2147483647

/-- The values of a C `int`. -/
abbrev CInt : Type := { n : ℤ // -(intMax : ℤ) - 1 ≤ n ∧ n ≤ intMax }

/-- The strings that are made from a `char *`: they contain no NUL. -/
abbrev CString : Type := { s : Bytes // 0 ∉ s }

namespace Bytes

/-! ### C strings -/

/-- What a `char *` shows of a buffer: the bytes in front of the first NUL. -/
def cstr (b : Bytes) : Bytes := b.takeWhile (· ≠ 0)

/-- The string read from a buffer of `size` bytes after a `recv` of `msg` whose
terminator is written behind the last byte received. -/
def recvString (size : ℕ) (msg : Bytes) : Option Bytes :=
  -- a longer message fills the buffer, and its terminator is written past the end
  if msg.length < size then some (cstr msg) else none

theorem cstr_eq_self {b : Bytes} (h : 0 ∉ b) : cstr b = b := by
  unfold cstr
  rw [List.takeWhile_eq_self_iff]
  intro c hc
  have : c ≠ 0 := fun h0 => h (h0 ▸ hc)
  simpa using this

/-- A C string contains no NUL. -/
theorem zero_notMem_cstr (b : Bytes) : 0 ∉ cstr b := by
  intro h
  have := List.mem_takeWhile_imp h
  simp at this

theorem length_cstr_le (b : Bytes) : (cstr b).length ≤ b.length :=
  (List.takeWhile_prefix _).length_le

/-- Bytes without a NUL are all shown. -/
theorem cstr_append {a : Bytes} (h : 0 ∉ a) (b : Bytes) : cstr (a ++ b) = a ++ cstr b := by
  unfold cstr
  rw [List.takeWhile_append_of_pos]
  intro c hc
  have : c ≠ 0 := fun h0 => h (h0 ▸ hc)
  simpa using this

/-- Behind a NUL nothing is shown. -/
theorem cstr_append_of_mem {a : Bytes} (h : 0 ∈ a) (b : Bytes) : cstr (a ++ b) = cstr a := by
  obtain ⟨x, y, rfl, hx⟩ : ∃ x y, a = x ++ 0 :: y ∧ 0 ∉ x := List.eq_append_cons_of_mem h
  rw [List.append_assoc, cstr_append hx, cstr_append hx]
  simp [cstr]

/-- A string that is written with its terminator is read back, whatever follows. -/
theorem cstr_append_zero {b : Bytes} (h : 0 ∉ b) (rest : Bytes) : cstr (b ++ 0 :: rest) = b := by
  rw [cstr_append h]
  simp [cstr]

/-- A message arrives if it is shorter than the buffer, up to its first NUL. -/
theorem recvString_eq_some_iff {size : ℕ} {msg b : Bytes} :
    recvString size msg = some b ↔ msg.length < size ∧ cstr msg = b := by
  unfold recvString
  split
  · next h => simp [h]
  · next h => simp [h]

/-- A message without NUL that is shorter than the buffer arrives as it is. -/
theorem recvString_eq_some {size : ℕ} {msg : Bytes} (hlen : msg.length < size)
    (h0 : 0 ∉ msg) : recvString size msg = some msg :=
  recvString_eq_some_iff.mpr ⟨hlen, cstr_eq_self h0⟩

/-! ### Decimal numbers -/

/-- The decimal digits of `n`. -/
def decimal (n : ℕ) : Bytes := (Nat.toDigits 10 n).map fun c => c.toNat.toUInt8

/-- `'0' ≤ b ≤ '9'`. -/
def isDigit (b : UInt8) : Bool := 48 ≤ b && b ≤ 57

/-- `isspace`. -/
def isSpace (b : UInt8) : Bool := b = 32 || (9 ≤ b && b ≤ 13)

/-- The value of a list of digits, most significant first. -/
def ofDigits (ds : Bytes) : ℕ := ds.foldl (fun n d => 10 * n + (d.toNat - 48)) 0

/-- `std::stoi`: skips white space, reads an optional sign and the digits that
follow, and ignores the rest. Without a digit, or when the number does not fit
an `int`, it throws. -/
def stoi (s : Bytes) : Option ℤ :=
  let t := s.dropWhile isSpace
  let neg := t.head? = some 45
  let u := if t.head? = some 45 ∨ t.head? = some 43 then t.tail else t
  let ds := u.takeWhile isDigit
  if ds = [] then none
  else
    let v : ℤ := if neg then -(ofDigits ds : ℤ) else ofDigits ds
    if -(intMax : ℤ) - 1 ≤ v ∧ v ≤ intMax then some v else none

/-- A digit character is written as the byte of the same value. -/
private theorem toUInt8_of_isDigit {c : Char} (h : c.isDigit = true) :
    48 ≤ c.toNat ∧ c.toNat ≤ 57 ∧ (c.toNat.toUInt8).toNat = c.toNat := by
  rw [Char.isDigit, Bool.and_eq_true, decide_eq_true_eq, decide_eq_true_eq, ge_iff_le,
    UInt32.le_iff_toNat_le, UInt32.le_iff_toNat_le] at h
  have h₁ : 48 ≤ c.toNat := h.1
  have h₂ : c.toNat ≤ 57 := h.2
  refine ⟨h₁, h₂, ?_⟩
  rw [UInt8.toNat_ofNat']
  omega

/-- A decimal digit is one of the ten ASCII digits. -/
theorem isDigit_of_mem_decimal {n : ℕ} {b : UInt8} (h : b ∈ decimal n) : isDigit b = true := by
  obtain ⟨c, hc, rfl⟩ := List.mem_map.mp h
  obtain ⟨h₁, h₂, hval⟩ :=
    toUInt8_of_isDigit (Nat.isDigit_of_mem_toDigits (by decide) (by decide) hc)
  unfold isDigit
  rw [Bool.and_eq_true, decide_eq_true_eq, decide_eq_true_eq, UInt8.le_iff_toNat_le,
    UInt8.le_iff_toNat_le, hval]
  exact ⟨h₁, h₂⟩

theorem decimal_ne_nil (n : ℕ) : decimal n ≠ [] := by
  unfold decimal
  rw [ne_eq, List.map_eq_nil_iff]
  exact Nat.toDigits_ne_nil

/-- The number of digits. -/
theorem length_decimal_le_iff {n k : ℕ} (hk : 0 < k) :
    (decimal n).length ≤ k ↔ n < Nat.pow 10 k := by
  rw [decimal, List.length_map]
  exact Nat.length_toDigits_le_iff (by decide) hk

/-- A byte that is not a digit does not occur in a decimal number. -/
theorem notMem_decimal {b : UInt8} (hb : isDigit b = false) (n : ℕ) : b ∉ decimal n := by
  intro h
  rw [isDigit_of_mem_decimal h] at hb
  exact absurd hb (by decide)

/-- Reading the digits of `n` gives back `n`. -/
theorem ofDigits_decimal (n : ℕ) : ofDigits (decimal n) = n := by
  -- the two folds agree on digit characters, from any number read so far
  have key : ∀ (cs : List Char) (m : ℕ), (∀ c ∈ cs, c.isDigit = true) →
      (cs.map fun c => c.toNat.toUInt8).foldl (fun n d => 10 * n + (d.toNat - 48)) m
        = Nat.ofDigitChars 10 cs m := by
    intro cs
    induction cs with
    | nil => intro m _; rfl
    | cons c cs ih =>
      intro m h
      obtain ⟨-, -, hval⟩ := toUInt8_of_isDigit (h c List.mem_cons_self)
      rw [List.map_cons, List.foldl_cons, Nat.ofDigitChars_cons, hval,
        ih _ fun d hd => h d (List.mem_cons_of_mem c hd)]
      rfl
  unfold ofDigits decimal
  rw [key _ 0 fun c hc => Nat.isDigit_of_mem_toDigits (by decide) (by decide) hc]
  exact Nat.ofDigitChars_ten_toDigits

theorem decimal_injective : Function.Injective decimal := by
  intro n m h
  rw [← ofDigits_decimal n, h, ofDigits_decimal]

/-- **`stoi` reads what `to_string` wrote.** -/
theorem stoi_decimal {n : ℕ} (h : n ≤ intMax) : stoi (decimal n) = some (n : ℤ) := by
  have hdig : ∀ b ∈ decimal n, isDigit b = true := fun b hb => isDigit_of_mem_decimal hb
  cases hd : decimal n with
  | nil => exact absurd hd (decimal_ne_nil n)
  | cons b bs =>
    -- the first byte is a digit, so neither white space nor a sign
    have hb : isDigit b = true := hdig b (hd ▸ List.mem_cons_self)
    have hall : (b :: bs).takeWhile isDigit = b :: bs := by
      rw [List.takeWhile_eq_self_iff, ← hd]
      exact hdig
    have hrange : 48 ≤ b.toNat ∧ b.toNat ≤ 57 := by
      unfold isDigit at hb
      rw [Bool.and_eq_true, decide_eq_true_eq, decide_eq_true_eq, UInt8.le_iff_toNat_le,
        UInt8.le_iff_toNat_le] at hb
      exact hb
    have hne : ∀ c : UInt8, c.toNat < 48 → b ≠ c := by
      intro c hc he
      rw [he] at hrange
      omega
    have hsp : isSpace b = false := by
      unfold isSpace
      have h32 : b ≠ 32 := hne 32 (by decide)
      have h13 : ¬ b ≤ 13 := by
        rw [UInt8.le_iff_toNat_le]
        change ¬ b.toNat ≤ 13
        omega
      simp [h32, h13]
    have hsign : ¬ ((b :: bs).head? = some 45 ∨ (b :: bs).head? = some 43) := by
      rw [List.head?_cons, Option.some.injEq, Option.some.injEq, not_or]
      exact ⟨hne 45 (by decide), hne 43 (by decide)⟩
    have hval : ofDigits (b :: bs) = n := by rw [← hd, ofDigits_decimal]
    have hminus : ¬ (b :: bs).head? = some 45 := fun h45 => hsign (Or.inl h45)
    have hdrop : (b :: bs).dropWhile isSpace = b :: bs := by
      rw [List.dropWhile_cons_of_neg (by simp [hsp])]
    have hfit : -(intMax : ℤ) - 1 ≤ (n : ℤ) ∧ (n : ℤ) ≤ intMax := by omega
    unfold stoi
    simp only [hdrop, if_neg hsign, hall, hval, if_neg hminus, if_pos hfit, reduceCtorEq,
      if_false]

/-! ### Numbers with a sign -/

/-- `to_string` of an `int`. -/
def decimalInt (n : ℤ) : Bytes :=
  if n < 0 then 45 :: decimal n.natAbs else decimal n.natAbs

theorem decimalInt_natCast (n : ℕ) : decimalInt n = decimal n := by
  rw [decimalInt, if_neg (Int.not_lt.mpr (Int.natCast_nonneg n)), Int.natAbs_natCast]

/-- A byte that is neither a digit nor the minus sign does not occur in a number. -/
theorem notMem_decimalInt {b : UInt8} (hb : isDigit b = false) (hminus : b ≠ 45) (n : ℤ) :
    b ∉ decimalInt n := by
  unfold decimalInt
  split
  · rw [List.mem_cons, not_or]
    exact ⟨hminus, notMem_decimal hb n.natAbs⟩
  · exact notMem_decimal hb n.natAbs

theorem decimalInt_ne_nil (n : ℤ) : decimalInt n ≠ [] := by
  unfold decimalInt
  split
  · exact List.cons_ne_nil _ _
  · exact decimal_ne_nil n.natAbs

/-- A minus sign in front of a number is read as such. -/
theorem stoi_minus {n : ℕ} (h : n ≤ intMax + 1) : stoi (45 :: decimal n) = some (-(n : ℤ)) := by
  have hdrop : (45 :: decimal n).dropWhile isSpace = 45 :: decimal n :=
    List.dropWhile_cons_of_neg (by decide)
  have hall : (decimal n).takeWhile isDigit = decimal n := by
    rw [List.takeWhile_eq_self_iff]
    exact fun b hb => isDigit_of_mem_decimal hb
  have hfit : -(intMax : ℤ) - 1 ≤ -(n : ℤ) ∧ -(n : ℤ) ≤ intMax := by omega
  unfold stoi
  simp only [hdrop, List.head?_cons, true_or, if_true, List.tail_cons, hall,
    if_neg (decimal_ne_nil n), ofDigits_decimal, if_pos hfit]

/-- **`stoi` reads every `int` that `to_string` wrote.** -/
theorem stoi_decimalInt {n : ℤ} (hmin : -(intMax : ℤ) - 1 ≤ n) (hmax : n ≤ intMax) :
    stoi (decimalInt n) = some n := by
  unfold decimalInt
  split
  · next hneg =>
    rw [stoi_minus (by omega), Int.ofNat_natAbs_of_nonpos (Int.le_of_lt hneg), Int.neg_neg]
  · next hpos =>
    rw [stoi_decimal (by omega), Int.natAbs_of_nonneg (Int.not_lt.mp hpos)]

end Bytes
end OSLab
