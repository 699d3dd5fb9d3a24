import AdvancedOSLab.Framework.Bytes
import Mathlib.Logic.Function.Basic

/-!
# Compressing a file

The workers of the TinyFile server call `compress_file` with the two paths of an entry: it reads the
input file into a buffer, lets the snappy library compress it into a second one, and writes the
output file. The output is written with `fprintf(fp_out, "%s", compressed_file_buffer)`, although
the buffer holds bytes and not a string. What arrives in the file are the bytes in front of the
first NUL, be it among the compressed bytes or in the memory behind them; the compressed length that
the library reports is not looked at.

## The model

* The snappy library is a parameter (`Snappy`), of which nothing is known but that decompression
  undoes compression.
* `Environment` says how the calls of the C library end, and what is in memory behind the compressed
  bytes: the rest of the buffer, which is not initialised, and the heap behind it.
* A call that fails a check ends the process (`exited`); reading on over the end of the memory
  without finding a NUL, and compressing into a buffer that was not allocated, are faults.
* `fprintf` and `fclose` write what they are given. The results of the two are not looked at, so on
  a full disk `compress_file` returns 0 as well, with a part of the output in the file.

`lossless_iff` says exactly when the result is good for decompression.
-/

namespace OSLab

namespace TinyFile

open Bytes

/-- The snappy library. -/
structure Snappy where
  compress : Bytes → Bytes
  uncompress : Bytes → Option Bytes
  uncompress_compress : ∀ content, uncompress (compress content) = some content

/-- The contents of the files that exist. -/
abbrev Files : Type := Bytes → Option Bytes

/-- How the calls of the C library in `compress_file` end, and what is in memory. -/
structure Environment where
  /-- whether `fopen` can write the file -/
  writable : Bytes → Bool
  /-- whether both calls of `fseek` and the one of `ftell` succeed -/
  seeks : Bool
  /-- whether there is memory for the input -/
  mallocSource : Bool
  /-- whether `fread` reads the file without an error -/
  reads : Bool
  /-- whether there is memory for the output; this is not checked -/
  mallocCompressed : Bool
  /-- the memory behind the compressed bytes -/
  behind : Bytes

/-- How a call of `compress_file` ends. -/
inductive CompressOutcome where
  | returned (ret : ℤ) (files : Files)
  | exited
  | faulted

/-- What `fprintf(fp, "%s", p)` writes, where `p` points to the given memory. -/
def fprintfString (memory : Bytes) : Option Bytes :=
  if 0 ∈ memory then some (cstr memory) else none

/-- `compress_file`. -/
def compressFile (compress : Bytes → Bytes) (env : Environment) (inputFile outputFile : Bytes)
    (files : Files) : CompressOutcome :=
  match files inputFile with
  | none => .returned (-1) files
  | some content =>
    if !env.seeks then .exited
    else if !env.mallocSource then .exited
    else if !env.reads then .exited
    else if !env.mallocCompressed then .faulted
    else
      let compressedFileBuffer := compress content ++ env.behind
      if !env.writable outputFile then .returned (-1) files
      else
        match fprintfString compressedFileBuffer with
        | none => .faulted
        | some text => .returned 0 (Function.update files outputFile (some text))

namespace Compress

variable {compress : Bytes → Bytes} {env : Environment} {inputFile outputFile : Bytes}
  {files files' : Files} {content : Bytes}

/-- The file that a successful call leaves behind. -/
theorem output_of_returned (hin : files inputFile = some content)
    (hret : compressFile compress env inputFile outputFile files = .returned 0 files') :
    files' outputFile = some (cstr (compress content ++ env.behind)) ∧
      0 ∈ compress content ++ env.behind := by
  simp only [compressFile, hin] at hret
  split_ifs at hret
  -- only the last branch returns 0
  case neg =>
    split at hret
    · exact absurd hret (by simp)
    · next text htext =>
      obtain rfl : Function.update files outputFile (some text) = files' := by simpa using hret
      rw [Function.update_self]
      rw [fprintfString] at htext
      split at htext
      · next hnul => exact ⟨htext.symm, hnul⟩
      · exact absurd htext (by simp)
  all_goals simp at hret

/-- The buffer is written as it is exactly if its end is the first NUL. -/
theorem cstr_append_eq_iff {b rest : Bytes} (h : 0 ∈ b ++ rest) :
    cstr (b ++ rest) = b ↔ 0 ∉ b ∧ rest.head? = some 0 := by
  constructor
  · intro heq
    have hb : 0 ∉ b := heq ▸ zero_notMem_cstr (b ++ rest)
    refine ⟨hb, ?_⟩
    -- what is written behind the buffer must be nothing
    have hrest : cstr rest = [] := by
      rw [cstr_append hb] at heq
      exact List.append_right_eq_self.mp heq
    cases rest with
    | nil => exact absurd h (by simpa using hb)
    | cons c rest =>
      by_contra hc
      have hne : c ≠ 0 := by simpa using hc
      rw [cstr, List.takeWhile_cons_of_pos (by simpa using hne)] at hrest
      exact absurd hrest (by simp)
  · rintro ⟨hb, hhead⟩
    obtain ⟨rest', rfl⟩ := List.head?_eq_some_iff.mp hhead
    exact cstr_append_zero hb rest'

/-- Of a library of which only the round trip is known, nothing but the compressed bytes
themselves is known to decompress to the content. -/
theorem eq_compress_iff (snappy : Snappy) (content out : Bytes) :
    out = snappy.compress content ↔ ∀ library : Snappy, library.compress = snappy.compress →
      library.uncompress out = some content := by
  constructor
  · rintro rfl library hlibrary
    rw [← hlibrary, library.uncompress_compress]
  · intro h
    by_cases hout : ∃ content', snappy.compress content' = out
    · obtain ⟨content', rfl⟩ := hout
      have hsame := h snappy rfl
      rw [snappy.uncompress_compress] at hsame
      rw [Option.some.inj hsame]
    · -- the library may as well refuse these bytes
      classical
      let library : Snappy :=
        { compress := snappy.compress
          uncompress := fun bytes => if bytes = out then none else snappy.uncompress bytes
          uncompress_compress := fun content' => by
            rw [if_neg fun heq => hout ⟨content', heq⟩, snappy.uncompress_compress] }
      have hnone := h library rfl
      simp [library] at hnone

/-- **When a result is lossless.** For every library, file content and memory: the output of a call
that returns 0 decompresses to the content of the input file exactly if the compressed bytes contain
no NUL and the byte behind them is one. -/
theorem lossless_iff (snappy : Snappy) (env : Environment) (inputFile outputFile : Bytes)
    (files files' : Files) (content : Bytes) (hin : files inputFile = some content)
    (hret : compressFile snappy.compress env inputFile outputFile files = .returned 0 files') :
    (0 ∉ snappy.compress content ∧ env.behind.head? = some 0) ↔
      ∀ library : Snappy, library.compress = snappy.compress →
        (files' outputFile).bind library.uncompress = some content := by
  obtain ⟨hout, hnul⟩ := output_of_returned hin hret
  rw [← cstr_append_eq_iff hnul, eq_compress_iff]
  simp only [hout, Option.bind_some]

/-! ### A library that writes literals -/

/-- The length of the content in front of a compressed stream: seven bits in a byte, the lowest
first. -/
def varint : ℕ → ℕ → Bytes
  | 0, n => [n.toUInt8]
  | fuel + 1, n => if n < 128 then [n.toUInt8] else (n % 128 + 128).toUInt8 :: varint fuel (n / 128)

/-- The number at the front of a stream, and the rest. -/
def readVarint : Bytes → Option (ℕ × Bytes)
  | [] => none
  | b :: bs =>
    if b.toNat < 128 then some (b.toNat, bs)
    else (readVarint bs).map fun (n, rest) => (n * 128 + (b.toNat - 128), rest)

/-- The content as literals of at most sixty bytes, each behind a tag with its length. -/
def literals : ℕ → Bytes → Bytes
  | 0, _ => []
  | fuel + 1, content =>
    if content = [] then []
    else (4 * ((content.take 60).length - 1)).toUInt8 ::
      (content.take 60 ++ literals fuel (content.drop 60))

/-- The content of a stream of literals. -/
def readLiterals : ℕ → Bytes → Option Bytes
  | _, [] => some []
  | 0, _ :: _ => none
  | fuel + 1, tag :: rest =>
    let length := tag.toNat / 4 + 1
    if tag.toNat % 4 = 0 ∧ length ≤ 60 ∧ length ≤ rest.length then
      (readLiterals fuel (rest.drop length)).map fun content => rest.take length ++ content
    else none

theorem readVarint_varint {fuel n : ℕ} (h : n ≤ fuel) (rest : Bytes) :
    readVarint (varint fuel n ++ rest) = some (n, rest) := by
  induction fuel generalizing n with
  | zero =>
    obtain rfl := Nat.le_zero.mp h
    rfl
  | succ fuel ih =>
    rw [varint]
    split
    -- seven bits in the last byte
    · next hn =>
      have hval : n.toUInt8.toNat = n := by
        rw [UInt8.toNat_ofNat']
        omega
      rw [List.singleton_append, readVarint, hval, if_pos hn]
    · next hn =>
      -- seven bits and the mark that more follow
      have hval : (n % 128 + 128).toUInt8.toNat = n % 128 + 128 := by
        rw [UInt8.toNat_ofNat']
        omega
      have hn' : n / 128 * 128 + (n % 128 + 128 - 128) = n := by omega
      rw [List.cons_append, readVarint, hval, if_neg (by omega), ih (by omega), Option.map_some]
      dsimp only
      rw [hn']

theorem readLiterals_literals {fuel fuel' : ℕ} {content : Bytes} (h : content.length ≤ fuel)
    (h' : (literals fuel content).length ≤ fuel') :
    readLiterals fuel' (literals fuel content) = some content := by
  -- on the number of literals written
  induction fuel generalizing fuel' content with
  | zero =>
    obtain rfl := List.length_eq_zero_iff.mp (Nat.le_zero.mp h)
    cases fuel' <;> rfl
  | succ fuel ih =>
    rw [literals] at h' ⊢
    split at h'
    · next hnil =>
      rw [if_pos hnil, hnil]
      cases fuel' <;> rfl
    · next hne =>
      rw [if_neg hne]
      have hpos : 0 < content.length := List.length_pos_iff.mpr hne
      have htake : (content.take 60).length = min 60 content.length := List.length_take
      have htag : (4 * ((content.take 60).length - 1)).toUInt8.toNat =
          4 * ((content.take 60).length - 1) := by
        rw [UInt8.toNat_ofNat']
        omega
      have hlength : (4 * ((content.take 60).length - 1)).toUInt8.toNat / 4 + 1 =
          (content.take 60).length := by
        rw [htag]
        omega
      cases fuel' with
      | zero => exact absurd h' (by simp)
      | succ fuel' =>
        have hrest : readLiterals fuel' (literals fuel (content.drop 60)) =
            some (content.drop 60) := by
          refine ih (by rw [List.length_drop]; omega) ?_
          simp only [List.length_cons, List.length_append] at h'
          omega
        rw [readLiterals, hlength, if_pos ⟨by rw [htag]; omega, by omega, by simp⟩,
          List.drop_left' rfl, hrest, Option.map_some, List.take_left' rfl,
          List.take_append_drop]

/-- A library that compresses nothing: the length of the content, and the content in literals. This
is what the library does with a content of a few bytes, where it finds no repetitions. -/
def literalSnappy : Snappy where
  compress content := varint content.length content.length ++ literals content.length content
  uncompress stream := do
    let (length, stream) ← readVarint stream
    let content ← readLiterals stream.length stream
    if content.length = length then some content else none
  uncompress_compress content := by
    simp [readVarint_varint, readLiterals_literals]

/-- A call in which nothing fails, with zeroed memory behind the compressed bytes. -/
def quietEnvironment : Environment where
  writable _ := true
  seeks := true
  mallocSource := true
  reads := true
  mallocCompressed := true
  behind := [0]

/-- One file. -/
def oneFile (path content : Bytes) : Files := fun p => if p = path then some content else none

/-- The content `ab` is compressed to four bytes without a NUL. -/
theorem lossless_iff_ab :
    ∃ files', compressFile literalSnappy.compress quietEnvironment (ascii "in") (ascii "out")
        (oneFile (ascii "in") (ascii "ab")) = .returned 0 files' ∧
      ∀ library : Snappy, library.compress = literalSnappy.compress →
        (files' (ascii "out")).bind library.uncompress = some (ascii "ab") := by
  refine ⟨_, rfl, ?_⟩
  refine (lossless_iff literalSnappy quietEnvironment (ascii "in") (ascii "out")
    (oneFile (ascii "in") (ascii "ab")) _ (ascii "ab") (by decide) rfl).mp ?_
  decide

/-- The content `a` is a literal of length one, the tag of which is a NUL. The output file holds
the length of the content only, and does not decompress. -/
theorem single_byte_is_lost :
    ∃ files', compressFile literalSnappy.compress quietEnvironment (ascii "in") (ascii "out")
        (oneFile (ascii "in") (ascii "a")) = .returned 0 files' ∧
      files' (ascii "out") = some [1] ∧ literalSnappy.uncompress [1] = none := by
  refine ⟨_, rfl, ?_⟩
  decide

end Compress

end TinyFile

end OSLab
