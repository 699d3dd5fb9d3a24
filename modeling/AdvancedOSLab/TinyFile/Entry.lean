import AdvancedOSLab.Framework.Bytes
import AdvancedOSLab.Framework.Overlay

/-!
# An entry of the shared memory of TinyFile

A TinyFile client and its server share an array of `shared_memory_entry_t`: two path fields of 100
bytes each, a mutex, and the flags `is_used` and `is_done`. To have a file compressed the client
takes an unused entry, writes the path of the file and the path of the result into it, and sends
the server the number of the entry. This module is about one entry: the memory of its two path
fields, and the section of `find_and_set_shared_memory_entry_index` that is executed under the
mutex of the entry.

## Memory

The path fields are adjacent, and `strcpy` does not look at their size. `PathFields` is their 200
bytes of memory; `strcpy` writes over the end of a field into what is behind it. Behind the second
field is the mutex. What is written over its first 16 bytes (lock word, count, owner, users) is not
part of the model: releasing the mutex resets the lock word, so that a path which reaches over the
end of its field ends there when it is read. A write that reaches the type of the mutex behind
those has no result. That includes a string of which only the terminator does, which is the zero
that is there already.

`PathFields.shows_of_strcpy` is the fact that the protocol rests on: paths that fit their fields
are read back as they were written.
-/

namespace OSLab

namespace TinyFile

open Bytes

/-- A file path: a C string. -/
structure Path where
  bytes : Bytes
  zero_notMem : 0 ∉ bytes
deriving DecidableEq

/-- The size of a path field. -/
abbrev fieldSize : ℕ := 100

/-- The offset of the mutex in an entry. -/
abbrev mutexOffset : ℕ := 200

/-- The offset of the type of the mutex in an entry. -/
abbrev mutexKindOffset : ℕ := 216

/-- The memory of `original_file_path` and `compressed_file_path`. -/
structure PathFields where
  bytes : Bytes
  size : bytes.length = mutexOffset
deriving DecidableEq

namespace PathFields

/-- Fresh shared memory. -/
def zero : PathFields := ⟨List.replicate mutexOffset 0, List.length_replicate⟩

/-- `strcpy` of `s` to the given offset of the entry. -/
def strcpy (mem : PathFields) (offset : ℕ) (s : Bytes) : Option PathFields :=
  if offset + s.length < mutexKindOffset then
    some
      { bytes := (Patch.apply 0 ⟨offset, s ++ [0]⟩ mem.bytes).take mutexOffset
        size := by
          rw [List.length_take, Patch.length_apply, mem.size]
          exact Nat.min_eq_left (Nat.le_max_left _ _) }
  else none

/-- The path that `original_file_path` shows. -/
def originalFilePath (mem : PathFields) : Bytes := cstr mem.bytes

/-- The path that `compressed_file_path` shows. -/
def compressedFilePath (mem : PathFields) : Bytes := cstr (mem.bytes.drop fieldSize)

/-- The memory after a `strcpy` that starts and ends in front of the mutex. -/
theorem strcpy_of_lt (mem : PathFields) (offset : ℕ) (s : Bytes)
    (h : offset + s.length < mutexOffset) :
    ∃ mem', mem.strcpy offset s = some mem' ∧
      mem'.bytes = mem.bytes.take offset ++ s ++ 0 :: mem.bytes.drop (offset + s.length + 1) := by
  have hkind : offset + s.length < mutexKindOffset := h.trans (by decide)
  refine ⟨_, if_pos hkind, ?_⟩
  have hle : offset ≤ mem.bytes.length := by
    rw [mem.size]
    omega
  show (Patch.apply 0 ⟨offset, s ++ [0]⟩ mem.bytes).take mutexOffset = _
  rw [Patch.apply_of_le 0 hle, List.take_of_length_le]
  · simp [Nat.add_assoc]
  · simp only [List.length_append, List.length_take, List.length_drop, mem.size,
      List.length_singleton]
    omega

/-- Two strings that fit their fields are read back after they were written one after the other. -/
theorem shows_of_strcpy (mem : PathFields) {s t : Bytes} (hs : s.length < fieldSize)
    (ht : t.length < fieldSize) (hs₀ : 0 ∉ s) (ht₀ : 0 ∉ t) :
    ∃ mem₁ mem₂, mem.strcpy 0 s = some mem₁ ∧ mem₁.strcpy fieldSize t = some mem₂ ∧
      mem₂.originalFilePath = s ∧ mem₂.compressedFilePath = t := by
  have hfits : fieldSize + t.length < mutexOffset := Nat.add_lt_add_left ht fieldSize
  obtain ⟨mem₁, h₁, hbytes₁⟩ := mem.strcpy_of_lt 0 s
    (by rw [Nat.zero_add]; exact hs.trans (by decide))
  obtain ⟨mem₂, h₂, hbytes₂⟩ := mem₁.strcpy_of_lt fieldSize t hfits
  refine ⟨mem₁, mem₂, h₁, h₂, ?_, ?_⟩
  · -- the second string starts behind the terminator of the first
    rw [List.take_zero, List.nil_append] at hbytes₁
    have hfront : ∃ rest, mem₁.bytes.take fieldSize = s ++ 0 :: rest := by
      rw [hbytes₁, List.take_append, List.take_of_length_le hs.le]
      rw [← Nat.succ_pred_eq_of_pos (Nat.sub_pos_of_lt hs), List.take_succ_cons]
      exact ⟨_, rfl⟩
    obtain ⟨rest, hrest⟩ := hfront
    rw [originalFilePath, hbytes₂, hrest]
    simpa using cstr_append_zero hs₀ _
  · have hlen : (mem₁.bytes.take fieldSize).length = fieldSize := by
      rw [List.length_take, mem₁.size]
      rfl
    rw [compressedFilePath, hbytes₂, List.append_assoc, List.drop_left' hlen]
    exact cstr_append_zero ht₀ _

end PathFields

/-- `shared_memory_entry_t`; the mutex is held or free. -/
structure Entry where
  paths : PathFields
  mutex : Bool
  isUsed : Bool
  isDone : Bool
deriving DecidableEq

/-- An entry after `open_shared_memory` of the client. -/
def Entry.fresh : Entry := { paths := .zero, mutex := false, isUsed := false, isDone := false }

/-! ### Taking an entry -/

/-- What the file system says about directories: whether `stat` finds one, and whether `mkdir`
can create it. -/
structure Directories where
  stat : Bytes → Bool
  mkdir : Bytes → Bool

/-- A file system in which every folder exists. -/
def allFolders : Directories := { stat := fun _ => true, mkdir := fun _ => false }

/-- The path in front of `/input/` and the file name behind it. -/
def splitAtInput (filePath : Bytes) : Option (Bytes × Bytes) :=
  (Text.find (ascii "/input/") filePath).map fun pos =>
    (filePath.take pos, filePath.drop (pos + (ascii "/input/").length))

/-- The folder of the results for files below `basePath`. -/
def outputFolder (basePath : Bytes) : Bytes := basePath ++ ascii "/output/"

/-- The path of the result. -/
def resultPath (basePath fileName : Bytes) : Bytes :=
  outputFolder basePath ++ fileName ++ ascii "_compressed"

/-- How the section for one entry ends: the entry is in use and the loop goes on; the entry is
taken and its index returned; or `-1` is returned, with the mutex still held. -/
inductive Outcome where
  | busy
  | taken
  | failed
deriving DecidableEq, Repr

/-- The body of the loop of `find_and_set_shared_memory_entry_index` for an entry whose mutex is
free. -/
def findAndSetEntry (dirs : Directories) (filePath : Bytes) (entry : Entry) :
    Option (Outcome × Entry) :=
  if entry.isUsed then some (.busy, entry)
  else do
    let paths ← entry.paths.strcpy 0 filePath
    let entry := { entry with isUsed := true, isDone := false, paths := paths }
    match splitAtInput filePath with
    | none => some (.failed, { entry with mutex := true })
    | some (basePath, fileName) =>
      if !dirs.stat (outputFolder basePath) && !dirs.mkdir (outputFolder basePath) then
        some (.failed, { entry with mutex := true })
      else
        let paths ← entry.paths.strcpy fieldSize (resultPath basePath fileName)
        some (.taken, { entry with paths := paths })

/-! ### Paths that fit -/

/-- The path of the result for a file, if its path contains `/input/`. -/
def resultFor (filePath : Bytes) : Option Bytes :=
  (splitAtInput filePath).map fun (basePath, fileName) => resultPath basePath fileName

/-- The two fields show the path of the file and that of its result. -/
def PathFields.Shows (mem : PathFields) (filePath : Bytes) : Prop :=
  mem.originalFilePath = filePath ∧ resultFor filePath = some mem.compressedFilePath

/-- The path contains `/input/`, the folder of the result exists, and the path of the result fits
its field. -/
def WellNamed (dirs : Directories) (filePath : Bytes) : Prop :=
  ∃ split ∈ splitAtInput filePath, dirs.stat (outputFolder split.1) = true ∧
    (resultPath split.1 split.2).length < fieldSize

instance (dirs : Directories) (filePath : Bytes) : Decidable (WellNamed dirs filePath) :=
  inferInstanceAs (Decidable (∃ split ∈ splitAtInput filePath, _))

/-- The path of the result is 12 bytes longer than that of the file. -/
theorem length_resultPath {filePath basePath fileName : Bytes}
    (h : splitAtInput filePath = some (basePath, fileName)) :
    (resultPath basePath fileName).length = filePath.length + 12 := by
  obtain ⟨pos, hpos, heq⟩ := Option.map_eq_some_iff.mp h
  obtain ⟨rfl, rfl⟩ := Prod.mk.inj heq
  have hle := Text.add_length_le_of_find hpos
  have hinput : (ascii "/input/").length = 7 := by decide
  have houtput : (ascii "/output/").length = 8 := by decide
  have hsuffix : (ascii "_compressed").length = 11 := by decide
  simp only [resultPath, outputFolder, List.length_append, List.length_take, List.length_drop,
    hinput, houtput, hsuffix] at hle ⊢
  omega

theorem zero_notMem_resultPath {filePath basePath fileName : Bytes}
    (h : splitAtInput filePath = some (basePath, fileName)) (h₀ : 0 ∉ filePath) :
    0 ∉ resultPath basePath fileName := by
  obtain ⟨pos, -, heq⟩ := Option.map_eq_some_iff.mp h
  obtain ⟨rfl, rfl⟩ := Prod.mk.inj heq
  have houtput : 0 ∉ ascii "/output/" := by decide
  have hsuffix : 0 ∉ ascii "_compressed" := by decide
  simp only [resultPath, outputFolder, List.mem_append, not_or]
  exact ⟨⟨⟨fun hmem => h₀ (List.mem_of_mem_take hmem), houtput⟩,
    fun hmem => h₀ (List.mem_of_mem_drop hmem)⟩, hsuffix⟩

/-- An unused entry is taken for a path that fits, and shows that path. -/
theorem findAndSetEntry_of_wellNamed {dirs : Directories} {path : Path} {entry : Entry}
    (h : WellNamed dirs path.bytes) (hfree : entry.isUsed = false) :
    ∃ paths, findAndSetEntry dirs path.bytes entry =
        some (.taken, { entry with isUsed := true, isDone := false, paths := paths }) ∧
      paths.Shows path.bytes := by
  obtain ⟨⟨basePath, fileName⟩, hsplit, hstat, hlen⟩ := h
  replace hsplit : splitAtInput path.bytes = some (basePath, fileName) := hsplit
  have hpath : path.bytes.length < fieldSize := by
    rw [length_resultPath hsplit] at hlen
    omega
  obtain ⟨mem₁, mem₂, h₁, h₂, horiginal, hresult⟩ := entry.paths.shows_of_strcpy hpath hlen
    path.zero_notMem (zero_notMem_resultPath hsplit path.zero_notMem)
  refine ⟨mem₂, ?_, horiginal, ?_⟩
  · replace hstat : dirs.stat (outputFolder basePath) = true := hstat
    simp [findAndSetEntry, hfree, h₁, hsplit, hstat, h₂]
  · rw [resultFor, hsplit, hresult]
    rfl

end TinyFile

end OSLab
