import AdvancedOSLab.TinyFile.Search
import AdvancedOSLab.TinyFile.Slots

/-!
# The arrays of the TinyFile client

`main` of the client compresses one file (`--file`) or the files of a list (`--files`), in `SYNC` or
`ASYNC` mode. On the way it uses arrays of fixed size: `file_path_list` and
`shared_memory_entry_index_list`, with 100 elements each, in `ASYNC` mode, and the two path fields
of an entry of the shared memory, with 100 bytes each. Nothing checks that they are large enough.

## The model

`accesses` is the list of accesses to these arrays, in the order in which the client makes them. A
client whose shared memory has no entry exits before the first of them, since `mmap` of no bytes
fails. A list file is read by `fgets` with a buffer of 100 bytes, so that a longer line counts as
several paths. The client stops at the first file for which the search of an entry fails for another
reason than that all entries are used: in `SYNC` mode it exits; in `ASYNC` mode it repeats the
search, which blocks at the mutex that the first one left locked. Where all entries are used, an
`ASYNC` request waits until the server has freed one; a client whose server does not answer makes
only the first of the accesses.

## The result

`accesses_inBounds_iff`: all accesses are inside their arrays if and only if an `ASYNC` list has at
most 100 lines, and the paths that get as far as being copied are short enough. For the path of a
result, which is 12 bytes longer than that of the file, this means at most 87 bytes. Both conditions
are needed: `long_list_leaves_array`.

`search_of_inBounds` is the relation to the entries: as long as the accesses are inside, the search
of an entry has a result, and returns an index for the files that `accesses` goes on after.
-/

namespace OSLab

namespace TinyFile

open Bytes Search

namespace ClientMain

/-- `MAX_FILE_PATH_SIZE`: the size of the buffer for the argument of `--file`. -/
abbrev maxFilePathSize : ℕ := 200

/-- The size of the buffer for a line of the list. -/
abbrev lineSize : ℕ := 100

/-- The number of elements of `file_path_list` and `shared_memory_entry_index_list`. -/
abbrev listSize : ℕ := 100

/-- What the client is to compress: the file of a path that the buffer takes, or the files of a list
with this content. -/
inductive Input where
  | file (path : Path) (hfits : path.bytes.length < maxFilePathSize)
  | files (content : Bytes)

/-- Which files can be opened, besides what is known about directories. -/
structure FileSystem extends Directories where
  fopen : Bytes → Bool

/-! ### Reading the list -/

/-- `fgets` with a buffer of `size` bytes: the bytes read, and what is left of the file. -/
def fgets (size : ℕ) (rest : Bytes) : Option (Bytes × Bytes) :=
  if rest = [] then none
  else
    let line := match Text.find [10] rest with
      | none => rest.length
      | some pos => pos + 1
    some (rest.take (min (size - 1) line), rest.drop (min (size - 1) line))

/-- The string in the buffer after `line[strcspn(line, "\n")] = 0`. -/
def chomp (line : Bytes) : Bytes := cstr (line.takeWhile (· ≠ 10))

/-- The loop that reads the list. -/
def readLines : ℕ → Bytes → List Bytes
  | 0, _ => []
  | n + 1, rest =>
    match fgets lineSize rest with
    | none => []
    | some (line, rest) => chomp line :: readLines n rest

/-- The paths of a list. A line has at least one byte. -/
def fileList (content : Bytes) : List Bytes := readLines content.length content

/-! ### The accesses -/

/-- An access to one of the arrays: the index of an element, or the string copied to a field. -/
inductive Access where
  | filePathList (index : ℕ)
  | sharedMemoryEntryIndexList (index : ℕ)
  | originalFilePath (path : Bytes)
  | compressedFilePath (path : Bytes)
deriving DecidableEq

/-- The access stays inside its array; a string has its terminator. -/
def Access.InBounds : Access → Prop
  | .filePathList index => index < listSize
  | .sharedMemoryEntryIndexList index => index < listSize
  | .originalFilePath path => path.length + 1 ≤ fieldSize
  | .compressedFilePath path => path.length + 1 ≤ fieldSize

instance : DecidablePred Access.InBounds
  | .filePathList index => inferInstanceAs (Decidable (index < listSize))
  | .sharedMemoryEntryIndexList index => inferInstanceAs (Decidable (index < listSize))
  | .originalFilePath path => inferInstanceAs (Decidable (path.length + 1 ≤ fieldSize))
  | .compressedFilePath path => inferInstanceAs (Decidable (path.length + 1 ≤ fieldSize))

/-- What `find_and_set_shared_memory_entry_index` copies to an entry for a file, and whether it
returns an index. -/
def copies (dirs : Directories) (filePath : Bytes) : List Access × Bool :=
  match splitAtInput filePath with
  | none => ([.originalFilePath filePath], false)
  | some (basePath, fileName) =>
    if !dirs.stat (outputFolder basePath) && !dirs.mkdir (outputFolder basePath) then
      ([.originalFilePath filePath], false)
    else
      ([.originalFilePath filePath, .compressedFilePath (resultPath basePath fileName)], true)

/-- The requests of a list in `SYNC` mode, one for every line that is read. -/
def syncRequests (dirs : Directories) : List Bytes → List Access
  | [] => []
  | filePath :: filePaths =>
    (copies dirs filePath).1 ++
      -- otherwise `communicate_file_sync` exits
      if (copies dirs filePath).2 then syncRequests dirs filePaths else []

/-- The requests of a list in `ASYNC` mode, from file `i` on. -/
def asyncRequests (dirs : Directories) : ℕ → List Bytes → List Access
  | _, [] => []
  | i, filePath :: filePaths =>
    .filePathList i :: (copies dirs filePath).1 ++
      -- otherwise `communicate_file_async` does not return
      if (copies dirs filePath).2 then
        .sharedMemoryEntryIndexList i :: asyncRequests dirs (i + 1) filePaths
      else []

/-- The accesses of `main` behind `initialize_client`. -/
def requests (fs : FileSystem) : Mode → Input → List Access
  | _, .file path _ => if fs.fopen path.bytes then (copies fs.toDirectories path.bytes).1 else []
  | .sync, .files content => syncRequests fs.toDirectories (fileList content)
  | .async, .files content =>
    (List.range (fileList content).length).map .filePathList ++
      asyncRequests fs.toDirectories 0 (fileList content)

/-- The accesses of `main`. -/
def accesses (fs : FileSystem) (numEntries : ℕ) (mode : Mode) (input : Input) : List Access :=
  -- `open_shared_memory` exits when there is nothing to map
  if numEntries = 0 then [] else requests fs mode input

/-! ### Conditions on the input -/

/-- The sizes of the input that the arrays are made for. -/
def InputFits (fs : FileSystem) : Mode → Input → Prop
  | _, .file path _ =>
    fs.fopen path.bytes = true →
      path.bytes.length < fieldSize ∧
        (HasOutputFolder fs.toDirectories path.bytes → path.bytes.length + 12 < fieldSize)
  | mode, .files content =>
    (mode = .async → (fileList content).length ≤ listSize) ∧
      ∀ filePath ∈ (fileList content).takeWhile (HasOutputFolder fs.toDirectories ·),
        filePath.length + 12 < fieldSize

/-- There is no entry, or the input fits. -/
def Fits (fs : FileSystem) (numEntries : ℕ) (mode : Mode) (input : Input) : Prop :=
  0 < numEntries → InputFits fs mode input

variable {dirs : Directories} {filePath : Bytes}

/-! ### One file -/

/-- For a file with a folder for its result both paths are copied. -/
theorem copies_of_hasOutputFolder (h : HasOutputFolder dirs filePath) :
    ∃ result : Bytes, result.length = filePath.length + 12 ∧
      copies dirs filePath =
        ([.originalFilePath filePath, .compressedFilePath result], true) := by
  obtain ⟨⟨basePath, fileName⟩, hsplit, hfolder⟩ := h
  replace hsplit : splitAtInput filePath = some (basePath, fileName) := hsplit
  refine ⟨resultPath basePath fileName, length_resultPath hsplit, ?_⟩
  rcases hfolder with hstat | hmkdir
  · simp [copies, hsplit, hstat]
  · simp [copies, hsplit, hmkdir]

/-- For any other file only its own path is copied, and the client does not go on. -/
theorem copies_of_not_hasOutputFolder (h : ¬ HasOutputFolder dirs filePath) :
    copies dirs filePath = ([.originalFilePath filePath], false) := by
  cases hsplit : splitAtInput filePath with
  | none => simp [copies, hsplit]
  | some split =>
    have hfolder : dirs.stat (outputFolder split.1) = false ∧
        dirs.mkdir (outputFolder split.1) = false := by
      simpa [HasOutputFolder, hsplit] using h
    simp [copies, hsplit, hfolder]

theorem goesOn_eq : (copies dirs filePath).2 = decide (HasOutputFolder dirs filePath) := by
  by_cases h : HasOutputFolder dirs filePath
  · obtain ⟨result, -, hcopies⟩ := copies_of_hasOutputFolder h
    simp [hcopies, h]
  · simp [copies_of_not_hasOutputFolder h, h]

theorem copies_inBounds_iff :
    (∀ access ∈ (copies dirs filePath).1, access.InBounds) ↔
      filePath.length < fieldSize ∧
        (HasOutputFolder dirs filePath → filePath.length + 12 < fieldSize) := by
  by_cases h : HasOutputFolder dirs filePath
  · obtain ⟨result, hlength, hcopies⟩ := copies_of_hasOutputFolder h
    rw [hcopies, List.forall_mem_cons, List.forall_mem_singleton]
    simp only [Access.InBounds, h, hlength, true_implies]
    exact Iff.rfl
  · rw [copies_of_not_hasOutputFolder h, List.forall_mem_singleton]
    simp only [Access.InBounds, h, false_implies, and_true]
    exact Iff.rfl

/-- While its copies stay inside the fields, the search for an entry has a result when an entry is
unused, and returns an index exactly if the client goes on. -/
theorem search_of_inBounds {entries : List Entry} (hfree : ∀ entry ∈ entries, entry.mutex = false)
    (hunused : ∃ entry ∈ entries, entry.isUsed = false)
    (hbounds : ∀ access ∈ (copies dirs filePath).1, access.InBounds) :
    ∃ index entries', findAndSetSharedMemoryEntryIndex dirs filePath entries =
        some (index, entries') ∧
      index.isSome = (copies dirs filePath).2 := by
  obtain ⟨hpath, hresult⟩ := copies_inBounds_iff.mp hbounds
  rw [goesOn_eq]
  refine exists_search hfree hunused (hpath.trans (by decide)) fun hfolder => ?_
  exact ⟨hfolder, Nat.lt_of_lt_of_le (Nat.add_lt_add_left (hresult hfolder) fieldSize) (by decide)⟩

/-! ### The list -/

theorem length_chomp_le (line : Bytes) : (chomp line).length ≤ line.length :=
  ((List.takeWhile_prefix _).length_le).trans (List.takeWhile_prefix _).length_le

theorem length_le_of_fgets {size : ℕ} {rest line rest' : Bytes}
    (h : fgets size rest = some (line, rest')) : line.length ≤ size - 1 := by
  unfold fgets at h
  split at h
  · exact absurd h (by simp)
  · obtain ⟨rfl, -⟩ := Prod.mk.inj (Option.some.inj h)
    exact (List.length_take_le _ _).trans (Nat.min_le_left _ _)

/-- The paths of a list fit the buffer they are read to. -/
theorem length_lt_of_mem_readLines {n : ℕ} {rest : Bytes} (h : filePath ∈ readLines n rest) :
    filePath.length < lineSize := by
  induction n generalizing rest with
  | zero => exact absurd h List.not_mem_nil
  | succ n ih =>
    rw [readLines] at h
    split at h
    · exact absurd h List.not_mem_nil
    · next line rest' hline =>
      rcases List.mem_cons.mp h with rfl | hmem
      · have hle := (length_chomp_le line).trans (length_le_of_fgets hline)
        exact Nat.lt_of_le_of_lt hle (by decide)
      · exact ih hmem

/-! ### All requests -/

/-- The requests in `SYNC` mode. -/
theorem syncRequests_inBounds_iff {filePaths : List Bytes}
    (hlength : ∀ filePath ∈ filePaths, filePath.length < fieldSize) :
    (∀ access ∈ syncRequests dirs filePaths, access.InBounds) ↔
      ∀ filePath ∈ filePaths.takeWhile (HasOutputFolder dirs ·),
        filePath.length + 12 < fieldSize := by
  -- a file that has no folder for its result ends the client
  induction filePaths with
  | nil => simp [syncRequests]
  | cons filePath filePaths ih =>
    obtain ⟨hfirst, hrest⟩ := List.forall_mem_cons.mp hlength
    rw [syncRequests, List.forall_mem_append, copies_inBounds_iff]
    by_cases h : HasOutputFolder dirs filePath
    · obtain ⟨result, -, hcopies⟩ := copies_of_hasOutputFolder h
      rw [hcopies, List.takeWhile_cons_of_pos (by simpa using h), List.forall_mem_cons,
        ← ih hrest]
      simp [hfirst, h]
    · rw [copies_of_not_hasOutputFolder h, List.takeWhile_cons_of_neg (by simpa using h)]
      simp [hfirst, h]

/-- In `ASYNC` mode the indexes come to it, which is no difference for a list that is short
enough. -/
theorem asyncRequests_inBounds_iff {i : ℕ} {filePaths : List Bytes}
    (h : i + filePaths.length ≤ listSize) :
    (∀ access ∈ asyncRequests dirs i filePaths, access.InBounds) ↔
      ∀ access ∈ syncRequests dirs filePaths, access.InBounds := by
  induction filePaths generalizing i with
  | nil => rfl
  | cons filePath filePaths ih =>
    rw [List.length_cons] at h
    have hi : i < listSize := by omega
    rw [asyncRequests, syncRequests, List.cons_append, List.forall_mem_cons,
      List.forall_mem_append, List.forall_mem_append]
    split
    · rw [List.forall_mem_cons, ih (by omega)]
      simp [Access.InBounds, hi]
    · simp [Access.InBounds, hi]

/-- The list of paths has an element for every line. -/
theorem filePathList_inBounds_iff (n : ℕ) :
    (∀ access ∈ (List.range n).map Access.filePathList, access.InBounds) ↔ n ≤ listSize := by
  rw [List.forall_mem_map]
  constructor
  · intro h
    by_contra hlt
    exact absurd (h listSize (List.mem_range.mpr (Nat.lt_of_not_le hlt))) (Nat.lt_irrefl _)
  · intro h i hi
    exact (List.mem_range.mp hi).trans_le h

theorem requests_file (fs : FileSystem) (mode : Mode) (path : Path)
    (hfits : path.bytes.length < maxFilePathSize) :
    requests fs mode (.file path hfits) =
      if fs.fopen path.bytes then (copies fs.toDirectories path.bytes).1 else [] := by
  cases mode with
  | sync => rfl
  | async => rfl

theorem requests_inBounds_iff (fs : FileSystem) (mode : Mode) (input : Input) :
    (∀ access ∈ requests fs mode input, access.InBounds) ↔ InputFits fs mode input := by
  cases input with
  | file path hfits =>
    rw [requests_file, InputFits]
    cases fs.fopen path.bytes with
    | false => simp
    | true => simpa using copies_inBounds_iff
  | files content =>
    -- `fgets` cuts the lines, so that every path of a list fits its field
    have hlength : ∀ filePath ∈ fileList content, filePath.length < fieldSize :=
      fun filePath hmem => length_lt_of_mem_readLines hmem
    cases mode with
    | sync =>
      rw [requests, syncRequests_inBounds_iff hlength]
      simp [InputFits]
    | async =>
      -- the paths are stored first, and then the requests are made
      rw [requests, List.forall_mem_append, filePathList_inBounds_iff]
      simp only [InputFits, true_implies]
      refine and_congr_right fun hshort => ?_
      rw [asyncRequests_inBounds_iff (by rwa [Nat.zero_add]), syncRequests_inBounds_iff hlength]

/-- All accesses of the client are inside their arrays if and only if the input fits. -/
theorem accesses_inBounds_iff (fs : FileSystem) (numEntries : ℕ) (mode : Mode) (input : Input) :
    (∀ access ∈ accesses fs numEntries mode input, access.InBounds) ↔
      Fits fs numEntries mode input := by
  unfold accesses Fits
  rcases Nat.eq_zero_or_pos numEntries with rfl | hpos
  · simp
  · rw [if_neg hpos.ne', requests_inBounds_iff]
    exact ⟨fun h _ => h, fun h => h hpos⟩

/-- A file system in which every file and every folder exists. -/
def everything : FileSystem := { allFolders with fopen := fun _ => true }

/-- A path of `n + 7` bytes. -/
def pathOfLength (n : ℕ) : Bytes := ascii "/input/" ++ List.replicate n 97

/-- In `ASYNC` mode the element behind the end of `file_path_list` is written for a list of 101
lines; in both modes the path of the result leaves its field for a file whose path has 88 bytes. -/
theorem long_list_leaves_array :
    (¬ ∀ access ∈ accesses everything 1 .async (.files (List.replicate 101 10)),
        access.InBounds) ∧
      (¬ ∀ access ∈ accesses everything 1 .async (.files (pathOfLength 81 ++ [10])),
        access.InBounds) ∧
      ¬ ∀ access ∈ accesses everything 1 .sync (.files (pathOfLength 81 ++ [10])),
        access.InBounds := by
  refine ⟨?_, ?_, ?_⟩ <;> decide +kernel

end ClientMain

end TinyFile

end OSLab
