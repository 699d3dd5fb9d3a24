import AdvancedOSLab.TinyFile.Entry

/-!
# The search for an unused entry

`find_and_set_shared_memory_entry_index` goes through the entries of the shared memory and takes the
first one that is not used. For that entry it writes `is_used`, `is_done` and the path of the file
before it looks whether the path contains `/input/` and whether there is a folder for the result. If
not, it returns `-1` out of the section that the mutex of the entry protects: the entry stays used,
with the path in it, and its mutex stays locked (`failed_search_keeps_entry`).

`-1` is also the answer when all entries are used, and for this reason `communicate_file_async`
calls the function again until it gets another one. After a failed search the second call blocks at
the locked mutex.

`search_atomic_iff` says for which entries and paths a search that fails leaves everything as it
was. Where the paths reach the type of the mutex behind their fields, be it with their terminator
only, the search has no result, and counts as one that does not.
-/

namespace OSLab

namespace TinyFile

open Bytes

/-- `find_and_set_shared_memory_entry_index`: the index it returns, with `none` for `-1`, and the
entries afterwards. -/
def findAndSetSharedMemoryEntryIndex (dirs : Directories) (filePath : Bytes) :
    List Entry → Option (Option ℕ × List Entry)
  | [] => some (none, [])
  | entry :: entries =>
    -- `pthread_mutex_lock` does not return
    if entry.mutex then none
    else
      match findAndSetEntry dirs filePath entry with
      | none => none
      | some (.busy, entry) =>
        (findAndSetSharedMemoryEntryIndex dirs filePath entries).map fun result =>
          (result.1.map (· + 1), entry :: result.2)
      | some (.taken, entry) => some (some 0, entry :: entries)
      | some (.failed, entry) => some (none, entry :: entries)

namespace Search

/-- The search has a result, and if that is `-1`, all entries are as before. -/
def Atomic (dirs : Directories) (filePath : Bytes) (entries : List Entry) : Prop :=
  ∃ index entries',
    findAndSetSharedMemoryEntryIndex dirs filePath entries = some (index, entries') ∧
      (index = none → entries' = entries)

/-- The path contains `/input/`, and the folder of the result exists or can be created. -/
def HasOutputFolder (dirs : Directories) (filePath : Bytes) : Prop :=
  ∃ split ∈ splitAtInput filePath,
    dirs.stat (outputFolder split.1) = true ∨ dirs.mkdir (outputFolder split.1) = true

instance (dirs : Directories) (filePath : Bytes) : Decidable (HasOutputFolder dirs filePath) :=
  inferInstanceAs (Decidable (∃ split ∈ splitAtInput filePath, _))

/-- There is a folder for the result, and the path of the result, which is 12 bytes longer than that
of the file, does not reach the type of the mutex. -/
def CanBeTaken (dirs : Directories) (filePath : Bytes) : Prop :=
  HasOutputFolder dirs filePath ∧ fieldSize + (filePath.length + 12) < mutexKindOffset

instance (dirs : Directories) (filePath : Bytes) : Decidable (CanBeTaken dirs filePath) :=
  inferInstanceAs (Decidable (_ ∧ _))

variable {dirs : Directories} {filePath : Bytes} {entry : Entry} {entries : List Entry}

/-! ### One entry -/

theorem findAndSetEntry_of_used (h : entry.isUsed = true) :
    findAndSetEntry dirs filePath entry = some (.busy, entry) := if_pos h

/-- For a file with a folder for its result both paths are copied. -/
theorem findAndSetEntry_of_hasOutputFolder (hfree : entry.isUsed = false)
    (h : HasOutputFolder dirs filePath) :
    ∃ result : Bytes, result.length = filePath.length + 12 ∧
      findAndSetEntry dirs filePath entry =
        (entry.paths.strcpy 0 filePath).bind fun paths =>
          (paths.strcpy fieldSize result).bind fun paths =>
            some (.taken, { entry with isUsed := true, isDone := false, paths := paths }) := by
  obtain ⟨⟨basePath, fileName⟩, hsplit, hfolder⟩ := h
  replace hsplit : splitAtInput filePath = some (basePath, fileName) := hsplit
  refine ⟨resultPath basePath fileName, length_resultPath hsplit, ?_⟩
  rcases hfolder with hstat | hmkdir
  · simp [findAndSetEntry, hfree, hsplit, hstat]
  · simp [findAndSetEntry, hfree, hsplit, hmkdir]

/-- For any other file only its own path is copied, and the mutex stays locked. -/
theorem findAndSetEntry_of_not_hasOutputFolder (hfree : entry.isUsed = false)
    (h : ¬ HasOutputFolder dirs filePath) :
    findAndSetEntry dirs filePath entry =
      (entry.paths.strcpy 0 filePath).bind fun paths =>
        some (.failed,
          { entry with isUsed := true, isDone := false, paths := paths, mutex := true }) := by
  cases hsplit : splitAtInput filePath with
  | none => simp [findAndSetEntry, hfree, hsplit]
  | some split =>
    have hfolder : dirs.stat (outputFolder split.1) = false ∧
        dirs.mkdir (outputFolder split.1) = false := by
      simpa [HasOutputFolder, hsplit] using h
    simp [findAndSetEntry, hfree, hsplit, hfolder]

/-- An unused entry is taken for a path that can be taken. -/
theorem exists_taken (hfree : entry.isUsed = false) (h : CanBeTaken dirs filePath) :
    ∃ entry', findAndSetEntry dirs filePath entry = some (.taken, entry') := by
  obtain ⟨hfolder, hfits⟩ := h
  obtain ⟨result, hlength, hcall⟩ := findAndSetEntry_of_hasOutputFolder hfree hfolder
  have hpath : 0 + filePath.length < mutexKindOffset := by omega
  have hresult : fieldSize + result.length < mutexKindOffset := by rwa [hlength]
  rw [hcall]
  simp only [PathFields.strcpy, if_pos hpath, if_pos hresult, Option.bind_some]
  exact ⟨_, rfl⟩

/-- For a path without a folder for the result the entry stays used, with its mutex locked. -/
theorem exists_failed (hfree : entry.isUsed = false) (h : ¬ HasOutputFolder dirs filePath)
    (hlength : filePath.length < mutexKindOffset) :
    ∃ entry', findAndSetEntry dirs filePath entry = some (.failed, entry') ∧
      entry'.isUsed = true ∧ entry'.mutex = true := by
  have hpath : 0 + filePath.length < mutexKindOffset := by rwa [Nat.zero_add]
  rw [findAndSetEntry_of_not_hasOutputFolder hfree h]
  simp only [PathFields.strcpy, if_pos hpath, Option.bind_some]
  exact ⟨_, rfl, rfl, rfl⟩

/-- In all cases but the first, the entry is locked or there is no result. -/
theorem locked_of_not_canBeTaken (hfree : entry.isUsed = false) (h : ¬ CanBeTaken dirs filePath)
    {outcome : Outcome} {entry' : Entry}
    (hcall : findAndSetEntry dirs filePath entry = some (outcome, entry')) :
    outcome = .failed ∧ entry'.mutex = true := by
  by_cases hfolder : HasOutputFolder dirs filePath
  · -- the folder is there, so the path of the result is too long
    obtain ⟨result, hlength, heq⟩ := findAndSetEntry_of_hasOutputFolder hfree hfolder
    have hlong : ¬ fieldSize + result.length < mutexKindOffset := by
      rw [hlength]
      exact fun hfits => h ⟨hfolder, hfits⟩
    rw [heq] at hcall
    simp [PathFields.strcpy, hlong] at hcall
  · rw [findAndSetEntry_of_not_hasOutputFolder hfree hfolder] at hcall
    obtain ⟨paths, -, heq⟩ := Option.bind_eq_some_iff.mp hcall
    obtain ⟨rfl, rfl⟩ := Prod.mk.inj (Option.some.inj heq)
    exact ⟨rfl, rfl⟩

/-! ### All entries -/

theorem search_cons_of_used (hmutex : entry.mutex = false) (hused : entry.isUsed = true) :
    findAndSetSharedMemoryEntryIndex dirs filePath (entry :: entries) =
      (findAndSetSharedMemoryEntryIndex dirs filePath entries).map fun result =>
        (result.1.map (· + 1), entry :: result.2) := by
  rw [findAndSetSharedMemoryEntryIndex, hmutex, findAndSetEntry_of_used hused]
  rfl

/-- At the first unused entry the search ends, with an index if it can be taken. -/
theorem search_cons_of_taken (hmutex : entry.mutex = false) {entry' : Entry}
    (h : findAndSetEntry dirs filePath entry = some (.taken, entry')) :
    findAndSetSharedMemoryEntryIndex dirs filePath (entry :: entries) =
      some (some 0, entry' :: entries) := by
  rw [findAndSetSharedMemoryEntryIndex, hmutex, h]
  rfl

theorem search_cons_of_failed (hmutex : entry.mutex = false) {entry' : Entry}
    (h : findAndSetEntry dirs filePath entry = some (.failed, entry')) :
    findAndSetSharedMemoryEntryIndex dirs filePath (entry :: entries) =
      some (none, entry' :: entries) := by
  rw [findAndSetSharedMemoryEntryIndex, hmutex, h]
  rfl

/-- The result of the search, where an entry is unused and the paths fit their fields. -/
theorem exists_search (hfree : ∀ entry ∈ entries, entry.mutex = false)
    (hunused : ∃ entry ∈ entries, entry.isUsed = false)
    (hlength : filePath.length < mutexKindOffset)
    (hresult : HasOutputFolder dirs filePath → CanBeTaken dirs filePath) :
    ∃ index entries', findAndSetSharedMemoryEntryIndex dirs filePath entries =
        some (index, entries') ∧
      index.isSome = decide (HasOutputFolder dirs filePath) := by
  -- on the entries, in the order of the search
  induction entries with
  | nil => simp at hunused
  | cons entry entries ih =>
    obtain ⟨hmutex, hrest⟩ := List.forall_mem_cons.mp hfree
    cases hused : entry.isUsed with
    | true =>
      rw [List.exists_mem_cons_iff, hused] at hunused
      obtain ⟨index, entries', hcall, hindex⟩ := ih hrest (hunused.resolve_left (by simp))
      refine ⟨index.map (· + 1), entry :: entries', ?_, by rwa [Option.isSome_map]⟩
      rw [search_cons_of_used hmutex hused, hcall]
      rfl
    | false =>
      -- the first unused entry decides, one way or the other
      by_cases hfolder : HasOutputFolder dirs filePath
      · obtain ⟨entry', htaken⟩ := exists_taken hused (hresult hfolder)
        exact ⟨_, _, search_cons_of_taken hmutex htaken, by simp [hfolder]⟩
      · obtain ⟨entry', hfailed, -⟩ := exists_failed hused hfolder hlength
        exact ⟨_, _, search_cons_of_failed hmutex hfailed, by simp [hfolder]⟩

/-- An entry in use is passed over. -/
theorem atomic_cons_of_used (hmutex : entry.mutex = false) (hused : entry.isUsed = true) :
    Atomic dirs filePath (entry :: entries) ↔ Atomic dirs filePath entries := by
  unfold Atomic
  rw [search_cons_of_used hmutex hused]
  cases findAndSetSharedMemoryEntryIndex dirs filePath entries with
  | none => simp
  | some result =>
    obtain ⟨index, entries'⟩ := result
    cases index with
    | none => simp
    | some i => simp

/-- At the first unused entry the search ends. -/
theorem atomic_cons_of_unused (hmutex : entry.mutex = false) (hunused : entry.isUsed = false) :
    Atomic dirs filePath (entry :: entries) ↔ CanBeTaken dirs filePath := by
  constructor
  · rintro ⟨index, entries', hcall, hsame⟩
    by_contra hnot
    cases hentry : findAndSetEntry dirs filePath entry with
    | none => simp [findAndSetSharedMemoryEntryIndex, hmutex, hentry] at hcall
    | some result =>
      obtain ⟨outcome, entry'⟩ := result
      obtain ⟨rfl, hlocked⟩ := locked_of_not_canBeTaken hunused hnot hentry
      rw [search_cons_of_failed hmutex hentry] at hcall
      obtain ⟨rfl, rfl⟩ := Prod.mk.inj (Option.some.inj hcall)
      -- the mutex of the entry was free before
      obtain ⟨rfl, -⟩ := List.cons.inj (hsame rfl)
      exact absurd (hmutex.symm.trans hlocked) (by decide)
  · intro h
    obtain ⟨entry', htaken⟩ := exists_taken hunused h
    exact ⟨some 0, _, search_cons_of_taken hmutex htaken, fun hnone => absurd hnone (by simp)⟩

/-- For all entries with free mutexes and every path, a search leaves everything as it was when it
returns `-1` if and only if all entries are used or the path can be taken. -/
theorem search_atomic_iff (dirs : Directories) (filePath : Bytes) (entries : List Entry)
    (hfree : ∀ entry ∈ entries, entry.mutex = false) :
    Atomic dirs filePath entries ↔
      (∀ entry ∈ entries, entry.isUsed = true) ∨ CanBeTaken dirs filePath := by
  -- on the entries: the first one is passed over, or the search ends there
  induction entries with
  | nil =>
    exact iff_of_true ⟨none, [], rfl, fun _ => rfl⟩ (.inl fun _ h => absurd h List.not_mem_nil)
  | cons entry entries ih =>
    have hmutex := hfree entry List.mem_cons_self
    cases hused : entry.isUsed with
    | true =>
      rw [atomic_cons_of_used hmutex hused,
        ih fun entry hentry => hfree entry (List.mem_cons_of_mem _ hentry), List.forall_mem_cons]
      simp only [hused, true_and]
    | false =>
      rw [atomic_cons_of_unused hmutex hused, List.forall_mem_cons]
      simp only [hused, Bool.false_eq_true, false_and, false_or]

/-- With the only entry in use, a search fails and changes nothing, also for a path without
`/input/`. -/
theorem search_atomic_used :
    Atomic allFolders (ascii "a") [{ Entry.fresh with isUsed := true }] :=
  (search_atomic_iff _ _ _ (by decide)).mpr (.inl (by decide))

/-- A search with an unused entry and a path that contains no `/input/`: it returns `-1` and leaves
the entry used and its mutex locked. The next search blocks, whatever the path. -/
theorem failed_search_keeps_entry :
    ∃ entry, findAndSetSharedMemoryEntryIndex allFolders (ascii "a") [Entry.fresh] =
        some (none, [entry]) ∧
      entry.isUsed = true ∧ entry.mutex = true ∧
      ¬ Atomic allFolders (ascii "a") [Entry.fresh] ∧
      ∀ filePath, findAndSetSharedMemoryEntryIndex allFolders filePath [entry] = none := by
  have hfolder : ¬ HasOutputFolder allFolders (ascii "a") := by decide
  have hunused : Entry.fresh.isUsed = false := rfl
  obtain ⟨entry, hfailed, hused, hlocked⟩ := exists_failed hunused hfolder (by decide)
  refine ⟨entry, search_cons_of_failed rfl hfailed, hused, hlocked, ?_, fun filePath => ?_⟩
  · exact fun h => hfolder ((atomic_cons_of_unused rfl hunused).mp h).1
  · rw [findAndSetSharedMemoryEntryIndex, hlocked]
    rfl

end Search

end TinyFile

end OSLab
