import AdvancedOSLab.GTFS.FileTable

/-!
# The number of files of a directory

A directory can have `MAX_NUM_FILES_PER_DIR` files. `gtfs_open_file` refuses when there are *more*
than that many names in `directory_files_mapping`, and it does so before it looks whether the name
is one of them. Hence one file more than permitted can be opened, and from then on no file of the
directory can be opened at all, not even one that is in the tables (`one_file_too_many`).

`limit_kept_iff` says when the limit is kept: every name that is not in the tables is opened while
there are fewer files than permitted.
-/

namespace OSLab
namespace GTFS
namespace FileLimit

open Bytes Process FileTable

/-- The name is in the tables, or there is room for another one. -/
def HasRoom (dir : Bytes) (s : Process) (filename : Bytes) : Prop :=
  (s.filenameFileMapping filename).isSome ∨
    (s.directoryFilesMapping dir).length < maxNumFilesPerDir

instance (dir : Bytes) (s : Process) (filename : Bytes) : Decidable (HasRoom dir s filename) :=
  inferInstanceAs (Decidable (_ ∨ _))

/-- The calls are made on one directory, and new files are opened only while there is room. -/
def withRoom (dir : Bytes) (s : Process) : Label → Prop
  | .init _ directory => directory = dir
  | .openFile _ _ filename _ => HasRoom dir s filename
  | _ => True

instance (dir : Bytes) (s : Process) (l : Label) : Decidable (withRoom dir s l) :=
  match l with
  | .init _ directory => inferInstanceAs (Decidable (directory = dir))
  | .openFile .. => inferInstanceAs (Decidable (HasRoom ..))
  | .closeFile .. | .removeFile .. | .writeFile .. | .syncWriteFile .. | .abortWriteFile ..
  | .clean .. | .others .. => .isTrue trivial

/-- There are no more files than permitted, and opening a file of the tables with a sufficient
length succeeds, unless a system call fails. -/
structure LimitKept (dir : Bytes) (s : Process) : Prop where
  count : (s.directoryFilesMapping dir).length ≤ maxNumFilesPerDir
  reopens : ∀ (env : Env) (g f : ℕ) (file : FileT) (filename : Bytes) (fileLength : ℤ),
    s.gtfs[g]? = some dir → s.filenameFileMapping filename = some f → s.files[f]? = some file →
    file.fileLength ≤ fileLength → env.openFails = false → env.lockFails = false →
    ∃ s', gtfsOpenFile env (some g) filename fileLength s = some (some f, s')

variable {env : Env} {dir dirname filename : Bytes} {s s' : Process} {fileLength : ℤ}

/-! ### What is in the tables -/

/-- The names in the tables have passed the check of their length. -/
def ShortNames (s : Process) : Prop :=
  ∀ name, (s.filenameFileMapping name).isSome → name.length ≤ maxFilenameLen

theorem ShortNames.record (h : ShortNames s) (hopened : ¬ Refused env dirname filename s) :
    ∀ name, (Function.update s.filenameFileMapping filename (some s.files.length) name).isSome →
      name.length ≤ maxFilenameLen := by
  intro name hname
  by_cases heq : name = filename
  · subst heq
    exact not_lt.mp fun hlt => hopened (.inl hlt)
  · rw [Function.update_of_ne heq] at hname
    exact h name hname

/-- Every call keeps the names short: only an open that passed the check adds one. -/
theorem ShortNames.step {disk : Disk} {l : Label} (h : ShortNames s)
    (hstep : (system disk).step s l = some s') : ShortNames s' := by
  cases step_effect hstep with
  | openFile hdirname hopening =>
    cases hopening with
    | refused | notLocked | tooShort | known => exact h
    | notRecovered hopened | recovered hopened => exact h.record hopened
  | removeFile hdirname hfile hremoval =>
    cases hremoval with
    | refused | logStays => exact h
    | removed =>
      intro name hname
      -- a removal takes a name out
      replace hname : (Function.update s.filenameFileMapping _ none name).isSome = true := hname
      rw [Function.update_apply] at hname
      split at hname
      · exact absurd hname (by simp)
      · exact h name hname
  | syncWriteFile hw hsyncing => cases hsyncing <;> exact h
  | nothing | init | closeFile | writeFile | abortWriteFile | clean | others => exact h

/-- The number of files after a call: it grows only by an open of a name that was not there. -/
theorem length_directoryFiles_step {disk : Disk} {l : Label} (h : Invariant dir s)
    (hl : withRoom dir s l)
    (hcount : (s.directoryFilesMapping dir).length ≤ maxNumFilesPerDir)
    (hstep : (system disk).step s l = some s') :
    (s'.directoryFilesMapping dir).length ≤ maxNumFilesPerDir := by
  -- an open that records the name had room for it
  have hrecord : ∀ filename, HasRoom dir s filename → s.filenameFileMapping filename = none →
      (Function.update s.directoryFilesMapping dir (s.directoryFilesMapping dir ++ [filename])
        dir).length ≤ maxNumFilesPerDir := by
    intro filename hroom hnew
    rw [HasRoom, hnew] at hroom
    rw [Function.update_self, List.length_append, List.length_singleton]
    exact hroom.resolve_left (by simp)
  cases step_effect hstep with
  | openFile hdirname hopening =>
    obtain rfl := h.gtfs _ hdirname
    cases hopening with
    | refused | notLocked | tooShort | known => exact hcount
    | notRecovered hopened hlock hnew | recovered hopened hnew => exact hrecord _ hl hnew
  | removeFile hdirname hfile hremoval =>
    obtain rfl := h.gtfs _ hdirname
    cases hremoval with
    | refused | logStays => exact hcount
    | @removed file =>
      refine le_trans ?_ hcount
      show (Function.update s.directoryFilesMapping _ _ _).length ≤ _
      rw [Function.update_self]
      exact List.length_erase_le
  | syncWriteFile hw hsyncing => cases hsyncing <;> exact hcount
  | nothing | init | closeFile | writeFile | abortWriteFile | clean | others => exact hcount

/-! ### All runs -/

/-- The invariant of a run. -/
structure Kept (dir : Bytes) (s : Process) : Prop where
  table : Invariant dir s
  shortNames : ShortNames s
  count : (s.directoryFilesMapping dir).length ≤ maxNumFilesPerDir

theorem oneDirectory_of_withRoom {l : Label} (h : withRoom dir s l) : oneDirectory dir s l := by
  cases l with
  | init => exact h
  | _ => trivial

theorem Kept.step {disk : Disk} {l : Label} (h : Kept dir s) (hl : withRoom dir s l)
    (hstep : (system disk).step s l = some s') : Kept dir s' where
  table := h.table.step (oneDirectory_of_withRoom hl) hstep
  shortNames := h.shortNames.step hstep
  count := length_directoryFiles_step h.table hl h.count hstep

theorem kept_of_reachable {disk : Disk} (hr : (system disk).Reachable (withRoom dir) s) :
    Kept dir s := by
  have h₀ : Kept dir (fresh disk) :=
    ⟨invariant_of_reachable .init, fun _ h => absurd h (by simp [fresh]), Nat.zero_le _⟩
  exact hr.invariant h₀ fun _ _ _ _ h hl hstep => h.step hl hstep

/-- With no more files than permitted, a file of the tables can be opened again. -/
theorem Kept.limitKept (h : Kept dir s) : LimitKept dir s where
  count := h.count
  reopens env g f file filename fileLength hg hf hfile hlength hopen hlock := by
    have hname : ¬ maxFilenameLen < filename.length :=
      not_lt.mpr (h.shortNames filename (by rw [hf]; rfl))
    have hcount : ¬ maxNumFilesPerDir < (s.directoryFilesMapping dir).length :=
      not_lt.mpr h.count
    refine ⟨{ created (fullFilePath (env.root dir) filename) s with
      files := s.files.set f { file with fileLength, isOpen := true } }, ?_⟩
    simp only [gtfsOpenFile, hg, Option.bind_eq_bind, Option.bind_some, if_neg hname,
      if_neg hcount, hopen, hlock, Bool.false_eq_true, if_false, hf, hfile,
      if_neg (Int.not_lt.mpr hlength)]
    rfl

/-- In every run in which new files are opened only while there is room, the limit is kept. And from
such a run, an open that returns a `file_t` keeps the limit if and only if the name was in the
tables or there was room. -/
theorem limit_kept_iff (dir : Bytes) (disk : Disk) (s : Process)
    (hr : (system disk).Reachable (withRoom dir) s) :
    LimitKept dir s ∧ ∀ (env : Env) (g f : ℕ) (filename : Bytes) (fileLength : ℤ) (s' : Process),
      gtfsOpenFile env (some g) filename fileLength s = some (some f, s') →
      (LimitKept dir s' ↔ HasRoom dir s filename) := by
  have h := kept_of_reachable hr
  refine ⟨h.limitKept, fun env g f filename fileLength s' hcall => ?_⟩
  refine ⟨fun hkept => ?_, fun hroom => ?_⟩
  · obtain ⟨dirname, hdirname, hopening⟩ := gtfsOpenFile_cases hcall
    obtain rfl := h.table.gtfs dirname (List.mem_of_getElem? hdirname)
    cases hopening with
    | known hopened hknown => exact .inl (by rw [hknown]; rfl)
    | recovered hopened hnew =>
      -- the name was added to those of the directory
      have hcount := hkept.count
      replace hcount : (Function.update s.directoryFilesMapping dirname
          (s.directoryFilesMapping dirname ++ [filename]) dirname).length ≤ maxNumFilesPerDir :=
        hcount
      rw [Function.update_self, List.length_append, List.length_singleton] at hcount
      exact .inr hcount
  · have hstep : (system disk).step s (.openFile env (some g) filename fileLength) = some s' := by
      show (gtfsOpenFile env (some g) filename fileLength s).map Prod.snd = some s'
      rw [hcall, Option.map_some]
    exact (h.step (l := .openFile env (some g) filename fileLength) hroom hstep).limitKept

theorem limit_kept_two_files :
    ∃ s, (system fun _ => none).Reachable (withRoom (ascii "/d")) s ∧
      s.directoryFilesMapping (ascii "/d") = [ascii "a", ascii "b"] ∧ LimitKept (ascii "/d") s := by
  have hrun : ((system fun _ => none).guardedRun (withRoom (ascii "/d")) (system fun _ => none).init
      [.init (.quiet [] fun _ => []) (ascii "/d"),
        .openFile (.quiet [] fun _ => []) (some 0) (ascii "a") 10,
        .openFile (.quiet [] fun _ => []) (some 0) (ascii "b") 10]).any
      (fun s => decide (s.directoryFilesMapping (ascii "/d") = [ascii "a", ascii "b"])) = true := by
    decide +kernel
  obtain ⟨s, hr, hs⟩ := System.Reachable.of_any hrun
  exact ⟨s, hr, of_decide_eq_true hs, (limit_kept_iff _ _ s hr).1⟩

/-! ### One file more than permitted -/

/-- Opening a file that is neither in the tables nor has a log. -/
theorem gtfsOpenFile_of_new (fileLength : ℤ) {g : ℕ} (hg : s.gtfs[g]? = some dirname)
    (hopened : ¬ Refused env dirname filename s) (hlock : env.lockFails = false)
    (hnew : s.filenameFileMapping filename = none)
    (hlog : s.disk (fullLogPath (env.root dirname) filename) = none) :
    gtfsOpenFile env (some g) filename fileLength s = some (some s.files.length,
      clearLog env filename (fullLogPath (env.root dirname) filename)
        (record dirname filename fileLength
          (created (fullFilePath (env.root dirname) filename) s))) := by
  obtain ⟨hname, hrest⟩ := not_or.mp hopened
  obtain ⟨hcount, hopen⟩ := not_or.mp hrest
  have hlog' : create (fullFilePath (env.root dirname) filename) s.disk
      (fullLogPath (env.root dirname) filename) = none := by
    rw [create_of_ne (fullLogPath_ne _ _), hlog]
  simp only [gtfsOpenFile, hg, Option.bind_eq_bind, Option.bind_some, if_neg hname, if_neg hcount,
    if_neg hopen, hlock, Bool.false_eq_true, if_false, hnew]
  simp only [recover, record, hlog']
  rfl

/-- The files `0`, `1`, ... up to the `n`-th have been opened with length one, and the logs of the
others do not exist. -/
structure Filled (n : ℕ) (s : Process) : Prop where
  gtfs : s.gtfs[0]? = some (ascii "/d")
  names : s.directoryFilesMapping (ascii "/d") = (List.range n).map decimal
  lengths : ∀ file ∈ s.files, file.fileLength = 1
  logs : ∀ k, n ≤ k → s.disk (fullLogPath (ascii "/d") (decimal k)) = none

/-- The data file of a numbered file is no log of one. -/
theorem fullLogPath_decimal_ne (dirname : Bytes) (n k : ℕ) :
    fullLogPath dirname (decimal k) ≠ fullFilePath dirname (decimal n) := by
  rw [fullLogPath_eq, Ne, fullFilePath_inj]
  intro heq
  have hdot : (46 : UInt8) ∈ decimal n := heq ▸ List.mem_append_right _ (by decide)
  exact notMem_decimal (by decide) n hdot

/-- As long as there are no more files than permitted, another one can be opened. -/
theorem Filled.openNext {n : ℕ} (h : Filled n s) (htable : Consistent (ascii "/d") s)
    (hn : n ≤ maxNumFilesPerDir) :
    ∃ f s', gtfsOpenFile (.quiet [] fun _ => []) (some 0) (decimal n) 1 s = some (some f, s') ∧
      Filled (n + 1) s' := by
  have hroot : (Env.quiet [] fun _ => []).root (ascii "/d") = ascii "/d" :=
    Env.root_of_isAbsolute _ (by decide)
  -- the checks of the open: the name is short, and there are not too many files
  have hopened : ¬ Refused (.quiet [] fun _ => []) (ascii "/d") (decimal n) s := by
    rw [Refused, h.names, List.length_map, List.length_range]
    have hlength : (decimal n).length ≤ 4 :=
      (length_decimal_le_iff (by decide)).mpr (hn.trans_lt (by decide))
    rintro (hlong | hmany | hopen)
    · exact absurd (hlong.trans_le hlength) (by decide)
    · exact absurd hmany (not_lt.mpr hn)
    · exact absurd hopen (by decide)
  -- a number that is not below `n` is not in the table
  have hnew : s.filenameFileMapping (decimal n) = none := by
    refine Option.not_isSome_iff_eq_none.mp fun hsome => ?_
    have hmem := (htable.mem_iff (decimal n)).mpr hsome
    rw [h.names, List.mem_map] at hmem
    obtain ⟨k, hk, heq⟩ := hmem
    exact absurd (decimal_injective heq ▸ List.mem_range.mp hk) (lt_irrefl _)
  have hlog : s.disk (fullLogPath ((Env.quiet [] fun _ => []).root (ascii "/d")) (decimal n)) =
      none := by
    rw [hroot]
    exact h.logs n le_rfl
  have hcall := gtfsOpenFile_of_new 1 h.gtfs hopened rfl hnew hlog
  rw [hroot] at hcall
  -- the new file is the last of the directory, and the later ones have no log yet
  refine ⟨_, _, hcall, h.gtfs, ?_, fun file hfile => ?_, fun k hk => ?_⟩
  · show Function.update s.directoryFilesMapping (ascii "/d") _ (ascii "/d") = _
    rw [Function.update_self, List.range_succ, List.map_append, ← h.names]
    rfl
  · rcases List.mem_append.mp hfile with hold | hlast
    · exact h.lengths file hold
    · rw [List.mem_singleton.mp hlast]
  · have hne : fullLogPath (ascii "/d") (decimal k) ≠ fullLogPath (ascii "/d") (decimal n) :=
      fun heq => absurd (decimal_injective (fullLogPath_inj.mp heq)) (Nat.ne_of_gt hk)
    rw [clearLog_disk_of_ne _ hne]
    exact (create_of_ne (fullLogPath_decimal_ne _ _ _) s.disk).trans
      (h.logs k (Nat.le_of_succ_le hk))

/-- Up to one more than the permitted number of files can be opened. -/
theorem exists_filled (n : ℕ) (hn : n ≤ maxNumFilesPerDir + 1) :
    ∃ s, (system fun _ => none).Reachable (oneDirectory (ascii "/d")) s ∧ Filled n s := by
  induction n with
  | zero =>
    have hr : (system fun _ => none).Reachable (oneDirectory (ascii "/d"))
        (gtfsInit (.quiet [] fun _ => []) (ascii "/d") (fresh fun _ => none)).2 :=
      System.Reachable.init.step (l := Label.init (.quiet [] fun _ => []) (ascii "/d")) rfl rfl
    exact ⟨_, hr, rfl, rfl, fun file hfile => absurd hfile List.not_mem_nil, fun _ _ => rfl⟩
  | succ n ih =>
    obtain ⟨s, hr, hs⟩ := ih (Nat.le_of_succ_le hn)
    obtain ⟨f, s', hcall, hs'⟩ := hs.openNext (tables_in_step _ _ s hr) (Nat.le_of_succ_le_succ hn)
    refine ⟨s', hr.step (l := Label.openFile (.quiet [] fun _ => []) (some 0) (decimal n) 1)
      trivial ?_, hs'⟩
    show (gtfsOpenFile _ (some 0) (decimal n) 1 s).map Prod.snd = some s'
    rw [hcall, Option.map_some]

/-- 1025 files are opened in one directory. All of them are in the tables, and none of them can be
opened again. -/
theorem one_file_too_many :
    ∃ s f file, (system fun _ => none).Reachable (oneDirectory (ascii "/d")) s ∧
      (s.directoryFilesMapping (ascii "/d")).length = 1025 ∧
      s.filenameFileMapping (ascii "0") = some f ∧ s.files[f]? = some file ∧
      file.fileLength ≤ 1 ∧
      gtfsOpenFile (.quiet [] fun _ => []) (some 0) (ascii "0") 1 s = some (none, s) := by
  obtain ⟨s, hr, hs⟩ := exists_filled (maxNumFilesPerDir + 1) le_rfl
  have htable := tables_in_step _ _ s hr
  have hcount : (s.directoryFilesMapping (ascii "/d")).length = 1025 := by
    rw [hs.names, List.length_map, List.length_range]
  have hmem : ascii "0" ∈ s.directoryFilesMapping (ascii "/d") := by
    rw [hs.names]
    exact List.mem_map.mpr ⟨0, List.mem_range.mpr (Nat.succ_pos _), by decide⟩
  obtain ⟨f, hf⟩ := Option.isSome_iff_exists.mp ((htable.mem_iff _).mp hmem)
  obtain ⟨file, hfile, -⟩ := Option.map_eq_some_iff.mp (htable.filename_eq _ f hf)
  refine ⟨s, f, file, hr, hcount, hf, hfile,
    Int.le_of_eq (hs.lengths file (List.mem_of_getElem? hfile)), ?_⟩
  -- the check for too many files comes before the file is looked up
  have hmany : maxNumFilesPerDir < (s.directoryFilesMapping (ascii "/d")).length := by
    rw [hcount]
    decide
  simp only [gtfsOpenFile, hs.gtfs, Option.bind_eq_bind, Option.bind_some, if_pos hmany]
  rfl

end FileLimit
end GTFS
end OSLab
