import AdvancedOSLab.GTFS.Process

/-!
# What the calls of GTFS can do

Every call of the API gives up at many places, with some of its work done. This module says once,
for each call, in which states it can end and what has been checked on the way there. The results
on the tables, on the disk and on whole runs are proved from these lists of cases and do not unfold
the calls again.

* `gtfs_open_file` ends in one of the six ways of `Opening`, the last two of which are those of the
  recovery of a file that was not in the tables;
* `gtfs_remove_file` in one of the three of `Removal`: the one in the middle leaves a log, or the
  entry in the tables, of a file that is gone;
* `gtfs_sync_write_file` in one of the four of `Syncing`.

The other calls have at most two cases each. `Effect` puts the cases of all calls together:
`step_effect` says that every step of the system is one of them, and an invariant of the process is
proved by cases on it.
-/

namespace OSLab
namespace GTFS
namespace Process

open Text Bytes

variable {env : Env} {s s' : Process}

/-! ### Initialising a directory -/

/-- A directory gets a new `gtfs_t`, unless the path is no directory or has one already. -/
theorem gtfsInit_cases (env : Env) (directory : Bytes) (s : Process) :
    (gtfsInit env directory s).2 = s ∨ ∃ mapping, (gtfsInit env directory s).2 =
      { s with gtfs := s.gtfs ++ [directory], directoryGtfsMapping := mapping } := by
  unfold gtfsInit
  split
  · exact .inl rfl
  · split
    · exact .inl rfl
    · exact .inr ⟨_, rfl⟩

/-! ### Opening a file -/

/-- `gtfs_open_file` gives up before it has done anything. -/
def Refused (env : Env) (dirname filename : Bytes) (s : Process) : Prop :=
  maxFilenameLen < filename.length ∨
    maxNumFilesPerDir < (s.directoryFilesMapping dirname).length ∨ env.openFails = true

/-- To create a file is to give it the contents it has, or none. -/
theorem create_eq_update (path : Bytes) (disk : Disk) :
    create path disk = Function.update disk path (some ((disk path).getD [])) := by
  unfold create
  cases h : disk path with
  | none => rfl
  | some c =>
    show disk = Function.update disk path (some c)
    rw [← h, Function.update_eq_self]

theorem create_of_ne {path path' : Bytes} (h : path' ≠ path) (disk : Disk) :
    create path disk path' = disk path' := by
  rw [create_eq_update, Function.update_of_ne h]

theorem isSome_create_self (path : Bytes) (disk : Disk) : (create path disk path).isSome := by
  rw [create_self]
  rfl

/-- The process after `open` with `O_CREAT`. -/
def created (path : Bytes) (s : Process) : Process := { s with disk := create path s.disk }

@[simp] theorem created_disk (path : Bytes) (s : Process) :
    (created path s).disk = create path s.disk := rfl

/-- The disk after a recovery that comes to its end. `bare` is the path that is asked for the data
file. -/
inductive Recovered (root bare logPath : Bytes) (disk : Disk) : Disk → Prop
  | noLog (hlog : disk logPath = none) : Recovered root bare logPath disk disk
  | redone {log : Bytes} {disk' : Disk} (hlog : disk logPath = some log)
      (hbare : (disk bare).isSome) (hreplay : replay root (logLines log) disk = some disk') :
      Recovered root bare logPath disk disk'

/-- The ways in which `gtfs_open_file` ends, with its result and the state. -/
inductive Opening (env : Env) (dirname filename : Bytes) (fileLength : ℤ) (s : Process) :
    Option ℕ → Process → Prop
  | refused (hrefused : Refused env dirname filename s) :
      Opening env dirname filename fileLength s none s
  | notLocked (hopened : ¬ Refused env dirname filename s) (hlock : env.lockFails = true) :
      Opening env dirname filename fileLength s none
        (created (fullFilePath (env.root dirname) filename) s)
  | tooShort {f : ℕ} {file : FileT} (hopened : ¬ Refused env dirname filename s)
      (hknown : s.filenameFileMapping filename = some f) (hfile : s.files[f]? = some file)
      (hlength : fileLength < file.fileLength) :
      Opening env dirname filename fileLength s none
        (created (fullFilePath (env.root dirname) filename) s)
  | known {f : ℕ} {file : FileT} (hopened : ¬ Refused env dirname filename s)
      (hknown : s.filenameFileMapping filename = some f) (hfile : s.files[f]? = some file)
      (hlength : file.fileLength ≤ fileLength) :
      Opening env dirname filename fileLength s (some f)
        { created (fullFilePath (env.root dirname) filename) s with
          files := s.files.set f { file with fileLength, isOpen := true } }
  -- the tables keep a file that was not returned
  | notRecovered (hopened : ¬ Refused env dirname filename s) (hlock : env.lockFails = false)
      (hnew : s.filenameFileMapping filename = none)
      (hlog : (s.disk (fullLogPath (env.root dirname) filename)).isSome) :
      Opening env dirname filename fileLength s none
        (record dirname filename fileLength
          (created (fullFilePath (env.root dirname) filename) s))
  | recovered {disk : Disk} (hopened : ¬ Refused env dirname filename s)
      (hnew : s.filenameFileMapping filename = none)
      (hrecovered : Recovered (env.root dirname) (env.resolve filename)
        (fullLogPath (env.root dirname) filename)
        (create (fullFilePath (env.root dirname) filename) s.disk) disk) :
      Opening env dirname filename fileLength s (some s.files.length)
        (clearLog env filename (fullLogPath (env.root dirname) filename)
          { record dirname filename fileLength s with disk := disk })

/-- The end of `gtfs_open_file` for a file that was not in the tables: it gives up over a log that
it cannot replay, or the replay comes to its end and the log is cleared. -/
theorem recover_cases {dirname filename : Bytes} {f : ℕ} {res : Option ℕ}
    (h : recover env dirname filename f s = some (res, s')) :
    (res = none ∧ s' = s ∧ (s.disk (fullLogPath (env.root dirname) filename)).isSome) ∨
      ∃ disk, Recovered (env.root dirname) (env.resolve filename)
          (fullLogPath (env.root dirname) filename) s.disk disk ∧
        res = some f ∧
        s' = clearLog env filename (fullLogPath (env.root dirname) filename)
          { s with disk := disk } := by
  unfold recover at h
  dsimp only at h
  split at h
  · next log hlog =>
    -- `sync_log_to_file` returns -1 for a missing data file, looked for under its bare name
    obtain ⟨⟨ret, disk⟩, hsync, h⟩ := Option.bind_eq_some_iff.mp h
    dsimp only at h
    rcases syncLogToFile_cases hsync with ⟨rfl, rfl, -⟩ | ⟨rfl, hbare, log', hlog', hreplay⟩
    · rw [if_pos rfl] at h
      obtain ⟨rfl, rfl⟩ := Prod.mk.inj (Option.some.inj h)
      exact .inl ⟨rfl, rfl, by rw [hlog]; rfl⟩
    · rw [if_neg (by decide)] at h
      obtain ⟨rfl, rfl⟩ := Prod.mk.inj (Option.some.inj h)
      exact .inr ⟨disk, .redone hlog' hbare hreplay, rfl, rfl⟩
  · next hlog =>
    obtain ⟨rfl, rfl⟩ := Prod.mk.inj (Option.some.inj h)
    exact .inr ⟨s.disk, .noLog hlog, rfl, rfl⟩

/-- **`gtfs_open_file`** ends in one of the ways of `Opening`. -/
theorem gtfsOpenFile_cases {g : ℕ} {filename : Bytes} {fileLength : ℤ} {res : Option ℕ}
    (h : gtfsOpenFile env (some g) filename fileLength s = some (res, s')) :
    ∃ dirname, s.gtfs[g]? = some dirname ∧ Opening env dirname filename fileLength s res s' := by
  obtain ⟨dirname, hdirname, h⟩ := Option.bind_eq_some_iff.mp h
  refine ⟨dirname, hdirname, ?_⟩
  by_cases hrefused : Refused env dirname filename s
  · -- whichever of the three checks fails first, nothing has been done
    have hgivesUp : some (none, s) = some (res, s') := by
      by_cases hlength : maxFilenameLen < filename.length
      · rwa [if_pos hlength] at h
      · rw [if_neg hlength] at h
        by_cases hmany : maxNumFilesPerDir < (s.directoryFilesMapping dirname).length
        · rwa [if_pos hmany] at h
        · rwa [if_neg hmany, if_pos ((hrefused.resolve_left hlength).resolve_left hmany)] at h
    obtain ⟨rfl, rfl⟩ := Prod.mk.inj (Option.some.inj hgivesUp)
    exact .refused hrefused
  · obtain ⟨hlength, hrest⟩ := not_or.mp hrefused
    obtain ⟨hmany, hopen⟩ := not_or.mp hrest
    rw [if_neg hlength, if_neg hmany, if_neg hopen] at h
    dsimp only at h
    split at h
    · next hlock =>
      obtain ⟨rfl, rfl⟩ := Prod.mk.inj (Option.some.inj h)
      exact .notLocked hrefused hlock
    · next hlock =>
      split at h
      · next f hknown =>
        obtain ⟨file, hfile, h⟩ := Option.bind_eq_some_iff.mp h
        split at h
        · next hlength =>
          obtain ⟨rfl, rfl⟩ := Prod.mk.inj (Option.some.inj h)
          exact .tooShort hrefused hknown hfile hlength
        · next hlength =>
          obtain ⟨rfl, rfl⟩ := Prod.mk.inj (Option.some.inj h)
          exact .known hrefused hknown hfile (Int.not_lt.mp hlength)
      · next hnew =>
        -- the log is looked for after the data file was created, which is another file
        rcases recover_cases h with ⟨rfl, rfl, hlog⟩ | ⟨disk, hrecovered, rfl, rfl⟩
        · refine .notRecovered hrefused (by simpa using hlock) hnew ?_
          exact create_of_ne (fullLogPath_ne _ _) s.disk ▸ hlog
        · exact .recovered hrefused hnew hrecovered

/-! ### Closing and removing a file -/

/-- A file is closed, unless it is closed already. -/
theorem gtfsCloseFile_cases {gtfs fl : Option ℕ} {ret : ℤ}
    (h : gtfsCloseFile gtfs fl s = some (ret, s')) :
    (ret = -1 ∧ s' = s) ∨ ∃ f file, ret = 0 ∧ fl = some f ∧ s.files[f]? = some file ∧
      s' = { s with files := s.files.set f { file with isOpen := false } } := by
  unfold gtfsCloseFile at h
  split at h
  · obtain ⟨-, -, h⟩ := Option.bind_eq_some_iff.mp h
    obtain ⟨file, hfile, h⟩ := Option.bind_eq_some_iff.mp h
    split at h
    · obtain ⟨rfl, rfl⟩ := Prod.mk.inj (Option.some.inj h)
      exact .inl ⟨rfl, rfl⟩
    · obtain ⟨rfl, rfl⟩ := Prod.mk.inj (Option.some.inj h)
      exact .inr ⟨_, file, rfl, rfl, hfile, rfl⟩
  · obtain ⟨rfl, rfl⟩ := Prod.mk.inj (Option.some.inj h)
    exact .inl ⟨rfl, rfl⟩

/-- `gtfs_remove_file` gives up before it has removed anything. -/
def NotRemoved (env : Env) (path : Bytes) (file : FileT) (s : Process) : Prop :=
  file.isOpen = true ∨ ((s.disk path).isNone ∨ env.openFails = true) ∨ env.lockFails = true ∨
    env.removeFails = true

/-- The process without the data file. -/
def unlinked (path : Bytes) (s : Process) : Process :=
  { s with disk := Function.update s.disk path none }

@[simp] theorem unlinked_disk (path : Bytes) (s : Process) :
    (unlinked path s).disk = Function.update s.disk path none := rfl

@[simp] theorem forget_disk (dirname filename : Bytes) (s : Process) :
    (forget dirname filename s).disk = s.disk := rfl

/-- The ways in which `gtfs_remove_file` ends, with its result and the state. -/
inductive Removal (env : Env) (dirname : Bytes) (file : FileT) (s : Process) : ℤ → Process → Prop
  | refused (hrefused : NotRemoved env (fullFilePath (env.root dirname) file.filename) file s) :
      Removal env dirname file s (-1) s
  | logStays (hremoved : ¬ NotRemoved env (fullFilePath (env.root dirname) file.filename) file s)
      (hlog : (s.disk (fullLogPath (env.root dirname) file.filename)).isNone ∨
        env.removeLogFails = true) :
      Removal env dirname file s (-1) (unlinked (fullFilePath (env.root dirname) file.filename) s)
  | removed (hremoved : ¬ NotRemoved env (fullFilePath (env.root dirname) file.filename) file s) :
      Removal env dirname file s 0 (forget dirname file.filename
        (unlinked (fullLogPath (env.root dirname) file.filename)
          (unlinked (fullFilePath (env.root dirname) file.filename) s)))

/-- **`gtfs_remove_file`** ends in one of the ways of `Removal`. -/
theorem gtfsRemoveFile_cases {g f : ℕ} {ret : ℤ}
    (h : gtfsRemoveFile env (some g) (some f) s = some (ret, s')) :
    ∃ dirname file, s.gtfs[g]? = some dirname ∧ s.files[f]? = some file ∧
      Removal env dirname file s ret s' := by
  obtain ⟨dirname, hdirname, h⟩ := Option.bind_eq_some_iff.mp h
  obtain ⟨file, hfile, h⟩ := Option.bind_eq_some_iff.mp h
  refine ⟨dirname, file, hdirname, hfile, ?_⟩
  by_cases hrefused : NotRemoved env (fullFilePath (env.root dirname) file.filename) file s
  · have hgivesUp : some (-1, s) = some (ret, s') := by
      by_cases hopen : file.isOpen = true
      · rwa [if_pos hopen] at h
      · rw [if_neg hopen] at h
        by_cases hdata : (s.disk (fullFilePath (env.root dirname) file.filename)).isNone ∨
            env.openFails = true
        · rwa [if_pos hdata] at h
        · rw [if_neg hdata] at h
          by_cases hlock : env.lockFails = true
          · rwa [if_pos hlock] at h
          · rwa [if_neg hlock,
              if_pos (((hrefused.resolve_left hopen).resolve_left hdata).resolve_left hlock)] at h
    obtain ⟨rfl, rfl⟩ := Prod.mk.inj (Option.some.inj hgivesUp)
    exact .refused hrefused
  · obtain ⟨hopen, hrest⟩ := not_or.mp hrefused
    obtain ⟨hdata, hrest⟩ := not_or.mp hrest
    obtain ⟨hlock, hremove⟩ := not_or.mp hrest
    rw [if_neg hopen, if_neg hdata, if_neg hlock, if_neg hremove] at h
    dsimp only at h
    -- the data file is gone, and the log is the one from before
    simp only [Function.update_of_ne (fullLogPath_ne (env.root dirname) file.filename)] at h
    split at h
    · next hlog =>
      obtain ⟨rfl, rfl⟩ := Prod.mk.inj (Option.some.inj h)
      exact .logStays hrefused hlog
    · obtain ⟨rfl, rfl⟩ := Prod.mk.inj (Option.some.inj h)
      exact .removed hrefused

/-! ### Writes -/

/-- The process with a new write, at the end of the list of its file. -/
def addWrite (w : WriteT) (s : Process) : Process :=
  { s with
    writes := s.writes ++ [w]
    fileLogUpdatesMapping := Function.update s.fileLogUpdatesMapping w.filename
      (some ((s.fileLogUpdatesMapping w.filename).getD [] ++ [s.writes.length])) }

/-- The object that `gtfs_write_file` makes. -/
@[simps]
def newWrite (dirname filename : Bytes) (offset length : ℤ) (data : ℕ) : WriteT where
  filename := filename
  offset := offset
  length := length
  data := data
  fullFilePath := GTFS.fullFilePath dirname filename
  fullLogPath := GTFS.fullLogPath dirname filename

/-- A write of a file of the tables is a new object; nothing is checked of its range. -/
theorem gtfsWriteFile_cases {gtfs fl : Option ℕ} {offset length : ℤ} {data : ℕ} {res : Option ℕ}
    (h : gtfsWriteFile gtfs fl offset length data s = some (res, s')) :
    s' = s ∨ ∃ f dirname file, fl = some f ∧ dirname ∈ s.gtfs ∧ s.files[f]? = some file ∧
      s' = s.addWrite (newWrite dirname file.filename offset length data) := by
  unfold gtfsWriteFile at h
  split at h
  · obtain ⟨dirname, hdirname, h⟩ := Option.bind_eq_some_iff.mp h
    obtain ⟨file, hfile, h⟩ := Option.bind_eq_some_iff.mp h
    obtain ⟨-, rfl⟩ := Prod.mk.inj (Option.some.inj h)
    exact .inr ⟨_, dirname, file, rfl, List.mem_of_getElem? hdirname, hfile, rfl⟩
  · obtain ⟨-, rfl⟩ := Prod.mk.inj (Option.some.inj h)
    exact .inl rfl

/-- The process with a record at the end of a log. -/
def logged (logPath logData : Bytes) (s : Process) : Process :=
  { s with disk := Function.update s.disk logPath (some ((s.disk logPath).getD [] ++ logData)) }

@[simp] theorem logged_disk (logPath logData : Bytes) (s : Process) :
    (logged logPath logData s).disk =
      Function.update s.disk logPath (some ((s.disk logPath).getD [] ++ logData)) := rfl

/-- What `lseek` and `write` put into the data file. -/
def syncPatch (mem : ℕ → Bytes) (w : WriteT) : Patch UInt8 :=
  ⟨w.offset.toNat, (mem w.data).take w.length.toNat⟩

/-- `gtfs_sync_write_file` does not write to the data file. -/
def NotWritten (env : Env) (w : WriteT) (disk : Disk) : Prop :=
  ((disk (env.resolve w.fullFilePath)).isNone ∨ env.openDataFails = true) ∨
    env.lockDataFails = true ∨ w.length < 0 ∨ env.writeFails = true

/-- The ways in which `gtfs_sync_write_file` ends, with its result and the state. -/
inductive Syncing (env : Env) (w : WriteT) (s : Process) : ℤ → Process → Prop
  | refused (hopen : env.openFails = true) : Syncing env w s (-1) s
  | notLocked (hlock : env.lockFails = true) :
      Syncing env w s (-1) (created (env.resolve w.fullLogPath) s)
  | onlyLogged (hdata : NotWritten env w
        (logged (env.resolve w.fullLogPath) (w.logData env.mem) s).disk) :
      Syncing env w s (-1) (logged (env.resolve w.fullLogPath) (w.logData env.mem) s)
  | synced :
      Syncing env w s w.length
        { s with
          disk := writeFile (env.resolve w.fullFilePath) (syncPatch env.mem w)
            (logged (env.resolve w.fullLogPath) (w.logData env.mem) s).disk }

/-- Where the paths of a write to a file of the directory lead. -/
theorem resolve_paths {dir root : Bytes} {w : WriteT}
    (hpath : w.fullFilePath = fullFilePath dir w.filename)
    (hlogPath : w.fullLogPath = fullLogPath dir w.filename) (hroot : env.root dir = root) :
    env.resolve w.fullFilePath = fullFilePath root w.filename ∧
      env.resolve w.fullLogPath = fullLogPath root w.filename := by
  constructor
  · rw [hpath, Env.resolve_fullFilePath, hroot]
  · rw [hlogPath, Env.resolve_fullLogPath, hroot]

/-- **`gtfs_sync_write_file`** ends in one of the ways of `Syncing`. -/
theorem gtfsSyncWriteFile_cases {i : ℕ} {ret : ℤ}
    (h : gtfsSyncWriteFile env (some i) s = some (ret, s')) :
    ∃ w, s.writes[i]? = some w ∧ Syncing env w s ret s' := by
  obtain ⟨w, hw, h⟩ := Option.bind_eq_some_iff.mp h
  refine ⟨w, hw, ?_⟩
  -- a log that was created just now is the empty one that the record is appended to
  simp only [create_self, update_create, Option.getD_some] at h
  split at h
  · next hopen =>
    obtain ⟨rfl, rfl⟩ := Prod.mk.inj (Option.some.inj h)
    exact .refused hopen
  · split at h
    · next hlock =>
      obtain ⟨rfl, rfl⟩ := Prod.mk.inj (Option.some.inj h)
      exact .notLocked hlock
    · split at h
      · next hdata =>
        obtain ⟨rfl, rfl⟩ := Prod.mk.inj (Option.some.inj h)
        exact .onlyLogged (.inl hdata)
      · split at h
        · next hlock =>
          obtain ⟨rfl, rfl⟩ := Prod.mk.inj (Option.some.inj h)
          exact .onlyLogged (.inr (.inl hlock))
        · split at h
          · next hwrite =>
            obtain ⟨rfl, rfl⟩ := Prod.mk.inj (Option.some.inj h)
            exact .onlyLogged (.inr (.inr hwrite))
          · obtain ⟨rfl, rfl⟩ := Prod.mk.inj (Option.some.inj h)
            exact .synced

/-- An abort takes the first pointer to an object with these contents out of the list of its file,
if the file has a list. -/
theorem gtfsAbortWriteFile_cases {writeId : Option ℕ} {ret : ℤ}
    (h : gtfsAbortWriteFile writeId s = some (ret, s')) :
    (s' = s ∧ ∀ i w, writeId = some i → s.writes[i]? = some w →
        s.fileLogUpdatesMapping w.filename = none) ∨
      ∃ i w logs, writeId = some i ∧ s.writes[i]? = some w ∧
      s.fileLogUpdatesMapping w.filename = some logs ∧
      s' = { s with
        fileLogUpdatesMapping := Function.update s.fileLogUpdatesMapping w.filename
          (some (logs.eraseP fun log => (s.writes[log]?).any fun log =>
            log.offset = w.offset ∧ log.length = w.length ∧ log.data = w.data)) } := by
  unfold gtfsAbortWriteFile at h
  split at h
  · obtain ⟨-, rfl⟩ := Prod.mk.inj (Option.some.inj h)
    exact .inl ⟨rfl, fun i w hi => absurd hi (by simp)⟩
  · obtain ⟨w, hw, h⟩ := Option.bind_eq_some_iff.mp h
    split at h
    · next hnone =>
      obtain ⟨-, rfl⟩ := Prod.mk.inj (Option.some.inj h)
      refine .inl ⟨rfl, fun i w' hi hw' => ?_⟩
      obtain rfl := Option.some.inj hi
      obtain rfl := Option.some.inj (hw.symm.trans hw')
      exact hnone
    · next logs hlogs =>
      obtain ⟨-, rfl⟩ := Prod.mk.inj (Option.some.inj h)
      exact .inr ⟨_, w, logs, rfl, hw, hlogs, rfl⟩

/-! ### Cleaning up -/

/-- A clean goes through the directory. It forgets the writes of all files if it came to the end. -/
theorem gtfsClean_cases {gtfs : Option ℕ} {ret : ℤ} (h : gtfsClean env gtfs s = some (ret, s')) :
    (ret = -1 ∧ s' = s) ∨ ∃ g dirname res disk, gtfs = some g ∧ s.gtfs[g]? = some dirname ∧
      cleanEntries (env.root dirname) env.entries s.disk = some (res, disk) ∧
      ((ret = -1 ∧ s' = { s with disk := disk }) ∨
        (res ≠ -1 ∧ s' = { s with disk := disk, fileLogUpdatesMapping := fun _ => none })) := by
  unfold gtfsClean at h
  -- no `gtfs_t`
  split at h
  · obtain ⟨rfl, rfl⟩ := Prod.mk.inj (Option.some.inj h)
    exact .inl ⟨rfl, rfl⟩
  · obtain ⟨dirname, hdirname, h⟩ := Option.bind_eq_some_iff.mp h
    split at h
    · obtain ⟨rfl, rfl⟩ := Prod.mk.inj (Option.some.inj h)
      exact .inl ⟨rfl, rfl⟩
    · obtain ⟨⟨res, disk⟩, hclean, h⟩ := Option.bind_eq_some_iff.mp h
      -- whether the loop reached the end of the directory decides about the table
      refine .inr ⟨_, dirname, res, disk, rfl, hdirname, hclean, ?_⟩
      dsimp only at h
      split at h
      · obtain ⟨rfl, rfl⟩ := Prod.mk.inj (Option.some.inj h)
        exact .inl ⟨rfl, rfl⟩
      · next hres =>
        obtain ⟨-, rfl⟩ := Prod.mk.inj (Option.some.inj h)
        exact .inr ⟨hres, rfl⟩

/-! ### A step of the system -/

/-- What a step can do. -/
inductive Effect (s : Process) : Label → Process → Prop
  | nothing {l : Label} : Effect s l s
  | init {env : Env} {directory : Bytes} (mapping : Bytes → Option ℕ) :
      Effect s (.init env directory)
        { s with gtfs := s.gtfs ++ [directory], directoryGtfsMapping := mapping }
  | openFile {env : Env} {g : ℕ} {dirname filename : Bytes} {fileLength : ℤ} {res : Option ℕ}
      {s' : Process} (hdirname : dirname ∈ s.gtfs)
      (hopening : Opening env dirname filename fileLength s res s') :
      Effect s (.openFile env (some g) filename fileLength) s'
  | closeFile {gtfs fl : Option ℕ} {f : ℕ} {file : FileT} (hfile : s.files[f]? = some file) :
      Effect s (.closeFile gtfs fl)
        { s with files := s.files.set f { file with isOpen := false } }
  | removeFile {env : Env} {g f : ℕ} {dirname : Bytes} {file : FileT} {ret : ℤ} {s' : Process}
      (hdirname : dirname ∈ s.gtfs) (hfile : s.files[f]? = some file)
      (hremoval : Removal env dirname file s ret s') :
      Effect s (.removeFile env (some g) (some f)) s'
  | writeFile {gtfs : Option ℕ} {f : ℕ} {dirname : Bytes} {file : FileT} {offset length : ℤ}
      {data : ℕ} (hdirname : dirname ∈ s.gtfs) (hfile : s.files[f]? = some file) :
      Effect s (.writeFile gtfs (some f) offset length data)
        (s.addWrite (newWrite dirname file.filename offset length data))
  | syncWriteFile {env : Env} {i : ℕ} {w : WriteT} {ret : ℤ} {s' : Process}
      (hw : s.writes[i]? = some w) (hsyncing : Syncing env w s ret s') :
      Effect s (.syncWriteFile env (some i)) s'
  | abortWriteFile {i : ℕ} {w : WriteT} {logs : List ℕ} (hw : s.writes[i]? = some w)
      (hlogs : s.fileLogUpdatesMapping w.filename = some logs) :
      Effect s (.abortWriteFile (some i))
        { s with
          fileLogUpdatesMapping := Function.update s.fileLogUpdatesMapping w.filename
            (some (logs.eraseP fun log => (s.writes[log]?).any fun log =>
              log.offset = w.offset ∧ log.length = w.length ∧ log.data = w.data)) }
  | clean {env : Env} {gtfs : Option ℕ} {dirname : Bytes} {res : ℤ} {disk : Disk}
      {logs : Bytes → Option (List ℕ)} (hdirname : dirname ∈ s.gtfs)
      (hloop : cleanEntries (env.root dirname) env.entries s.disk = some (res, disk))
      (hlogs : logs = s.fileLogUpdatesMapping ∨ logs = fun _ => none) :
      Effect s (.clean env gtfs) { s with disk := disk, fileLogUpdatesMapping := logs }
  | others (disk : Disk) : Effect s (.others disk) { s with disk := disk }

/-- **Every step is one of these.** -/
theorem step_effect {disk : Disk} {l : Label} (hstep : (system disk).step s l = some s') :
    Effect s l s' := by
  cases l with
  -- for each call its own list of cases, with the null pointers taken out
  | init env directory =>
    obtain rfl := Option.some.inj hstep
    rcases gtfsInit_cases env directory s with hsame | ⟨mapping, hnew⟩
    · rw [hsame]
      exact .nothing
    · rw [hnew]
      exact .init mapping
  | openFile env gtfs filename fileLength =>
    obtain ⟨⟨res, s₁⟩, hcall, rfl⟩ := Option.map_eq_some_iff.mp hstep
    cases gtfs with
    | none =>
      obtain ⟨-, rfl⟩ := Prod.mk.inj (Option.some.inj hcall)
      exact .nothing
    | some g =>
      obtain ⟨dirname, hdirname, hopening⟩ := gtfsOpenFile_cases hcall
      exact .openFile (List.mem_of_getElem? hdirname) hopening
  | closeFile gtfs fl =>
    obtain ⟨⟨res, s₁⟩, hcall, rfl⟩ := Option.map_eq_some_iff.mp hstep
    rcases gtfsCloseFile_cases hcall with ⟨-, rfl⟩ | ⟨f, file, -, -, hfile, rfl⟩
    · exact .nothing
    · exact .closeFile hfile
  | removeFile env gtfs fl =>
    obtain ⟨⟨res, s₁⟩, hcall, rfl⟩ := Option.map_eq_some_iff.mp hstep
    match gtfs, fl with
    | none, _ | some _, none =>
      obtain ⟨-, rfl⟩ := Prod.mk.inj (Option.some.inj hcall)
      exact .nothing
    | some g, some f =>
      obtain ⟨dirname, file, hdirname, hfile, hremoval⟩ := gtfsRemoveFile_cases hcall
      exact .removeFile (List.mem_of_getElem? hdirname) hfile hremoval
  | writeFile gtfs fl offset length data =>
    obtain ⟨⟨res, s₁⟩, hcall, rfl⟩ := Option.map_eq_some_iff.mp hstep
    rcases gtfsWriteFile_cases hcall with rfl | ⟨f, dirname, file, rfl, hdirname, hfile, rfl⟩
    · exact .nothing
    · exact .writeFile hdirname hfile
  | syncWriteFile env writeId =>
    obtain ⟨⟨res, s₁⟩, hcall, rfl⟩ := Option.map_eq_some_iff.mp hstep
    cases writeId with
    | none =>
      obtain ⟨-, rfl⟩ := Prod.mk.inj (Option.some.inj hcall)
      exact .nothing
    | some i =>
      obtain ⟨w, hw, hsyncing⟩ := gtfsSyncWriteFile_cases hcall
      exact .syncWriteFile hw hsyncing
  | abortWriteFile writeId =>
    obtain ⟨⟨res, s₁⟩, hcall, rfl⟩ := Option.map_eq_some_iff.mp hstep
    rcases gtfsAbortWriteFile_cases hcall with ⟨rfl, -⟩ | ⟨i, w, logs, rfl, hw, hlogs, rfl⟩
    · exact .nothing
    · exact .abortWriteFile hw hlogs
  | clean env gtfs =>
    obtain ⟨⟨res, s₁⟩, hcall, rfl⟩ := Option.map_eq_some_iff.mp hstep
    rcases gtfsClean_cases hcall with
      ⟨-, rfl⟩ | ⟨g, dirname, res, disk, -, hdirname, hloop, ⟨-, rfl⟩ | ⟨-, rfl⟩⟩
    · exact .nothing
    · exact .clean (List.mem_of_getElem? hdirname) hloop (.inl rfl)
    · exact .clean (List.mem_of_getElem? hdirname) hloop (.inr rfl)
  | others disk' =>
    obtain rfl := Option.some.inj hstep
    exact .others disk'

end Process
end GTFS
end OSLab
