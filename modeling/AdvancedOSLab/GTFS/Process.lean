import Mathlib.Tactic.Simps.Basic
import AdvancedOSLab.Framework.System
import AdvancedOSLab.GTFS.Log

/-!
# A process that uses GTFS

The library keeps four tables in the memory of the process: the `gtfs_t` of each directory, the
`file_t` of each file name, the names of the files of each directory, and the writes of each file
that were not yet cleaned up. This module models the calls of the API on these tables and the disk,
with every check that a call makes and every step at which it can give up.

## The model

* Pointers that the API returns are indices into the lists of the objects that were allocated, and
  `none` is `NULL`. Objects are never freed, so a stale pointer still points to its object. Passing
  a number that is no object has no result.
* `Env` is what a call meets outside the process: the working directory, the directories that
  exist, which of the checked system calls fail, the order of `readdir`, and client memory.
* A path is resolved against the working directory (`Env.resolve`). Paths are compared as strings.
* `others` is a step of another process, which may leave any disk behind.

`gtfsSyncWriteFile_ofWrite` connects the calls here to the model of the redo log: on a write within
the range of that model, and when no system call fails, `gtfs_sync_write_file` is the same function.
-/

namespace OSLab
namespace GTFS

open Text Bytes

/-- `MAX_FILENAME_LEN`. -/
abbrev maxFilenameLen : ℕ := 255

/-- `MAX_NUM_FILES_PER_DIR`. -/
abbrev maxNumFilesPerDir : ℕ := 1024

/-! ### Outside the process -/

/-- What a call meets outside the process. The flags name the system calls that fail. -/
structure Env where
  cwd : Bytes
  isDirectory : Bytes → Bool
  openFails : Bool
  lockFails : Bool
  /-- for the log that `gtfs_open_file` creates, where the source does not look at it: the name of
  the log is four bytes longer than the name of the file, and may be too long for the file system -/
  createLogFails : Bool
  openDataFails : Bool
  lockDataFails : Bool
  writeFails : Bool
  removeFails : Bool
  removeLogFails : Bool
  opendirFails : Bool
  closedirFails : Bool
  /-- the names that `readdir` returns -/
  entries : List Bytes
  mem : ℕ → Bytes

/-- The path is absolute. -/
def isAbsolute (path : Bytes) : Bool := path.head? = some 47

namespace Env

variable (env : Env)

/-- The path that a system call looks at. -/
def resolve (path : Bytes) : Bytes :=
  if isAbsolute path then path else env.cwd ++ ascii "/" ++ path

/-- The directory whose files the paths `dirname + "/" + filename` are. -/
def root (dirname : Bytes) : Bytes :=
  if dirname = [] ∨ isAbsolute dirname then dirname else env.cwd ++ ascii "/" ++ dirname

theorem root_of_isAbsolute {dirname : Bytes} (h : isAbsolute dirname = true) :
    env.root dirname = dirname := if_pos (.inr h)

theorem resolve_fullFilePath (dirname filename : Bytes) :
    env.resolve (fullFilePath dirname filename) = fullFilePath (env.root dirname) filename := by
  cases dirname with
  | nil => rfl
  | cons b dirname =>
    unfold resolve root
    have hhead : isAbsolute (fullFilePath (b :: dirname) filename) =
        isAbsolute (b :: dirname) := rfl
    rw [hhead]
    split
    · next h => rw [if_pos (.inr h)]
    · next h =>
      rw [if_neg (by simpa using h)]
      simp only [fullFilePath, List.append_assoc]

theorem resolve_fullLogPath (dirname filename : Bytes) :
    env.resolve (fullLogPath dirname filename) = fullLogPath (env.root dirname) filename := by
  have h := env.resolve_fullFilePath dirname (filename ++ ascii ".log")
  simpa only [fullFilePath, fullLogPath, List.append_assoc] using h

end Env

/-- `open` with `O_CREAT`, on the contents of the files. -/
def create (path : Bytes) (disk : Disk) : Disk :=
  match disk path with
  | some _ => disk
  | none => Function.update disk path (some [])

/-! ### Objects and tables -/

/-- `file_t`. -/
structure FileT where
  filename : Bytes
  fileLength : ℤ
  isOpen : Bool
deriving DecidableEq

/-- `write_t`, with the address of its data. -/
structure WriteT where
  filename : Bytes
  offset : ℤ
  length : ℤ
  data : ℕ
  fullFilePath : Bytes
  fullLogPath : Bytes
deriving DecidableEq

/-- The memory of the process, and the disk. -/
structure Process where
  /-- the `dirname` of every `gtfs_t` -/
  gtfs : List Bytes
  files : List FileT
  writes : List WriteT
  directoryGtfsMapping : Bytes → Option ℕ
  fileLogUpdatesMapping : Bytes → Option (List ℕ)
  filenameFileMapping : Bytes → Option ℕ
  directoryFilesMapping : Bytes → List Bytes
  disk : Disk

namespace Process

/-- A process that has just been started. -/
def fresh (disk : Disk) : Process where
  gtfs := []
  files := []
  writes := []
  directoryGtfsMapping _ := none
  fileLogUpdatesMapping _ := none
  filenameFileMapping _ := none
  directoryFilesMapping _ := []
  disk := disk

variable (env : Env)

/-! ### The calls -/

/-- `gtfs_init`. -/
def gtfsInit (directory : Bytes) (s : Process) : Option ℕ × Process :=
  if !env.isDirectory (env.resolve directory) then (none, s)
  else
    match s.directoryGtfsMapping directory with
    | some g => (some g, s)
    | none => (some s.gtfs.length,
        { s with
          gtfs := s.gtfs ++ [directory]
          directoryGtfsMapping :=
            Function.update s.directoryGtfsMapping directory (some s.gtfs.length) })

/-- The entry of a file that was not in the tables. -/
def record (dirname filename : Bytes) (fileLength : ℤ) (s : Process) : Process :=
  { s with
    files := s.files ++ [{ filename, fileLength, isOpen := true }]
    filenameFileMapping := Function.update s.filenameFileMapping filename (some s.files.length)
    directoryFilesMapping := Function.update s.directoryFilesMapping dirname
      (s.directoryFilesMapping dirname ++ [filename]) }

/-- The log is truncated, or created, and the writes of the file are dropped. Whether there is a log
now is not looked at. -/
def clearLog (filename logPath : Bytes) (s : Process) : Process :=
  { s with
    disk := if (s.disk logPath).isNone ∧ env.createLogFails = true then s.disk
      else Function.update s.disk logPath (some [])
    fileLogUpdatesMapping := Function.update s.fileLogUpdatesMapping filename none }

theorem clearLog_eq {env : Env} (h : env.createLogFails = false) (filename logPath : Bytes)
    (s : Process) : clearLog env filename logPath s =
      { s with
        disk := Function.update s.disk logPath (some [])
        fileLogUpdatesMapping := Function.update s.fileLogUpdatesMapping filename none } := by
  unfold clearLog
  rw [if_neg fun hfails => absurd (hfails.2.symm.trans h) (by decide)]

/-- Whether or not the log could be created, nothing else on the disk changes. -/
theorem clearLog_disk_of_ne {path logPath : Bytes} (h : path ≠ logPath) (filename : Bytes)
    (s : Process) : (clearLog env filename logPath s).disk path = s.disk path := by
  unfold clearLog
  dsimp only
  split
  · rfl
  · exact Function.update_of_ne h _ _

/-- There is no log, or it is empty. -/
theorem clearLog_disk_self (filename logPath : Bytes) (s : Process) :
    (clearLog env filename logPath s).disk logPath = none ∨
      (clearLog env filename logPath s).disk logPath = some [] := by
  unfold clearLog
  dsimp only
  split
  · next h => exact .inl (Option.isNone_iff_eq_none.mp h.1)
  · exact .inr (Function.update_self ..)

/-- The end of `gtfs_open_file` for a file that was not in the tables: the log of an earlier
process is applied to it. -/
def recover (dirname filename : Bytes) (f : ℕ) (s : Process) : Option (Option ℕ × Process) :=
  let logPath := fullLogPath (env.root dirname) filename
  match s.disk logPath with
  | some _ => do
    -- the first path is the bare file name
    let (res, disk) ← syncLogToFile (env.root dirname) (env.resolve filename) logPath s.disk
    if res = -1 then some (none, { s with disk := disk })
    else some (some f, clearLog env filename logPath { s with disk := disk })
  | none => some (some f, clearLog env filename logPath s)

/-- `gtfs_open_file`. -/
def gtfsOpenFile (gtfs : Option ℕ) (filename : Bytes) (fileLength : ℤ) (s : Process) :
    Option (Option ℕ × Process) :=
  match gtfs with
  | none => some (none, s)
  | some g => do
    let dirname ← s.gtfs[g]?
    if maxFilenameLen < filename.length then some (none, s)
    else if maxNumFilesPerDir < (s.directoryFilesMapping dirname).length then some (none, s)
    else if env.openFails then some (none, s)
    else
      let s := { s with disk := create (fullFilePath (env.root dirname) filename) s.disk }
      if env.lockFails then some (none, s)
      else
        match s.filenameFileMapping filename with
        | some f => do
          let fl ← s.files[f]?
          if fileLength < fl.fileLength then some (none, s)
          else some (some f,
            { s with files := s.files.set f { fl with fileLength, isOpen := true } })
        -- `O_CREAT` has created the file if it was not there, so nothing is left to create
        | none => recover env dirname filename s.files.length (record dirname filename fileLength s)

/-- `gtfs_close_file`. -/
def gtfsCloseFile (gtfs fl : Option ℕ) (s : Process) : Option (ℤ × Process) :=
  match gtfs, fl with
  | some g, some f => do
    let _ ← s.gtfs[g]?
    let fl ← s.files[f]?
    if !fl.isOpen then some (-1, s)
    else some (0, { s with files := s.files.set f { fl with isOpen := false } })
  | _, _ => some (-1, s)

/-- The tables without a file. -/
def forget (dirname filename : Bytes) (s : Process) : Process :=
  { s with
    filenameFileMapping := Function.update s.filenameFileMapping filename none
    fileLogUpdatesMapping := Function.update s.fileLogUpdatesMapping filename none
    directoryFilesMapping := Function.update s.directoryFilesMapping dirname
      ((s.directoryFilesMapping dirname).erase filename) }

/-- `gtfs_remove_file`. -/
def gtfsRemoveFile (gtfs fl : Option ℕ) (s : Process) : Option (ℤ × Process) :=
  match gtfs, fl with
  | some g, some f => do
    let dirname ← s.gtfs[g]?
    let fl ← s.files[f]?
    let path := fullFilePath (env.root dirname) fl.filename
    let logPath := fullLogPath (env.root dirname) fl.filename
    if fl.isOpen then some (-1, s)
    else if (s.disk path).isNone ∨ env.openFails then some (-1, s)
    else if env.lockFails then some (-1, s)
    else if env.removeFails then some (-1, s)
    else
      let s := { s with disk := Function.update s.disk path none }
      -- without a log the tables keep the file that is gone
      if (s.disk logPath).isNone ∨ env.removeLogFails then some (-1, s)
      else
        some (0, forget dirname fl.filename { s with disk := Function.update s.disk logPath none })
  | _, _ => some (-1, s)

/-- The address of the data of a write, if it is one of exactly the offset and the length. -/
def dataAt (writes : List WriteT) (offset length : ℤ) (write : ℕ) : Option ℕ := do
  let log ← writes[write]?
  if log.offset = offset ∧ log.length = length then some log.data else none

/-- The end of `gtfs_read_file`: the answer from the data file. -/
def readDataFile (content : Option Bytes) (offset length : ℤ) : Option (Option Bytes) :=
  match content with
  | none => some none
  | some c =>
    if c.length < offset then some (some [])
    -- the sum of two `int`s overflows
    else if intMax < offset + length then none
    else if c.length < offset + length then some (some [])
    -- `seekg` to a negative offset fails, and the new buffer is returned as it is
    else if offset < 0 then none
    else some (some ((c.drop offset.toNat).take length.toNat))

/-- `gtfs_read_file`: the bytes behind the pointer it returns, with `some none` for `NULL`. -/
def gtfsReadFile (gtfs fl : Option ℕ) (offset length : ℤ) (s : Process) :
    Option (Option Bytes) :=
  -- `new char[length]` throws
  if length < 0 then none
  else
    match gtfs, fl with
    | some g, some f => do
      let dirname ← s.gtfs[g]?
      let fl ← s.files[f]?
      let logs := (s.fileLogUpdatesMapping fl.filename).getD []
      match logs.findSome? (dataAt s.writes offset length) with
      | some data => some (some ((env.mem data).take length.toNat))
      | none =>
        readDataFile (s.disk (fullFilePath (env.root dirname) fl.filename)) offset length
    | _, _ => some none

/-- `gtfs_write_file`. -/
def gtfsWriteFile (gtfs fl : Option ℕ) (offset length : ℤ) (data : ℕ) (s : Process) :
    Option (Option ℕ × Process) :=
  match gtfs, fl with
  | some g, some f => do
    let dirname ← s.gtfs[g]?
    let fl ← s.files[f]?
    let logs := (s.fileLogUpdatesMapping fl.filename).getD []
    some (some s.writes.length,
      { s with
        writes := s.writes ++ [{
          filename := fl.filename
          offset := offset
          length := length
          data := data
          fullFilePath := fullFilePath dirname fl.filename
          fullLogPath := fullLogPath dirname fl.filename }]
        fileLogUpdatesMapping := Function.update s.fileLogUpdatesMapping fl.filename
          (some (logs ++ [s.writes.length])) })
  | _, _ => some (none, s)

end Process

/-- The text that `gtfs_sync_write_file` appends to the log. -/
def WriteT.logData (mem : ℕ → Bytes) (w : WriteT) : Bytes :=
  w.filename ++ [pipe] ++ decimalInt w.offset ++ [pipe] ++ decimalInt w.length ++ [pipe]
    ++ cstr (mem w.data) ++ [newline]

namespace Process

variable (env : Env)

/-- `gtfs_sync_write_file`. -/
def gtfsSyncWriteFile (writeId : Option ℕ) (s : Process) : Option (ℤ × Process) :=
  match writeId with
  | none => some (-1, s)
  | some w => do
    let w ← s.writes[w]?
    let logPath := env.resolve w.fullLogPath
    let path := env.resolve w.fullFilePath
    if env.openFails then some (-1, s)
    else
      let s := { s with disk := create logPath s.disk }
      if env.lockFails then some (-1, s)
      else
        let log := (s.disk logPath).getD [] ++ w.logData env.mem
        let s := { s with disk := Function.update s.disk logPath (some log) }
        if (s.disk path).isNone ∨ env.openDataFails then some (-1, s)
        else if env.lockDataFails then some (-1, s)
        -- a negative length is not accepted by `write`
        else if w.length < 0 ∨ env.writeFails then some (-1, s)
        else
          -- `lseek` is not checked: it fails for a negative offset, and the bytes go to the front
          let p := ⟨w.offset.toNat, (env.mem w.data).take w.length.toNat⟩
          some (w.length, { s with disk := writeFile path p s.disk })

/-- `gtfs_abort_write_file`. -/
def gtfsAbortWriteFile (writeId : Option ℕ) (s : Process) : Option (ℤ × Process) :=
  match writeId with
  | none => some (-1, s)
  | some w => do
    let w ← s.writes[w]?
    match s.fileLogUpdatesMapping w.filename with
    | none => some (-1, s)
    | some logs =>
      let same := fun log : WriteT =>
        log.offset = w.offset ∧ log.length = w.length ∧ log.data = w.data
      some (0, { s with
        fileLogUpdatesMapping := Function.update s.fileLogUpdatesMapping w.filename
          (some (logs.eraseP fun log => (s.writes[log]?).any fun log => same log)) })

/-- The loop of `gtfs_clean` over the directory, where it gives up or comes to the end. -/
def cleanEntries (root : Bytes) : List Bytes → Disk → Option (ℤ × Disk)
  | [], disk => some (0, disk)
  | filename :: entries, disk =>
    if (find (ascii ".txt") filename).isNone ∨ (find (ascii ".log") filename).isSome then
      cleanEntries root entries disk
    else do
      let logPath := fullLogPath root filename
      let (res, disk) ← syncLogToFile root (fullFilePath root filename) logPath disk
      if res = -1 then some (-1, disk)
      else cleanEntries root entries (Function.update disk logPath (some []))

/-- `gtfs_clean`. -/
def gtfsClean (gtfs : Option ℕ) (s : Process) : Option (ℤ × Process) :=
  match gtfs with
  | none => some (-1, s)
  | some g => do
    let dirname ← s.gtfs[g]?
    if env.opendirFails then some (-1, s)
    else
      let (res, disk) ← cleanEntries (env.root dirname) env.entries s.disk
      if res = -1 then some (-1, { s with disk := disk })
      else
        let s := { s with disk := disk, fileLogUpdatesMapping := fun _ => none }
        some (if env.closedirFails then -1 else 0, s)

/-! ### The process as a system -/

/-- A call, with its arguments, or a step of another process. -/
inductive Label where
  | init (env : Env) (directory : Bytes)
  | openFile (env : Env) (gtfs : Option ℕ) (filename : Bytes) (fileLength : ℤ)
  | closeFile (gtfs fl : Option ℕ)
  | removeFile (env : Env) (gtfs fl : Option ℕ)
  | writeFile (gtfs fl : Option ℕ) (offset length : ℤ) (data : ℕ)
  | syncWriteFile (env : Env) (writeId : Option ℕ)
  | abortWriteFile (writeId : Option ℕ)
  | clean (env : Env) (gtfs : Option ℕ)
  | others (disk : Disk)

/-- The process as a labelled system. -/
def system (disk : Disk) : System Process Label where
  init := fresh disk
  step s
    | .init env directory => some (gtfsInit env directory s).2
    | .openFile env gtfs filename fileLength =>
      (gtfsOpenFile env gtfs filename fileLength s).map Prod.snd
    | .closeFile gtfs fl => (gtfsCloseFile gtfs fl s).map Prod.snd
    | .removeFile env gtfs fl => (gtfsRemoveFile env gtfs fl s).map Prod.snd
    | .writeFile gtfs fl offset length data =>
      (gtfsWriteFile gtfs fl offset length data s).map Prod.snd
    | .syncWriteFile env writeId => (gtfsSyncWriteFile env writeId s).map Prod.snd
    | .abortWriteFile writeId => (gtfsAbortWriteFile writeId s).map Prod.snd
    | .clean env gtfs => (gtfsClean env gtfs s).map Prod.snd
    | .others disk => some { s with disk := disk }

end Process

/-! ### Calls in which nothing fails -/

/-- A call in which no system call fails. -/
@[simps]
def Env.quiet (cwd : Bytes) (mem : ℕ → Bytes) : Env where
  cwd := cwd
  isDirectory _ := true
  openFails := false
  lockFails := false
  createLogFails := false
  openDataFails := false
  lockDataFails := false
  writeFails := false
  removeFails := false
  removeLogFails := false
  opendirFails := false
  closedirFails := false
  entries := []
  mem := mem

/-- The object that `gtfs_write_file` makes for a write to a file of the directory. -/
@[simps]
def WriteT.ofWrite (dirname : Bytes) (w : Write) : WriteT where
  filename := w.filename
  offset := w.offset
  length := w.length
  data := w.data
  fullFilePath := GTFS.fullFilePath dirname w.filename
  fullLogPath := GTFS.fullLogPath dirname w.filename

theorem WriteT.logData_ofWrite (mem : ℕ → Bytes) (dirname : Bytes) (w : Write) :
    (WriteT.ofWrite dirname w).logData mem = logRecord mem w := by
  simp only [logData, ofWrite, decimalInt_natCast, logRecord, Write.text]

theorem create_self (path : Bytes) (disk : Disk) :
    create path disk path = some ((disk path).getD []) := by
  unfold create
  cases h : disk path with
  | some c => exact h
  | none => exact Function.update_self ..

theorem update_create (path : Bytes) (disk : Disk) (c : Option Bytes) :
    Function.update (create path disk) path c = Function.update disk path c := by
  unfold create
  cases disk path with
  | some _ => rfl
  | none => exact Function.update_idem ..

theorem Process.gtfsSyncWriteFile_ofWrite {s : Process} {i : ℕ} {cwd dirname : Bytes}
    {mem : ℕ → Bytes} {w : Write} (hdirname : isAbsolute dirname = true)
    (hw : s.writes[i]? = some (.ofWrite dirname w)) :
    gtfsSyncWriteFile (.quiet cwd mem) (some i) s =
      some ((GTFS.gtfsSyncWriteFile mem dirname w s.disk).1,
        { s with disk := (GTFS.gtfsSyncWriteFile mem dirname w s.disk).2 }) := by
  have hdata : (Env.quiet cwd mem).resolve (GTFS.fullFilePath dirname w.filename) =
      GTFS.fullFilePath dirname w.filename := by
    rw [Env.resolve_fullFilePath, Env.root_of_isAbsolute _ hdirname]
  have hlog : (Env.quiet cwd mem).resolve (GTFS.fullLogPath dirname w.filename) =
      GTFS.fullLogPath dirname w.filename := by
    rw [Env.resolve_fullLogPath, Env.root_of_isAbsolute _ hdirname]
  -- both append the same record to the log
  have hdisk : Function.update (create (GTFS.fullLogPath dirname w.filename) s.disk)
      (GTFS.fullLogPath dirname w.filename)
      (some ((create (GTFS.fullLogPath dirname w.filename) s.disk
        (GTFS.fullLogPath dirname w.filename)).getD [] ++
          (WriteT.ofWrite dirname w).logData (Env.quiet cwd mem).mem)) =
        appendLog mem dirname w s.disk := by
    rw [create_self, update_create, WriteT.logData_ofWrite]
    rfl
  have hbytes : (w.bytes mem).take w.length = (mem w.data).take w.length := by
    rw [Write.bytes, List.take_take, min_self]
  have hlength : ¬ (w.length : ℤ) < 0 := Int.not_lt.mpr (Int.natCast_nonneg _)
  simp only [Process.gtfsSyncWriteFile, hw, Option.bind_eq_bind, Option.bind_some,
    GTFS.gtfsSyncWriteFile, WriteT.ofWrite_fullFilePath, WriteT.ofWrite_fullLogPath, hdata, hlog,
    Env.quiet_openFails, Env.quiet_lockFails, Env.quiet_openDataFails, Env.quiet_lockDataFails,
    Env.quiet_writeFails, Env.quiet_mem, hdisk, Bool.false_eq_true, if_false, or_false,
    WriteT.ofWrite_length, hlength]
  cases hfile : appendLog mem dirname w s.disk (GTFS.fullFilePath dirname w.filename) with
  | none => rfl
  | some c => simp [writeData, hbytes]

end GTFS
end OSLab
