import AdvancedOSLab.GTFS.Process
import AdvancedOSLab.GTFS.Recovery

/-!
# Recovery when a file is opened

A process that opens a file for the first time applies the log that an earlier process may have
left behind, and truncates it. `gtfs_open_file` builds the full paths of the file and of its log,
but hands `sync_log_to_file` the *bare* file name for the file. The function only asks whether this
file exists, and takes the files it writes from the records; but it asks in the working directory
of the process. Where there is no such file, it refuses, and the file cannot be opened, although it
is there. (`gtfs_clean` passes the full path.)

`open_recovers_iff` says for every working directory, directory and file name when opening a file
recovers it.
-/

namespace OSLab
namespace GTFS

namespace Reopen

open Bytes Process

variable {cwd dirname filename : Bytes} {mem : ℕ → Bytes} {fileLength : ℤ} {disk : Disk}
  {content : Bytes} {ps : List (Patch UInt8)}

/-- A fresh process after `gtfs_init` of the directory. -/
def initialised (dirname : Bytes) (disk : Disk) : Process :=
  { fresh disk with
    gtfs := [dirname]
    directoryGtfsMapping := Function.update (fresh disk).directoryGtfsMapping dirname (some 0) }

theorem gtfsInit_fresh (cwd : Bytes) (mem : ℕ → Bytes) (dirname : Bytes) (disk : Disk) :
    gtfsInit (.quiet cwd mem) dirname (fresh disk) = (some 0, initialised dirname disk) := rfl

/-- The lines of the log, if there is one, are decoded to these writes to the file. -/
def LogHolds (dirname filename : Bytes) (disk : Disk) (ps : List (Patch UInt8)) : Prop :=
  (logLines ((disk (fullLogPath dirname filename)).getD [])).map (lineWrite dirname) =
    ps.map fun p => some (fullFilePath dirname filename, p)

instance : Decidable (LogHolds dirname filename disk ps) :=
  inferInstanceAs (Decidable (_ = _))

/-- Opening the file in a fresh process returns a `file_t`, leaves the file with the writes of the
log applied to it, and leaves the log empty. -/
def Recovers (cwd : Bytes) (mem : ℕ → Bytes) (dirname filename : Bytes) (fileLength : ℤ)
    (disk : Disk) (content : Bytes) (ps : List (Patch UInt8)) : Prop :=
  ∃ f s, gtfsOpenFile (.quiet cwd mem) (gtfsInit (.quiet cwd mem) dirname (fresh disk)).1 filename
      fileLength (gtfsInit (.quiet cwd mem) dirname (fresh disk)).2 = some (some f, s) ∧
    s.disk (fullFilePath dirname filename) = some (Patch.applyAll 0 ps content) ∧
    s.disk (fullLogPath dirname filename) = some []

/-- In a fresh process nothing but the length of the name stands in front of the recovery. -/
theorem gtfsOpenFile_initialised (hdata : disk (fullFilePath dirname filename) = some content)
    (hdirname : isAbsolute dirname = true) (hname : filename.length ≤ maxFilenameLen) :
    gtfsOpenFile (.quiet cwd mem) (some 0) filename fileLength (initialised dirname disk) =
      recover (.quiet cwd mem) dirname filename 0
        (record dirname filename fileLength (initialised dirname disk)) := by
  have hcreate : create (fullFilePath dirname filename) disk = disk := by
    unfold create
    rw [hdata]
  have hroot : (Env.quiet cwd mem).root dirname = dirname := Env.root_of_isAbsolute _ hdirname
  have hfiles : ¬ maxNumFilesPerDir < ([] : List Bytes).length := by decide
  show (if maxFilenameLen < filename.length then _ else
    if maxNumFilesPerDir < ([] : List Bytes).length then _ else _) = _
  rw [if_neg (not_lt.mpr hname), if_neg hfiles, hroot]
  show recover (.quiet cwd mem) dirname filename 0 (record dirname filename fileLength
    { initialised dirname disk with disk := create (fullFilePath dirname filename) disk }) = _
  rw [hcreate]
  rfl

/-! ### The recovery -/

section Recover

variable {env : Env} {s : Process} {f : ℕ} {log : Bytes}

/-- Without a log there is nothing to apply. -/
theorem recover_of_noLog (hlog : s.disk (fullLogPath (env.root dirname) filename) = none) :
    recover env dirname filename f s =
      some (some f, clearLog env filename (fullLogPath (env.root dirname) filename) s) := by
  simp only [recover, hlog]

/-- With a log, but without a file of this name in the working directory, nothing is applied. -/
theorem recover_of_missing (hlog : s.disk (fullLogPath (env.root dirname) filename) = some log)
    (hcwd : s.disk (env.resolve filename) = none) :
    recover env dirname filename f s = some (none, s) := by
  simp only [recover, syncLogToFile, hlog, hcwd]
  rfl

/-- With both, the log is replayed. -/
theorem recover_of_log (hlog : s.disk (fullLogPath (env.root dirname) filename) = some log)
    (hcwd : (s.disk (env.resolve filename)).isSome)
    (hdata : s.disk (fullFilePath (env.root dirname) filename) = some content)
    (hlines : (logLines log).map (lineWrite (env.root dirname)) =
      ps.map fun p => some (fullFilePath (env.root dirname) filename, p)) :
    recover env dirname filename f s =
      some (some f, clearLog env filename (fullLogPath (env.root dirname) filename)
        { s with
          disk := Function.update s.disk (fullFilePath (env.root dirname) filename)
            (some (Patch.applyAll 0 ps content)) }) := by
  obtain ⟨c, hc⟩ := Option.isSome_iff_exists.mp hcwd
  have hreplay := Recovery.replay_of_map hlines hdata
  simp only [recover, syncLogToFile, hlog, hc, hreplay]
  rfl

end Recover

/-- **When opening a file recovers it.** For every absolute directory, every name, content and
leftover log of the file, and every working directory: the first `gtfs_open_file` of a process
recovers the file exactly if its name is not too long and, in case there is a log, a file of the
same name exists in the working directory (at the path itself, if the name is an absolute path). -/
theorem open_recovers_iff (cwd : Bytes) (mem : ℕ → Bytes) (dirname filename : Bytes)
    (fileLength : ℤ) (disk : Disk) (content : Bytes) (ps : List (Patch UInt8))
    (hdirname : isAbsolute dirname = true)
    (hdata : disk (fullFilePath dirname filename) = some content)
    (hlog : LogHolds dirname filename disk ps) :
    (filename.length ≤ maxFilenameLen ∧ ((disk (fullLogPath dirname filename)).isNone ∨
        (disk ((Env.quiet cwd mem).resolve filename)).isSome)) ↔
      Recovers cwd mem dirname filename fileLength disk content ps := by
  have hroot : (Env.quiet cwd mem).root dirname = dirname := Env.root_of_isAbsolute _ hdirname
  unfold Recovers
  rw [gtfsInit_fresh]
  by_cases hname : filename.length ≤ maxFilenameLen
  swap
  · -- the call gives up at once
    refine iff_of_false (fun h => hname h.1) ?_
    rintro ⟨f, s, hopen, -⟩
    have hlong : gtfsOpenFile (.quiet cwd mem) (some 0) filename fileLength
        (initialised dirname disk) = some (none, initialised dirname disk) :=
      if_pos (not_le.mp hname)
    exact absurd (hlong.symm.trans hopen) (by simp)
  dsimp only
  rw [gtfsOpenFile_initialised hdata hdirname hname]
  unfold LogHolds at hlog
  have hdisk : (record dirname filename fileLength (initialised dirname disk)).disk = disk := rfl
  cases hlogfile : disk (fullLogPath dirname filename) with
  | none =>
    rw [hlogfile] at hlog
    obtain rfl : ps = [] := List.map_eq_nil_iff.mp hlog.symm
    rw [recover_of_noLog (by rw [hroot, hdisk, hlogfile]), hroot]
    refine iff_of_true ⟨hname, .inl rfl⟩ ⟨0, _, rfl, ?_, ?_⟩
    · exact (clearLog_disk_of_ne _ (fullLogPath_ne dirname filename).symm _ _).trans hdata
    · rw [clearLog_eq rfl]
      exact Function.update_self ..
  | some log =>
    rw [hlogfile] at hlog
    cases hcwd : disk ((Env.quiet cwd mem).resolve filename) with
    | none =>
      rw [recover_of_missing (by rw [hroot, hdisk, hlogfile]) (by rw [hdisk, hcwd])]
      refine iff_of_false (fun h => ?_) ?_
      · exact h.2.elim (fun h => absurd h (by simp)) fun h => absurd h (by simp)
      · rintro ⟨f, s, hopen, -⟩
        exact absurd hopen (by simp)
    | some c =>
      have hlines : (logLines log).map (lineWrite ((Env.quiet cwd mem).root dirname)) =
          ps.map fun p => some (fullFilePath ((Env.quiet cwd mem).root dirname) filename, p) := by
        rw [hroot]
        exact hlog
      rw [recover_of_log (by rw [hroot, hdisk, hlogfile]) (by rw [hdisk, hcwd]; rfl)
        (by rw [hroot, hdisk, hdata]) hlines, hroot]
      refine iff_of_true ⟨hname, .inr rfl⟩ ⟨0, _, rfl, ?_, ?_⟩
      · exact (clearLog_disk_of_ne _ (fullLogPath_ne dirname filename).symm _ _).trans
          (Function.update_self ..)
      · rw [clearLog_eq rfl]
        exact Function.update_self ..

/-- A file with two bytes, and a log that replaces the second one. -/
def leftover : Disk := fun path =>
  if path = ascii "/d/f" then some (ascii "ab")
  else if path = ascii "/d/f.log" then some (ascii "f|1|1|x" ++ [newline])
  else none

/-- A process that works in the directory itself recovers the file. -/
theorem open_recovers_in_directory :
    Recovers (ascii "/d") (fun _ => []) (ascii "/d") (ascii "f") 10 leftover (ascii "ab")
        [⟨1, ascii "x"⟩] ∧
      Patch.applyAll 0 [⟨1, ascii "x"⟩] (ascii "ab") = ascii "ax" :=
  ⟨(open_recovers_iff (ascii "/d") (fun _ => []) (ascii "/d") (ascii "f") 10 leftover (ascii "ab")
    [⟨1, ascii "x"⟩] (by decide) (by decide) (by decide +kernel)).mp (by decide +kernel),
    by decide +kernel⟩

/-- A process that works elsewhere cannot open the file, and the log is not applied. -/
theorem open_elsewhere_returns_null :
    isAbsolute (ascii "/d") = true ∧ leftover (fullFilePath (ascii "/d") (ascii "f")) =
        some (ascii "ab") ∧
      LogHolds (ascii "/d") (ascii "f") leftover [⟨1, ascii "x"⟩] ∧
      (gtfsOpenFile (.quiet (ascii "/tmp") fun _ => []) (some 0) (ascii "f") 10
        (gtfsInit (.quiet (ascii "/tmp") fun _ => []) (ascii "/d") (fresh leftover)).2).any
        (fun r => r.1.isNone && decide (r.2.disk (ascii "/d/f") = some (ascii "ab"))) = true ∧
      ¬ Recovers (ascii "/tmp") (fun _ => []) (ascii "/d") (ascii "f") 10 leftover (ascii "ab")
        [⟨1, ascii "x"⟩] := by
  have hnull : (gtfsOpenFile (.quiet (ascii "/tmp") fun _ => []) (some 0) (ascii "f") 10
      (gtfsInit (.quiet (ascii "/tmp") fun _ => []) (ascii "/d") (fresh leftover)).2).any
      (fun r => r.1.isNone && decide (r.2.disk (ascii "/d/f") = some (ascii "ab"))) = true := by
    decide +kernel
  refine ⟨by decide, by decide, by decide +kernel, hnull, ?_⟩
  rintro ⟨f, s, hopen, -⟩
  rw [gtfsInit_fresh] at hopen
  rw [gtfsInit_fresh, hopen] at hnull
  exact absurd hnull (by simp)

end Reopen

end GTFS
end OSLab
