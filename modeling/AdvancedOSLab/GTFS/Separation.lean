import AdvancedOSLab.GTFS.Abort
import AdvancedOSLab.GTFS.FileTable

/-!
# Calls on one file and the contents of another

Data files and logs live in one directory and are told apart by their names alone. So the calls on
a file `f` can reach the data of a file `g` in two ways.

* `g` is the log of `f`: a sync of `f` appends its record to the data of `g`
  (`sync_appends_to_other_file`), and opening or removing `f` truncates or removes it.
* A replay of the log of `f` writes to the files that its *lines* name. While `f` is in the tables
  its log is not replayed. But a write object outlives the removal of its file: a sync of it makes
  a new log, and the next open of `f` replays it. Data with a newline in it, or a `|` or a newline
  in the name `f`, makes a line that names whatever file it likes.

`files_do_not_interfere` says that this is all. The invariant `Separate` keeps the data and the list
of writes of `g`, and says of the log of `f` that none of its lines names `g` while `f` is not in
the tables. Only a sync then appends to it, and only an open replays it.
-/

namespace OSLab
namespace GTFS
namespace Separation

open Text Bytes Process

/-! ### The calls on a file -/

/-- The pointer is a `file_t` of the file. -/
def IsHandle (f : Bytes) (s : Process) (fl : Option ℕ) : Prop :=
  (fl.bind (s.files[·]?)).map FileT.filename = some f

instance (f : Bytes) (s : Process) (fl : Option ℕ) : Decidable (IsHandle f s fl) :=
  inferInstanceAs (Decidable (_ = _))

/-- The pointer is a `write_t` of the file. -/
def IsWrite (f : Bytes) (s : Process) (writeId : Option ℕ) : Prop :=
  (writeId.bind (s.writes[·]?)).map WriteT.filename = some f

instance (f : Bytes) (s : Process) (writeId : Option ℕ) : Decidable (IsWrite f s writeId) :=
  inferInstanceAs (Decidable (_ = _))

/-- The call is one on the file `f` of the directory, which is at `root`. -/
def onFile (dir root f : Bytes) (s : Process) : Label → Prop
  | .openFile env _ filename _ => env.root dir = root ∧ filename = f
  | .closeFile _ fl => IsHandle f s fl
  | .removeFile env _ fl => env.root dir = root ∧ IsHandle f s fl
  | .writeFile _ fl _ _ _ => IsHandle f s fl
  | .syncWriteFile env writeId => env.root dir = root ∧ IsWrite f s writeId
  | .abortWriteFile writeId => IsWrite f s writeId
  | .init .. | .clean .. | .others .. => False

instance (dir root f : Bytes) (s : Process) (l : Label) : Decidable (onFile dir root f s l) :=
  match l with
  | .openFile .. | .removeFile .. | .syncWriteFile .. => inferInstanceAs (Decidable (_ ∧ _))
  | .closeFile .. | .writeFile .. => inferInstanceAs (Decidable (IsHandle ..))
  | .abortWriteFile .. => inferInstanceAs (Decidable (IsWrite ..))
  | .init .. | .clean .. | .others .. => .isFalse id

/-- The lines name files of the directory, and none of them names `g`. -/
def Spares (g : Bytes) (lines : List Bytes) : Prop :=
  ∀ r ∈ lines.filterMap decodeLine, IsFileName r.filename ∧ r.filename ≠ g

instance (g : Bytes) (lines : List Bytes) : Decidable (Spares g lines) :=
  inferInstanceAs (Decidable (∀ r ∈ _, _))

/-- A sync that makes a log of a file which is not in the tables does not name `g` in it. -/
def sparesOther (f g : Bytes) (s : Process) : Label → Prop
  | .syncWriteFile env writeId => s.filenameFileMapping f = none →
      ∀ w ∈ writeId.bind (s.writes[·]?), Spares g (logLines (w.logData env.mem))
  | _ => True

instance (f g : Bytes) (s : Process) (l : Label) : Decidable (sparesOther f g s l) :=
  match l with
  | .syncWriteFile .. => inferInstanceAs (Decidable (_ → ∀ w ∈ _, _))
  | .init .. | .openFile .. | .closeFile .. | .removeFile .. | .writeFile .. | .abortWriteFile ..
  | .clean .. | .others .. => .isTrue trivial

/-! ### The invariant -/

/-- The paths of the writes are those of their files in the directory. -/
def WritesIn (dir : Bytes) (s : Process) : Prop :=
  ∀ w ∈ s.writes, w.fullFilePath = fullFilePath dir w.filename ∧
    w.fullLogPath = fullLogPath dir w.filename

/-- What the calls on `f` keep, with `s₀` the state before the first one. -/
structure Separate (dir root f g : Bytes) (s₀ s : Process) : Prop where
  gtfs : s.gtfs = s₀.gtfs
  names : s₀.files.map FileT.filename <+: s.files.map FileT.filename
  writes : s₀.writes <+: s.writes
  writesIn : WritesIn dir s
  logs : s.fileLogUpdatesMapping g = s₀.fileLogUpdatesMapping g
  data : s.disk (fullFilePath root g) = s₀.disk (fullFilePath root g)
  /-- the log that the next open would replay -/
  log : s.filenameFileMapping f = none → ∀ log, s.disk (fullLogPath root f) = some log →
    WholeLines log ∧ Spares g (logLines log)

section Run

variable {dir root f g : Bytes} {env : Env} {s₀ s s' : Process}

theorem WritesIn.addWrite (h : WritesIn dir s) (filename : Bytes) (offset length : ℤ) (data : ℕ) :
    WritesIn dir (s.addWrite (newWrite dir filename offset length data)) := by
  intro w hw
  rcases List.mem_append.mp hw with hold | hnew
  · exact h w hold
  · obtain rfl := List.mem_singleton.mp hnew
    exact ⟨rfl, rfl⟩

theorem writesIn_of_reachable {disk : Disk}
    (hr : (system disk).Reachable (FileTable.oneDirectory dir) s) :
    WritesIn dir s := by
  refine hr.invariant (fun w hw => absurd hw List.not_mem_nil) fun s l s' hr hs _ hstep => ?_
  rcases step_shrinks_or_adds hstep with h | ⟨dirname, hdir, file, -, offset, length, data, rfl⟩
  · intro w hw
    exact hs w (h.1 ▸ hw)
  · obtain rfl := (FileTable.invariant_of_reachable hr).gtfs dirname hdir
    exact hs.addWrite file.filename offset length data

theorem isHandle_some {i : ℕ} {file : FileT} (hfile : s.files[i]? = some file) :
    IsHandle file.filename s (some i) := by
  rw [IsHandle, Option.bind_some, hfile, Option.map_some]

theorem IsHandle.exists {fl : Option ℕ} (h : IsHandle f s fl) :
    ∃ i file, fl = some i ∧ s.files[i]? = some file ∧ file.filename = f := by
  obtain ⟨file, hfile, hname⟩ := Option.map_eq_some_iff.mp h
  obtain ⟨i, rfl, hi⟩ := Option.bind_eq_some_iff.mp hfile
  exact ⟨i, file, rfl, hi, hname⟩

theorem IsHandle.filename_eq {i : ℕ} {file : FileT} (h : IsHandle f s (some i))
    (hfile : s.files[i]? = some file) : file.filename = f := by
  obtain ⟨file', hfile', hname⟩ := Option.map_eq_some_iff.mp h
  obtain rfl := Option.some.inj (hfile.symm.trans hfile')
  exact hname

theorem IsWrite.filename_eq {i : ℕ} {w : WriteT} (h : IsWrite f s (some i))
    (hw : s.writes[i]? = some w) : w.filename = f := by
  obtain ⟨w', hw', hname⟩ := Option.map_eq_some_iff.mp h
  obtain rfl := Option.some.inj (hw.symm.trans hw')
  exact hname

theorem Spares.append {lines lines' : List Bytes} (h : Spares g lines) (h' : Spares g lines') :
    Spares g (lines ++ lines') := by
  intro r hr
  rw [List.filterMap_append] at hr
  rcases List.mem_append.mp hr with hr | hr
  · exact h r hr
  · exact h' r hr

/-- A replay of lines that do not name `g` leaves its data alone. -/
theorem Spares.replay {lines : List Bytes} {disk disk' : Disk} (h : Spares g lines)
    (hreplay : replay root lines disk = some disk') :
    disk' (fullFilePath root g) = disk (fullFilePath root g) := by
  refine replay_frame (fun line hline w hw heq => ?_) hreplay
  obtain ⟨r, hr, -, hpath⟩ := lineWrite_eq_some hw
  exact (h r (List.mem_filterMap.mpr ⟨line, hline, hr⟩)).2
    (fullFilePath_inj.mp (heq.trans hpath)).symm

namespace Separate

variable (h : Separate dir root f g s₀ s)

include h

/-- A change of the disk that does not touch the data of `g`, nor the log of `f` while that one is
not in the tables. -/
theorem of_disk {disk : Disk}
    (hdata : disk (fullFilePath root g) = s.disk (fullFilePath root g))
    (hlog : s.filenameFileMapping f = none → ∀ log, disk (fullLogPath root f) = some log →
      WholeLines log ∧ Spares g (logLines log)) :
    Separate dir root f g s₀ { s with disk := disk } where
  gtfs := h.gtfs
  names := h.names
  writes := h.writes
  writesIn := h.writesIn
  logs := h.logs
  data := hdata.trans h.data
  log := hlog

/-- A write to the other fields of a `file_t`. -/
theorem setFile {i : ℕ} {file file' : FileT} (hfile : s.files[i]? = some file)
    (hname : file'.filename = file.filename) :
    Separate dir root f g s₀ { s with files := s.files.set i file' } where
  gtfs := h.gtfs
  names := by
    show _ <+: (s.files.set i file').map FileT.filename
    rw [FileTable.map_filename_set hfile hname]
    exact h.names
  writes := h.writes
  writesIn := h.writesIn
  logs := h.logs
  data := h.data
  log := h.log

theorem record (fileLength : ℤ) : Separate dir root f g s₀ (record dir f fileLength s) where
  gtfs := h.gtfs
  names := by
    show _ <+: (s.files ++ [_]).map FileT.filename
    rw [List.map_append]
    exact h.names.trans (List.prefix_append _ _)
  writes := h.writes
  writesIn := h.writesIn
  logs := h.logs
  data := h.data
  log hnone := absurd ((Function.update_self ..).symm.trans hnone) (by simp)

/-- The log of `f` as it will be appended to: one that is not there is empty. -/
theorem log_getD (hnone : s.filenameFileMapping f = none) :
    WholeLines ((s.disk (fullLogPath root f)).getD []) ∧
      Spares g (logLines ((s.disk (fullLogPath root f)).getD [])) := by
  cases hlog : s.disk (fullLogPath root f) with
  | none => exact ⟨.inl rfl, fun r hr => absurd hr List.not_mem_nil⟩
  | some log => exact h.log hnone log hlog

variable (hfg : g ≠ f)

include hfg

theorem created : Separate dir root f g s₀ (created (fullFilePath root f) s) := by
  refine h.of_disk (create_of_ne (fun heq => hfg (fullFilePath_inj.mp heq)) _)
    fun hnone log hlog => h.log hnone log ?_
  rwa [create_of_ne (fullLogPath_ne root f)] at hlog

/-- The writes of `f` change. -/
theorem of_logs {logs : Option (List ℕ)} :
    Separate dir root f g s₀
      { s with fileLogUpdatesMapping := Function.update s.fileLogUpdatesMapping f logs } :=
  { h with logs := (Function.update_of_ne hfg _ _).trans h.logs }

/-- The recovery of `f` replays a log that does not name `g`. -/
theorem recovered_data {bare : Bytes} {disk : Disk} (hnew : s.filenameFileMapping f = none)
    (hrecovered : Recovered root bare (fullLogPath root f)
      (create (fullFilePath root f) s.disk) disk) :
    disk (fullFilePath root g) = s.disk (fullFilePath root g) := by
  have hcreated : create (fullFilePath root f) s.disk (fullFilePath root g) =
      s.disk (fullFilePath root g) :=
    create_of_ne (fun heq => hfg (fullFilePath_inj.mp heq)) s.disk
  cases hrecovered with
  | noLog => exact hcreated
  | redone hlog hbare hreplay =>
    rw [create_of_ne (fullLogPath_ne root f)] at hlog
    exact ((h.log hnew _ hlog).2.replay hreplay).trans hcreated

theorem addWrite (offset length : ℤ) (data : ℕ) :
    Separate dir root f g s₀ (s.addWrite (newWrite dir f offset length data)) where
  gtfs := h.gtfs
  names := h.names
  writes := h.writes.trans (List.prefix_append _ _)
  writesIn := h.writesIn.addWrite f offset length data
  logs := (Function.update_of_ne hfg _ _).trans h.logs
  data := h.data
  log := h.log

variable (hlogname : g ≠ f ++ ascii ".log")

include hlogname

omit h hfg in
theorem data_ne_log : fullFilePath root g ≠ fullLogPath root f := by
  intro heq
  rw [fullLogPath_eq, fullFilePath_inj] at heq
  exact hlogname heq

/-- A log that is truncated or created, when the file is in the tables. -/
theorem clearLog (hknown : s.filenameFileMapping f ≠ none) :
    Separate dir root f g s₀ (clearLog env f (fullLogPath root f) s) where
  gtfs := h.gtfs
  names := h.names
  writes := h.writes
  writesIn := h.writesIn
  logs := (Function.update_of_ne hfg _ _).trans h.logs
  data := (clearLog_disk_of_ne env (data_ne_log hlogname) _ _).trans h.data
  log hnone := absurd hnone hknown

theorem opening {fileLength : ℤ} {res : Option ℕ} (hroot : env.root dir = root)
    (hopening : Opening env dir f fileLength s res s') : Separate dir root f g s₀ s' := by
  subst hroot
  cases hopening with
  | refused => exact h
  | notLocked | tooShort => exact h.created hfg
  | known hopened hknown hfile => exact (h.created hfg).setFile hfile rfl
  | notRecovered => exact (h.created hfg).record fileLength
  | recovered hopened hnew hrecovered =>
    have hentry := Function.update_self f (some s.files.length) s.filenameFileMapping
    have hknown : (Process.record dir f fileLength s).filenameFileMapping f ≠ none := by
      rw [show (Process.record dir f fileLength s).filenameFileMapping f = _ from hentry]
      simp
    exact ((h.record fileLength).of_disk (h.recovered_data hfg hnew hrecovered)
      fun hnone => absurd hnone hknown).clearLog hfg hlogname hknown

theorem removal {file : FileT} {ret : ℤ} (hroot : env.root dir = root) (hname : file.filename = f)
    (hremoval : Removal env dir file s ret s') : Separate dir root f g s₀ s' := by
  subst hroot hname
  have hdata : fullFilePath (env.root dir) g ≠ fullFilePath (env.root dir) file.filename :=
    fun heq => hfg (fullFilePath_inj.mp heq)
  cases hremoval with
  | refused => exact h
  | logStays =>
    refine h.of_disk (Function.update_of_ne hdata _ _) fun hnone log hlog => h.log hnone log ?_
    rwa [Function.update_of_ne (fullLogPath_ne _ _)] at hlog
  | removed =>
    -- the log is gone, so the next open replays nothing
    refine { h with
      logs := (Function.update_of_ne hfg _ _).trans h.logs
      data := ?_
      log := fun _ log hlog => absurd ((Function.update_self ..).symm.trans hlog) (by simp) }
    show Function.update (Function.update s.disk _ none) _ none _ = _
    rw [Function.update_of_ne (data_ne_log hlogname), Function.update_of_ne hdata]
    exact h.data

theorem syncing {w : WriteT} {ret : ℤ} (hroot : env.root dir = root) (hw : w ∈ s.writes)
    (hname : w.filename = f)
    (hspares : s.filenameFileMapping f = none → Spares g (logLines (w.logData env.mem)))
    (hsyncing : Syncing env w s ret s') : Separate dir root f g s₀ s' := by
  subst hname
  obtain ⟨hpath, hlogPath⟩ := h.writesIn w hw
  obtain ⟨hresolve, hresolveLog⟩ := resolve_paths hpath hlogPath hroot
  -- while the file is in the tables no open replays its log, and the record does not matter
  have hlogged : Separate dir root w.filename g s₀
      (logged (env.resolve w.fullLogPath) (w.logData env.mem) s) := by
    rw [hresolveLog]
    refine h.of_disk (Function.update_of_ne (data_ne_log hlogname) _ _) fun hnone log hlog => ?_
    obtain ⟨hlines, holdSpares⟩ := h.log_getD hnone
    rw [Function.update_self] at hlog
    obtain rfl := Option.some.inj hlog
    refine ⟨hlines.append (.inr ⟨_, rfl⟩), ?_⟩
    rw [hlines.logLines_append]
    exact holdSpares.append (hspares hnone)
  cases hsyncing with
  | refused => exact h
  | notLocked =>
    rw [hresolveLog]
    refine h.of_disk (create_of_ne (data_ne_log hlogname) _) fun hnone log hlog => ?_
    rw [create_self] at hlog
    exact Option.some.inj hlog ▸ h.log_getD hnone
  | onlyLogged => exact hlogged
  | synced =>
    rw [hresolve]
    refine hlogged.of_disk
      (writeFile_of_ne (fun heq => hfg (fullFilePath_inj.mp heq)) _ _) fun hnone log hlog => ?_
    rw [writeFile_of_ne (fullLogPath_ne _ _)] at hlog
    exact hlogged.log hnone log hlog

theorem step (hdir : ∀ d ∈ s₀.gtfs, d = dir) (disk : Disk) {l : Label}
    (hl : onFile dir root f s l ∧ sparesOther f g s l)
    (hstep : (system disk).step s l = some s') : Separate dir root f g s₀ s' := by
  obtain ⟨hl, hspares⟩ := hl
  cases step_effect hstep with
  | nothing => exact h
  -- no calls on `f`
  | init | clean | others => exact absurd hl id
  | openFile hdirname hopening =>
    obtain ⟨hroot, rfl⟩ := hl
    obtain rfl := hdir _ (h.gtfs ▸ hdirname)
    exact h.opening hfg hlogname hroot hopening
  | closeFile hfile => exact h.setFile hfile rfl
  | removeFile hdirname hfile hremoval =>
    obtain ⟨hroot, hhandle⟩ := hl
    obtain rfl := hdir _ (h.gtfs ▸ hdirname)
    exact h.removal hfg hlogname hroot (hhandle.filename_eq hfile) hremoval
  | writeFile hdirname hfile =>
    obtain rfl := hdir _ (h.gtfs ▸ hdirname)
    obtain rfl := IsHandle.filename_eq hl hfile
    exact h.addWrite hfg _ _ _
  | syncWriteFile hw hsyncing =>
    obtain ⟨hroot, hwrite⟩ := hl
    exact h.syncing hfg hlogname hroot (List.mem_of_getElem? hw) (hwrite.filename_eq hw)
      (fun hnone => hspares hnone _ hw) hsyncing
  | abortWriteFile hw hlogs =>
    obtain rfl := IsWrite.filename_eq hl hw
    exact h.of_logs hfg

omit hfg hlogname in
theorem pendingData_eq (hvalid : PendingValid s₀) (offset length : ℤ) :
    s.pendingData g offset length = s₀.pendingData g offset length := by
  obtain ⟨rest, hrest⟩ := h.writes
  unfold pendingData
  rw [h.logs]
  refine List.filterMap_congr fun i hi => ?_
  unfold dataAt
  rw [← hrest, List.getElem?_append_left (hvalid g i hi)]

omit hfg hlogname in
/-- A read of `g` only sees what the calls on `f` keep. -/
theorem gtfsReadFile_eq (hvalid : PendingValid s₀) (hdir : ∀ d ∈ s₀.gtfs, d = dir)
    (hroot : env.root dir = root) {fl : Option ℕ} (hhandle : IsHandle g s₀ fl)
    (gtfs : Option ℕ) (offset length : ℤ) :
    Process.gtfsReadFile env gtfs fl offset length s =
      Process.gtfsReadFile env gtfs fl offset length s₀ := by
  obtain ⟨i, file, rfl, hfile, rfl⟩ := hhandle.exists
  refine gtfsReadFile_congr h.gtfs (fun j hj => ?_) fun j file' hj hfile' => ?_
  · obtain rfl := Option.some.inj hj
    obtain ⟨rest, hrest⟩ := h.names
    have hi : i < (s₀.files.map FileT.filename).length := by
      rw [List.length_map]
      exact (List.getElem?_eq_some_iff.mp hfile).1
    rw [← List.getElem?_map, ← List.getElem?_map, ← hrest, List.getElem?_append_left hi]
  · obtain rfl := Option.some.inj hj
    obtain rfl := Option.some.inj (hfile.symm.trans hfile')
    refine ⟨by rw [h.pendingData_eq hvalid], fun dirname hdirname => ?_⟩
    rw [hdir dirname hdirname, hroot]
    exact h.data

end Separate

end Run

/-- **Calls on one file leave the other alone.** Let `f` and `g` be different files of one
directory, let `g` not be the log of `f`, and let `f` be in the tables. After any sequence of calls
on `f`, with any of the checked system calls failing, in which no sync of a removed `f` logs a line
that names `g`: the data of `g` is as before, and so is the result of every read of it. -/
theorem files_do_not_interfere (dir root : Bytes) (f g : FileName) (hfg : g ≠ f)
    (hlogname : g.1 ≠ f.1 ++ ascii ".log") (disk : Disk) (s₀ s : Process)
    (h₀ : (system disk).Reachable (FileTable.oneDirectory dir) s₀)
    (hf : (s₀.filenameFileMapping f).isSome)
    (hr : ((system disk).startingAt s₀).Reachable
      (fun s l => onFile dir root f s l ∧ sparesOther f g s l) s) :
    s.disk (fullFilePath root g) = s₀.disk (fullFilePath root g) ∧
      ∀ env gtfs fl offset length, env.root dir = root → IsHandle g s₀ fl →
        Process.gtfsReadFile env gtfs fl offset length s =
          Process.gtfsReadFile env gtfs fl offset length s₀ := by
  have hdir := (FileTable.invariant_of_reachable h₀).gtfs
  have hinit : Separate dir root f g s₀ s₀ :=
    { gtfs := rfl
      names := List.prefix_rfl
      writes := List.prefix_rfl
      writesIn := writesIn_of_reachable h₀
      logs := rfl
      data := rfl
      log := fun hnone => absurd hf (by rw [hnone]; simp) }
  have h : Separate dir root f g s₀ s :=
    hr.invariant hinit fun _ _ _ _ h hl hstep =>
      h.step (fun heq => hfg (Subtype.ext heq)) hlogname hdir disk hl hstep
  exact ⟨h.data, fun env gtfs fl offset length hroot hhandle =>
    h.gtfsReadFile_eq (pendingValid_of_reachable h₀) hdir hroot hhandle gtfs offset length⟩

/-! ### Two pairs of files -/

/-- The environment of the runs: the working directory is the directory of the files, and client
memory has an `x` everywhere. -/
def sharedEnv : Env := .quiet (ascii "/d") fun _ => ascii "x"

/-- Both files are opened, and a write to the second one is pending. -/
def bothOpened (f g : Bytes) : List Label :=
  [.init sharedEnv (ascii "/d"), .openFile sharedEnv (some 0) f 10,
    .openFile sharedEnv (some 0) g 10, .writeFile (some 0) (some 1) 3 1 0]

/-- The file is written to, closed and removed, a sync of its write makes a new log, and the file is
opened again. -/
def callsOn (f : Bytes) : List Label :=
  [.writeFile (some 0) (some 0) 0 1 0, .syncWriteFile sharedEnv (some 1),
    .closeFile (some 0) (some 0), .removeFile sharedEnv (some 0) (some 0),
    .syncWriteFile sharedEnv (some 1), .openFile sharedEnv (some 0) f 10]

/-- A read of `b` is answered by its pending write, before and after the calls on `a`. -/
theorem files_do_not_interfere_pair :
    ∃ s₀ s, (system fun _ => none).Reachable (FileTable.oneDirectory (ascii "/d")) s₀ ∧
      s.disk (ascii "/d/a") = some (ascii "x") ∧
      Process.gtfsReadFile sharedEnv (some 0) (some 1) 3 1 s₀ = some (some (ascii "x")) ∧
      Process.gtfsReadFile sharedEnv (some 0) (some 1) 3 1 s =
        Process.gtfsReadFile sharedEnv (some 0) (some 1) 3 1 s₀ := by
  have hrun : ((system fun _ => none).guardedRun (FileTable.oneDirectory (ascii "/d"))
      (system fun _ => none).init (bothOpened (ascii "a") (ascii "b"))).any (fun s₀ =>
        decide ((s₀.filenameFileMapping (ascii "a")).isSome ∧
          Process.gtfsReadFile sharedEnv (some 0) (some 1) 3 1 s₀ = some (some (ascii "x")) ∧
          IsHandle (ascii "b") s₀ (some 1)) &&
        (((system fun _ => none).startingAt s₀).guardedRun
          (fun s l => onFile (ascii "/d") (ascii "/d") (ascii "a") s l ∧
            sparesOther (ascii "a") (ascii "b") s l) s₀ (callsOn (ascii "a"))).any fun s =>
              decide (s.disk (ascii "/d/a") = some (ascii "x"))) = true := by
    decide +kernel
  -- first the run that opens both files, then the one on `a` alone
  obtain ⟨s₀, h₀, hs₀⟩ := System.Reachable.of_any hrun
  obtain ⟨hs₀, hrun'⟩ := Bool.and_eq_true_iff.mp hs₀
  obtain ⟨hopened, hread, hhandle⟩ := of_decide_eq_true hs₀
  obtain ⟨s, hr, hs⟩ := System.Reachable.of_any hrun'
  have hsame := files_do_not_interfere (ascii "/d") (ascii "/d") ⟨ascii "a", by decide⟩
    ⟨ascii "b", by decide⟩ (by decide) (by decide) (fun _ => none) s₀ s h₀ hopened hr
  exact ⟨s₀, s, h₀, of_decide_eq_true hs, hread,
    hsame.2 sharedEnv (some 0) (some 1) 3 1 rfl hhandle⟩

/-- The files `a` and `a.log` are opened. A sync of a write to `a` puts its record into the data of
`a.log`. -/
theorem sync_appends_to_other_file :
    ∃ s₀ s, (system fun _ => none).Reachable (FileTable.oneDirectory (ascii "/d")) s₀ ∧
      (s₀.filenameFileMapping (ascii "a")).isSome ∧
      (s₀.filenameFileMapping (ascii "a.log")).isSome ∧
      ((system fun _ => none).startingAt s₀).Reachable
        (onFile (ascii "/d") (ascii "/d") (ascii "a")) s ∧
      s₀.disk (fullFilePath (ascii "/d") (ascii "a.log")) = some [] ∧
      s.disk (fullFilePath (ascii "/d") (ascii "a.log")) = some (ascii "a|0|1|x\n") := by
  have hrun : ((system fun _ => none).guardedRun (FileTable.oneDirectory (ascii "/d"))
      (system fun _ => none).init (bothOpened (ascii "a") (ascii "a.log"))).any (fun s₀ =>
        decide ((s₀.filenameFileMapping (ascii "a")).isSome ∧
          (s₀.filenameFileMapping (ascii "a.log")).isSome ∧
          s₀.disk (fullFilePath (ascii "/d") (ascii "a.log")) = some []) &&
        (((system fun _ => none).startingAt s₀).guardedRun
          (onFile (ascii "/d") (ascii "/d") (ascii "a")) s₀ ((callsOn (ascii "a")).take 2)).any
            fun s => decide (s.disk (fullFilePath (ascii "/d") (ascii "a.log")) =
              some (ascii "a|0|1|x\n"))) = true := by
    decide +kernel
  obtain ⟨s₀, h₀, hs₀⟩ := System.Reachable.of_any hrun
  obtain ⟨hs₀, hrun'⟩ := Bool.and_eq_true_iff.mp hs₀
  obtain ⟨ha, hlog, hbefore⟩ := of_decide_eq_true hs₀
  obtain ⟨s, hr, hs⟩ := System.Reachable.of_any hrun'
  exact ⟨s₀, s, h₀, ha, hlog, hr, hbefore, of_decide_eq_true hs⟩

end Separation
end GTFS
end OSLab
