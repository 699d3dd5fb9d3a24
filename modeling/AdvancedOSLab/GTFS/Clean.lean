import AdvancedOSLab.GTFS.Separation

/-!
# Which logs `gtfs_clean` empties

`gtfs_clean` goes through the entries of the directory. It skips a name that does not contain `.txt`
or that contains `.log`, applies the log of every other one to it, and truncates the log. But
`gtfs_open_file` makes a log for every name. So the logs of the other names stay as they are, and
the result is 0 all the same (`clean_skips_other_names`).

For the names that are selected one thing is left that can go wrong: a log that has been truncated
is written to by the replay of another one. `clean_empties_logs` says that the logs of all opened
files are empty after a clean that returns 0, in every run in which the opened names are selected
and no record has a line that names a log. The invariant `Tidy` says that such lines are in no log
of a selected name, so that a replay leaves all logs as they are.
-/

namespace OSLab
namespace GTFS
namespace Clean

open Text Bytes Process Separation

/-! ### The names -/

/-- The name contains `.log`. -/
def IsLogName (name : Bytes) : Prop := (find (ascii ".log") name).isSome

/-- `gtfs_clean` does not skip the name. -/
def Selected (name : Bytes) : Prop := (find (ascii ".txt") name).isSome ∧ ¬ IsLogName name

instance (name : Bytes) : Decidable (IsLogName name) := inferInstanceAs (Decidable (_ = true))

instance (name : Bytes) : Decidable (Selected name) := inferInstanceAs (Decidable (_ ∧ _))

theorem isLogName_append (name : Bytes) : IsLogName (name ++ ascii ".log") := by
  unfold IsLogName
  rw [← Option.ne_none_iff_isSome]
  exact fun h => find_eq_none_iff.mp h (List.suffix_append name _).isInfix

section Paths

variable {root name : Bytes}

/-- A file whose name does not contain `.log` is no log. -/
theorem fullFilePath_ne_log (h : ¬ IsLogName name) (filename : Bytes) :
    fullFilePath root name ≠ fullLogPath root filename := by
  intro heq
  rw [fullLogPath_eq, fullFilePath_inj] at heq
  exact h (heq ▸ isLogName_append filename)

end Paths

/-! ### The loop over the directory -/

/-- No line of the log names a log, and its last line is complete. -/
structure Tame (log : Bytes) : Prop where
  wholeLines : WholeLines log
  names : ∀ r ∈ (logLines log).filterMap decodeLine, ¬ IsLogName r.filename

/-- The logs that `gtfs_clean` replays name no logs. -/
def TameLogs (root : Bytes) (disk : Disk) : Prop :=
  ∀ name, Selected name → ∀ log, disk (fullLogPath root name) = some log → Tame log

theorem Tame.append {log log' : Bytes} (h : Tame log) (h' : Tame log') : Tame (log ++ log') := by
  refine ⟨h.wholeLines.append h'.wholeLines, fun r hr => ?_⟩
  rw [h.wholeLines.logLines_append, List.filterMap_append] at hr
  rcases List.mem_append.mp hr with hr | hr
  · exact h.names r hr
  · exact h'.names r hr

theorem Tame.nil : Tame [] := ⟨.inl rfl, fun _ hr => absurd hr List.not_mem_nil⟩

section Loop

variable {root : Bytes} {disk disk' : Disk}

/-- The replay of a tame log leaves all logs as they are. -/
theorem Tame.replay {log : Bytes} (h : Tame log)
    (hreplay : replay root (logLines log) disk = some disk') (name : Bytes) :
    disk' (fullLogPath root name) = disk (fullLogPath root name) := by
  refine replay_frame (fun line hline w hw heq => ?_) hreplay
  obtain ⟨r, hr, -, hpath⟩ := lineWrite_eq_some hw
  exact fullFilePath_ne_log (h.names r (List.mem_filterMap.mpr ⟨line, hline, hr⟩)) name
    (hpath.symm.trans heq.symm)

theorem TameLogs.of_logs (h : TameLogs root disk)
    (hlogs : ∀ name, disk' (fullLogPath root name) = disk (fullLogPath root name)) :
    TameLogs root disk' :=
  fun name hname log hlog => h name hname log (hlogs name ▸ hlog)

/-- One log is replaced by a tame one. -/
theorem TameLogs.update (h : TameLogs root disk) (name : Bytes) {log : Bytes} (hlog : Tame log) :
    TameLogs root (Function.update disk (fullLogPath root name) (some log)) := by
  intro name' hname' log' hlog'
  by_cases heq : name' = name
  · subst heq
    rw [Function.update_self] at hlog'
    exact Option.some.inj hlog' ▸ hlog
  · rw [Function.update_of_ne fun hpath => heq (fullLogPath_inj.mp hpath)] at hlog'
    exact h name' hname' log' hlog'

theorem not_selected_iff {name : Bytes} :
    ¬ Selected name ↔ (find (ascii ".txt") name).isNone ∨ (find (ascii ".log") name).isSome := by
  unfold Selected IsLogName
  rw [not_and_or, not_not, Option.not_isSome_iff_eq_none, Option.isNone_iff_eq_none]

theorem cleanEntries_of_not_selected {name : Bytes} (h : ¬ Selected name) (entries : List Bytes) :
    cleanEntries root (name :: entries) disk = cleanEntries root entries disk := by
  rw [cleanEntries, if_pos (not_selected_iff.mp h)]

theorem cleanEntries_of_selected {name : Bytes} (h : Selected name) (entries : List Bytes) :
    cleanEntries root (name :: entries) disk =
      (syncLogToFile root (fullFilePath root name) (fullLogPath root name) disk).bind fun r =>
        if r.1 = -1 then some (-1, r.2)
        else cleanEntries root entries
          (Function.update r.2 (fullLogPath root name) (some [])) := by
  rw [cleanEntries, if_neg fun hskip => not_selected_iff.mpr hskip h]
  rfl

/-- A selected entry is given up at, or its log is replayed and truncated. -/
theorem cleanEntries_cons {name : Bytes} {entries : List Bytes} {res : ℤ}
    (h : cleanEntries root (name :: entries) disk = some (res, disk')) :
    (¬ Selected name ∧ cleanEntries root entries disk = some (res, disk')) ∨
    (Selected name ∧ res = -1 ∧ disk' = disk) ∨
    (Selected name ∧ ∃ log disk₁, disk (fullLogPath root name) = some log ∧
      replay root (logLines log) disk = some disk₁ ∧
      cleanEntries root entries (Function.update disk₁ (fullLogPath root name) (some [])) =
        some (res, disk')) := by
  by_cases hsel : Selected name
  · rw [cleanEntries_of_selected hsel] at h
    obtain ⟨⟨ret, disk₁⟩, hsync, hrest⟩ := Option.bind_eq_some_iff.mp h
    dsimp only at hrest
    rcases syncLogToFile_cases hsync with ⟨rfl, rfl, -⟩ | ⟨rfl, -, log, hlog, hreplay⟩
    · rw [if_pos rfl] at hrest
      obtain ⟨rfl, rfl⟩ := Prod.mk.inj (Option.some.inj hrest)
      exact .inr (.inl ⟨hsel, rfl, rfl⟩)
    · rw [if_neg (by decide)] at hrest
      exact .inr (.inr ⟨hsel, log, disk₁, hlog, hreplay, hrest⟩)
  · exact .inl ⟨hsel, cleanEntries_of_not_selected hsel entries ▸ h⟩

/-- What the loop keeps, wherever it gives up: every file that is there stays there, and a log is
as before or empty. -/
theorem cleanEntries_keeps {entries : List Bytes} {res : ℤ} (htame : TameLogs root disk)
    (h : cleanEntries root entries disk = some (res, disk')) :
    (∀ path, (disk' path).isSome = (disk path).isSome) ∧
      ∀ name, disk' (fullLogPath root name) = disk (fullLogPath root name) ∨
        disk' (fullLogPath root name) = some [] := by
  induction entries generalizing disk with
  | nil =>
    obtain ⟨-, rfl⟩ := Prod.mk.inj (Option.some.inj h)
    exact ⟨fun _ => rfl, fun _ => .inl rfl⟩
  | cons name entries ih =>
    rcases cleanEntries_cons h with ⟨-, h⟩ | ⟨-, -, rfl⟩ | ⟨hsel, log, disk₁, hlog, hreplay, h⟩
    · exact ih htame h
    · exact ⟨fun _ => rfl, fun _ => .inl rfl⟩
    · -- the replay leaves all logs alone, and then one of them is truncated
      have hlogs := (htame name hsel log hlog).replay hreplay
      obtain ⟨hkept, hold⟩ := ih ((htame.of_logs hlogs).update name Tame.nil) h
      refine ⟨fun path => (hkept path).trans ?_, fun name' => ?_⟩
      · by_cases hpath : path = fullLogPath root name
        · rw [hpath, Function.update_self, hlog]
          rfl
        · rw [Function.update_of_ne hpath, isSome_replay path hreplay]
      · rcases hold name' with hsame | hempty
        · by_cases heq : name' = name
          · subst heq
            rw [Function.update_self] at hsame
            exact .inr hsame
          · rw [Function.update_of_ne fun hpath => heq (fullLogPath_inj.mp hpath), hlogs] at hsame
            exact .inl hsame
        · exact .inr hempty

theorem TameLogs.cleanEntries {entries : List Bytes} {res : ℤ} (htame : TameLogs root disk)
    (h : cleanEntries root entries disk = some (res, disk')) : TameLogs root disk' := by
  intro name hname log hlog
  rcases (cleanEntries_keeps htame h).2 name with hsame | hempty
  · exact htame name hname log (hsame ▸ hlog)
  · obtain rfl := Option.some.inj (hempty.symm.trans hlog)
    exact Tame.nil

/-- A loop that comes to its end has emptied the log of every selected entry. -/
theorem cleanEntries_empties {entries : List Bytes} {res : ℤ} (htame : TameLogs root disk)
    (h : Process.cleanEntries root entries disk = some (res, disk')) (hres : res ≠ -1) :
    ∀ name ∈ entries, Selected name → disk' (fullLogPath root name) = some [] := by
  induction entries generalizing disk with
  | nil => exact fun name hname => absurd hname List.not_mem_nil
  | cons entry entries ih =>
    intro name hname hselected
    rcases cleanEntries_cons h with
      ⟨hskip, h⟩ | ⟨-, rfl, -⟩ | ⟨hsel, log, disk₁, hlog, hreplay, h⟩
    · rcases List.mem_cons.mp hname with rfl | hname
      · exact absurd hselected hskip
      · exact ih htame h name hname hselected
    · exact absurd rfl hres
    · have hlogs := (htame entry hsel log hlog).replay hreplay
      have htame₁ := (htame.of_logs hlogs).update entry Tame.nil
      rcases List.mem_cons.mp hname with rfl | hname
      · -- the log is empty behind its entry, and no later one writes to it
        have hempty := Function.update_self (fullLogPath root name) (some []) disk₁
        exact ((cleanEntries_keeps htame₁ h).2 name).elim (·.trans hempty) id
      · exact ih htame₁ h name hname hselected

end Loop

/-! ### Runs -/

/-- The steps of the runs, under the condition: the opened names are selected, and no record has a
line that names a log. Files are not removed, and the disk is that of this process. -/
def cleanable (dir root : Bytes) (s : Process) : Label → Prop
  | .init _ directory => directory = dir
  | .openFile env _ filename _ => env.root dir = root ∧ IsFileName filename ∧ Selected filename
  | .syncWriteFile env writeId => env.root dir = root ∧ ∀ w ∈ writeId.bind (s.writes[·]?),
      ∀ r ∈ (logLines (w.logData env.mem)).filterMap decodeLine, ¬ IsLogName r.filename
  | .clean env _ => env.root dir = root
  | .closeFile .. | .writeFile .. | .abortWriteFile .. => True
  | .removeFile .. | .others .. => False

instance (dir root : Bytes) (s : Process) (l : Label) : Decidable (cleanable dir root s l) :=
  match l with
  | .init .. | .clean .. => inferInstanceAs (Decidable (_ = _))
  | .openFile .. => inferInstanceAs (Decidable (_ ∧ _))
  | .syncWriteFile .. => inferInstanceAs (Decidable (_ ∧ ∀ w ∈ _, ∀ r ∈ _, _))
  | .closeFile .. | .writeFile .. | .abortWriteFile .. => .isTrue trivial
  | .removeFile .. | .others .. => .isFalse id

/-- What the steps keep. -/
structure Tidy (dir root : Bytes) (s : Process) : Prop where
  gtfs : ∀ d ∈ s.gtfs, d = dir
  files : ∀ file ∈ s.files, Selected file.filename
  writes : ∀ w ∈ s.writes, Selected w.filename
  writesIn : WritesIn dir s
  opened : ∀ name, (s.filenameFileMapping name).isSome →
    IsFileName name ∧ Selected name ∧ (s.disk (fullFilePath root name)).isSome
  tame : TameLogs root s.disk

namespace Tidy

section Step

variable {dir root : Bytes} {env : Env} {s s' : Process} (h : Tidy dir root s)

include h

theorem of_disk {disk : Disk} (hkept : ∀ path, (s.disk path).isSome → (disk path).isSome)
    (htame : TameLogs root disk) : Tidy dir root { s with disk := disk } :=
  { h with
    opened := fun name hname =>
      let ⟨hfile, hselected, hdata⟩ := h.opened name hname
      ⟨hfile, hselected, hkept _ hdata⟩
    tame := htame }

theorem of_logs {logs : Bytes → Option (List ℕ)} :
    Tidy dir root { s with fileLogUpdatesMapping := logs } :=
  { h with }

theorem setFile {i : ℕ} {file file' : FileT} (hfile : s.files[i]? = some file)
    (hname : file'.filename = file.filename) :
    Tidy dir root { s with files := s.files.set i file' } := by
  refine { h with files := fun file'' hfile'' => ?_ }
  rcases List.mem_or_eq_of_mem_set hfile'' with hold | rfl
  · exact h.files file'' hold
  · exact hname ▸ h.files file (List.mem_of_getElem? hfile)

theorem created {name : Bytes} (hselected : Selected name) :
    Tidy dir root (created (fullFilePath root name) s) := by
  refine h.of_disk (fun path hpath => ?_) (h.tame.of_logs fun name' => ?_)
  · rw [create_eq_update]
    exact isSome_update hpath _ _
  · exact create_of_ne (fullFilePath_ne_log hselected.2 name').symm s.disk

theorem record {name : Bytes} (hname : IsFileName name) (hselected : Selected name)
    (hdata : (s.disk (fullFilePath root name)).isSome) (fileLength : ℤ) :
    Tidy dir root (record dir name fileLength s) := by
  refine { h with files := fun file hfile => ?_, opened := fun name' hname' => ?_ }
  · rcases List.mem_append.mp hfile with hold | hnew
    · exact h.files file hold
    · exact List.mem_singleton.mp hnew ▸ hselected
  · by_cases heq : name' = name
    · subst heq
      exact ⟨hname, hselected, hdata⟩
    · refine h.opened name' ?_
      have hother := Function.update_of_ne heq (some s.files.length) s.filenameFileMapping
      exact hother ▸ hname'

/-- The recovery of a file replays its log, which is tame, and truncates it. -/
theorem recovered {bare name : Bytes} {disk : Disk} (hname : IsFileName name)
    (hselected : Selected name) (fileLength : ℤ)
    (hrecovered : Recovered root bare (fullLogPath root name)
      (create (fullFilePath root name) s.disk) disk) :
    Tidy dir root (clearLog env name (fullLogPath root name)
      { Process.record dir name fileLength s with disk := disk }) := by
  have hcreated := h.created hselected
  -- a replay neither removes a file nor writes to a log
  obtain ⟨hkept, hlogs⟩ : (∀ path, ((Process.created (fullFilePath root name) s).disk path).isSome →
      (disk path).isSome) ∧ ∀ name', disk (fullLogPath root name') =
        (Process.created (fullFilePath root name) s).disk (fullLogPath root name') := by
    cases hrecovered with
    | noLog => exact ⟨fun _ => id, fun _ => rfl⟩
    | redone hlog hbare hreplay =>
      exact ⟨fun path hpath => (isSome_replay path hreplay).trans hpath,
        (hcreated.tame name hselected _ hlog).replay hreplay⟩
  have hrecorded :=
    (hcreated.record hname hselected (isSome_create_self _ _) fileLength).of_disk hkept
    (hcreated.tame.of_logs hlogs)
  unfold clearLog
  dsimp only
  split
  · -- there was no log, and none could be created
    exact hrecorded.of_logs
  · exact (hrecorded.of_disk (fun path hpath => isSome_update hpath _ _)
      (hrecorded.tame.update name Tame.nil)).of_logs

theorem opening {name : Bytes} {fileLength : ℤ} {res : Option ℕ} (hroot : env.root dir = root)
    (hname : IsFileName name) (hselected : Selected name)
    (hopening : Opening env dir name fileLength s res s') : Tidy dir root s' := by
  subst hroot
  cases hopening with
  | refused => exact h
  | notLocked | tooShort => exact h.created hselected
  | known hopened hknown hfile => exact (h.created hselected).setFile hfile rfl
  | notRecovered =>
    exact (h.created hselected).record hname hselected (isSome_create_self _ _) fileLength
  | recovered hopened hnew hrecovered => exact h.recovered hname hselected fileLength hrecovered

theorem addWrite (name : Bytes) (hselected : Selected name) (offset length : ℤ) (data : ℕ) :
    Tidy dir root (s.addWrite (newWrite dir name offset length data)) := by
  refine { h with
    writes := fun w hw => ?_
    writesIn := h.writesIn.addWrite name offset length data }
  rcases List.mem_append.mp hw with hold | hnew
  · exact h.writes w hold
  · obtain rfl := List.mem_singleton.mp hnew
    exact hselected

theorem syncing {w : WriteT} {ret : ℤ} (hroot : env.root dir = root) (hw : w ∈ s.writes)
    (hnames : ∀ r ∈ (logLines (w.logData env.mem)).filterMap decodeLine, ¬ IsLogName r.filename)
    (hsyncing : Syncing env w s ret s') : Tidy dir root s' := by
  have hselected := h.writes w hw
  obtain ⟨hpath, hlogPath⟩ := h.writesIn w hw
  obtain ⟨hresolve, hresolveLog⟩ := resolve_paths hpath hlogPath hroot
  -- a log that is not there is an empty one
  have hold : Tame ((s.disk (fullLogPath root w.filename)).getD []) := by
    cases hlog : s.disk (fullLogPath root w.filename) with
    | none => exact Tame.nil
    | some log => exact h.tame w.filename hselected log hlog
  have hlogged : Tidy dir root (logged (env.resolve w.fullLogPath) (w.logData env.mem) s) := by
    rw [hresolveLog]
    exact h.of_disk (fun path hdata => isSome_update hdata _ _)
      (h.tame.update w.filename (hold.append ⟨.inr ⟨_, rfl⟩, hnames⟩))
  cases hsyncing with
  | refused => exact h
  | notLocked =>
    rw [hresolveLog]
    unfold Process.created
    rw [create_eq_update]
    exact h.of_disk (fun path hdata => isSome_update hdata _ _) (h.tame.update w.filename hold)
  | onlyLogged => exact hlogged
  | synced =>
    rw [hresolve]
    refine hlogged.of_disk (fun path hdata => ?_) (hlogged.tame.of_logs fun name => ?_)
    · rw [isSome_writeFile]
      exact hdata
    · exact writeFile_of_ne (fullFilePath_ne_log hselected.2 name).symm _ _

theorem cleaned {entries : List Bytes} {res : ℤ} {disk : Disk}
    (hloop : cleanEntries root entries s.disk = some (res, disk)) :
    Tidy dir root { s with disk := disk } :=
  h.of_disk (fun path hpath => ((cleanEntries_keeps h.tame hloop).1 path).trans hpath)
    (h.tame.cleanEntries hloop)

theorem step (disk : Disk) {l : Label} (hl : cleanable dir root s l)
    (hstep : (system disk).step s l = some s') : Tidy dir root s' := by
  cases step_effect hstep with
  | nothing => exact h
  | init mapping =>
    exact { h with
      gtfs := List.forall_mem_append.mpr ⟨h.gtfs, List.forall_mem_singleton.mpr hl⟩ }
  | openFile hdirname hopening =>
    obtain rfl := h.gtfs _ hdirname
    obtain ⟨hroot, hname, hselected⟩ := hl
    exact h.opening hroot hname hselected hopening
  | closeFile hfile => exact h.setFile hfile rfl
  | writeFile hdirname hfile =>
    obtain rfl := h.gtfs _ hdirname
    exact h.addWrite _ (h.files _ (List.mem_of_getElem? hfile)) _ _ _
  | syncWriteFile hw hsyncing =>
    exact h.syncing hl.1 (List.mem_of_getElem? hw) (hl.2 _ hw) hsyncing
  | abortWriteFile => exact h.of_logs
  | clean hdirname hloop =>
    obtain rfl := h.gtfs _ hdirname
    rw [show _ = root from hl] at hloop
    exact (h.cleaned hloop).of_logs
  -- no steps of these runs
  | removeFile | others => exact absurd hl id

end Step

end Tidy

/-- The directory is listed completely. -/
def Lists (root : Bytes) (entries : List Bytes) (disk : Disk) : Prop :=
  ∀ name, IsFileName name → (disk (fullFilePath root name)).isSome → name ∈ entries

/-- **A clean empties the logs.** In a run in one directory in which the names of the opened files
contain `.txt` and not `.log` and no record has a line that names a log, and which does not start
with logs that name logs: after a `gtfs_clean` that returns 0, in whatever order the directory is
listed, the log of every opened file is empty. -/
theorem clean_empties_logs (dir root : Bytes) (disk : Disk) (s s' : Process) (env : Env)
    (gtfs : Option ℕ) (hdisk : TameLogs root disk)
    (hr : (system disk).Reachable (cleanable dir root) s) (hroot : env.root dir = root)
    (hlists : Lists root env.entries s.disk)
    (hclean : gtfsClean env gtfs s = some (0, s')) :
    ∀ name, (s.filenameFileMapping name).isSome → s'.disk (fullLogPath root name) = some [] := by
  have hinit : Tidy dir root (fresh disk) :=
    { gtfs := fun d hd => absurd hd List.not_mem_nil
      files := fun file hfile => absurd hfile List.not_mem_nil
      writes := fun w hw => absurd hw List.not_mem_nil
      writesIn := fun w hw => absurd hw List.not_mem_nil
      opened := fun name hname => absurd hname (by simp [fresh])
      tame := hdisk }
  have h : Tidy dir root s := hr.invariant hinit fun _ _ _ _ h hl hstep => h.step disk hl hstep
  intro name hname
  obtain ⟨hfile, hselected, hdata⟩ := h.opened name hname
  -- a clean that returns 0 has gone through the whole directory
  rcases gtfsClean_cases hclean with
    ⟨hfails, -⟩ | ⟨i, dirname, res, disk', -, hdirname, hloop, ⟨hfails, -⟩ | ⟨hres, rfl⟩⟩
  · exact absurd hfails (by decide)
  · exact absurd hfails (by decide)
  · obtain rfl := h.gtfs dirname (List.mem_of_getElem? hdirname)
    rw [hroot] at hloop
    exact cleanEntries_empties h.tame hloop hres name (hlists name hfile hdata) hselected

/-- A clean comes to its end only if every selected entry has a log. -/
theorem clean_needs_logs {dir name : Bytes} {s s' : Process} {env : Env} {g : ℕ}
    (htame : TameLogs (env.root dir) s.disk) (hg : s.gtfs[g]? = some dir)
    (hname : name ∈ env.entries) (hselected : Selected name)
    (hclean : gtfsClean env (some g) s = some (0, s')) :
    (s.disk (fullLogPath (env.root dir) name)).isSome := by
  rcases gtfsClean_cases hclean with
    ⟨hfails, -⟩ | ⟨i, dirname, res, disk', hi, hdirname, hloop, ⟨hfails, -⟩ | ⟨hres, -⟩⟩
  · exact absurd hfails (by decide)
  · exact absurd hfails (by decide)
  · obtain rfl := Option.some.inj hi
    obtain rfl := Option.some.inj (hg.symm.trans hdirname)
    -- it is there and empty afterwards, and the loop makes no file
    rw [← (cleanEntries_keeps htame hloop).1, cleanEntries_empties htame hloop hres name hname
      hselected]
    rfl

/-! ### Two names -/

/-- The environment of the runs: the directory is `/d`, and client memory has an `x` everywhere. -/
def listedEnv (entries : List Bytes) : Env :=
  { Env.quiet (ascii "/d") (fun _ => ascii "x") with entries := entries }

/-- A file is opened, and an `x` is written to its front and synced. -/
def syncedRun (name : Bytes) : List Label :=
  [.init (listedEnv []) (ascii "/d"), .openFile (listedEnv []) (some 0) name 10,
    .writeFile (some 0) (some 0) 0 1 0, .syncWriteFile (listedEnv []) (some 0)]

/-- The disk after the run for `a.txt`. -/
def syncedDisk : Disk :=
  Function.update (Function.update (Function.update (Function.update (fun _ => none)
    (fullFilePath (ascii "/d") (ascii "a.txt")) (some []))
    (fullFilePath (ascii "/d") (ascii "a.txt.log")) (some []))
    (fullFilePath (ascii "/d") (ascii "a.txt.log")) (some (ascii "a.txt|0|1|x\n")))
    (fullFilePath (ascii "/d") (ascii "a.txt")) (some (ascii "x"))

theorem lists_syncedDisk : Lists (ascii "/d") [ascii "a.txt.log", ascii "a.txt"] syncedDisk := by
  intro name _ hdata
  by_contra hnot
  rw [List.mem_cons, List.mem_singleton, not_or] at hnot
  simp [syncedDisk, fullFilePath_inj, hnot] at hdata

/-- The log of `a.txt` has a record before the clean and is empty after it. -/
theorem clean_empties_logs_txt :
    ∃ s s', (system fun _ => none).Reachable (cleanable (ascii "/d") (ascii "/d")) s ∧
      gtfsClean (listedEnv [ascii "a.txt.log", ascii "a.txt"]) (some 0) s = some (0, s') ∧
      s.disk (fullLogPath (ascii "/d") (ascii "a.txt")) = some (ascii "a.txt|0|1|x\n") ∧
      s'.disk (fullLogPath (ascii "/d") (ascii "a.txt")) = some [] := by
  obtain ⟨s, hrun, hdisk, hopened, s', hclean⟩ : ∃ s, (system fun _ => none).guardedRun
      (cleanable (ascii "/d") (ascii "/d")) (system fun _ => none).init
      (syncedRun (ascii "a.txt")) = some s ∧ s.disk = syncedDisk ∧
      (s.filenameFileMapping (ascii "a.txt")).isSome ∧
      ∃ s', gtfsClean (listedEnv [ascii "a.txt.log", ascii "a.txt"]) (some 0) s = some (0, s') :=
    ⟨_, rfl, rfl, rfl, _, rfl⟩
  have hr := System.Reachable.of_guardedRun .init hrun
  have hempty := clean_empties_logs (ascii "/d") (ascii "/d") (fun _ => none) s s'
    (listedEnv [ascii "a.txt.log", ascii "a.txt"]) (some 0)
    (fun _ _ _ hlog => absurd hlog (by simp))
    hr rfl (hdisk ▸ lists_syncedDisk) hclean (ascii "a.txt") hopened
  exact ⟨s, s', hr, hclean, hdisk ▸ rfl, hempty⟩

/-- The name `a` does not contain `.txt`: the clean returns 0, and the record stays in the log. -/
theorem clean_skips_other_names :
    ∃ s, (system fun _ => none).Reachable System.anyStep s ∧
      (s.filenameFileMapping (ascii "a")).isSome ∧
      (gtfsClean (listedEnv [ascii "a", ascii "a.log"]) (some 0) s).map
        (fun r => (r.1, r.2.disk (fullLogPath (ascii "/d") (ascii "a")))) =
          some (0, some (ascii "a|0|1|x\n")) := by
  have hrun : ((system fun _ => none).guardedRun System.anyStep (system fun _ => none).init
      (syncedRun (ascii "a"))).any (fun s => decide ((s.filenameFileMapping (ascii "a")).isSome ∧
        (gtfsClean (listedEnv [ascii "a", ascii "a.log"]) (some 0) s).map
          (fun r => (r.1, r.2.disk (fullLogPath (ascii "/d") (ascii "a")))) =
            some (0, some (ascii "a|0|1|x\n")))) = true := by
    decide +kernel
  obtain ⟨s, hr, hs⟩ := System.Reachable.of_any hrun
  exact ⟨s, hr, of_decide_eq_true hs⟩

end Clean
end GTFS
end OSLab
