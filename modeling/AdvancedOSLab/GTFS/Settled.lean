import AdvancedOSLab.GTFS.Clean
import AdvancedOSLab.GTFS.Recovery

/-!
# A clean that changes no data

In a process that does not crash every record of a log has been written to the data file right after
it was appended. So a replay writes what is there already: the log of a file holds writes `ps`, and
the data file is `applyAll ps base` for the contents `base` that the file had when the log was last
empty (`Applied`). Overlaying `ps` once more has no effect, by `Patch.applyAll_absorb`.

`SettledLogs` says this of every log that `gtfs_clean` replays. The calls of the API keep it
(`Steady.step`): a sync appends its write to `ps`, and the other calls leave a log alone, empty it
or remove it together with its file. `clean_changes_no_data` follows, for every order of the
directory, since the replay of one log leaves all other files as they are. That no log is left over
is a second invariant, `LogsListed`: a log is made for a file of the tables, and goes with it.

The records of a log are read back by their fields, so the name of the file must contain neither `|`
nor a newline. With such a name `gtfs_clean` has no result: `stoi` throws on a part of the name
(`clean_throws_on_name`). And it must be short enough for a log, whose name is four bytes longer: a
file whose log could not be created is one at which `gtfs_clean` gives up (`clean_needs_logs`).
-/

namespace OSLab
namespace GTFS
namespace Settled

open Text Bytes Process Separation Clean

/-! ### Logs that have been applied -/

/-- The log of the file holds writes to the file, and the contents are what these writes have made
of some earlier contents. -/
structure Applied (root name log content : Bytes) : Prop where
  wholeLines : WholeLines log
  applied : ∃ ps base, (logLines log).map (lineWrite root) =
      ps.map (fun p => some (fullFilePath root name, p)) ∧ content = Patch.applyAll 0 ps base

/-- The logs that `gtfs_clean` replays have been applied. -/
def SettledLogs (root : Bytes) (disk : Disk) : Prop :=
  ∀ name, Selected name → ∀ log, disk (fullLogPath root name) = some log →
    Applied root name log ((disk (fullFilePath root name)).getD [])

section Logs

variable {root name log content : Bytes} {disk disk' : Disk}

theorem Applied.nil (root name content : Bytes) : Applied root name [] content :=
  ⟨.inl rfl, [], content, rfl, rfl⟩

/-- A replay of a log that has been applied does nothing. -/
theorem Applied.replay (h : Applied root name log content)
    (hcontent : disk (fullFilePath root name) = some content) :
    replay root (logLines log) disk = some disk := by
  obtain ⟨ps, base, hlines, rfl⟩ := h.applied
  have hredo : Patch.applyAll 0 ps (Patch.applyAll 0 ps base) = Patch.applyAll 0 ps base :=
    Patch.applyAll_absorb 0 (fun p hp => ⟨p, hp, Patch.PrefixOf.refl p⟩) base
  rw [Recovery.replay_of_map hlines hcontent, hredo, ← hcontent, Function.update_eq_self]

/-- A record is appended and its write made. -/
theorem Applied.append {mem : ℕ → Bytes} {w : Write} (h : Applied root w.filename log content)
    (hw : Decodable mem w) :
    Applied root w.filename (log ++ logRecord mem w) ((w.patch mem).apply 0 content) := by
  obtain ⟨ps, base, hlines, rfl⟩ := h.applied
  refine ⟨h.wholeLines.append (.inr ⟨_, rfl⟩), ps ++ [w.patch mem], base,
    h.wholeLines.map_lineWrite_append hlines hw, ?_⟩
  rw [Patch.applyAll_snoc]

/-- The lines of an applied log name the file, so they name no log. -/
theorem Applied.tame (h : Applied root name log content) (hname : Selected name) : Tame log := by
  refine ⟨h.wholeLines, fun r hr => ?_⟩
  obtain ⟨line, hline, hdecode⟩ := List.mem_filterMap.mp hr
  obtain ⟨ps, base, hlines, -⟩ := h.applied
  have hmem : lineWrite root line ∈ ps.map (fun p => some (fullFilePath root name, p)) :=
    hlines ▸ List.mem_map_of_mem hline
  obtain ⟨p, -, hp⟩ := List.mem_map.mp hmem
  obtain ⟨r', hr', -, hpath⟩ := lineWrite_eq_some hp.symm
  obtain rfl := Option.some.inj (hdecode.symm.trans hr')
  exact fullFilePath_inj.mp hpath ▸ hname.2

theorem SettledLogs.tameLogs (h : SettledLogs root disk) : TameLogs root disk :=
  fun name hname log hlog => (h name hname log hlog).tame hname

/-- The disks differ in the file and its log only. -/
def Touches (root name : Bytes) (disk disk' : Disk) : Prop :=
  ∀ path, path ≠ fullFilePath root name → path ≠ fullLogPath root name → disk' path = disk path

theorem Touches.data_eq (h : Touches root name disk disk') {name' : Bytes}
    (hname' : Selected name') (hne : name' ≠ name) :
    disk' (fullFilePath root name') = disk (fullFilePath root name') :=
  h _ (fun heq => hne (fullFilePath_inj.mp heq)) (fullFilePath_ne_log hname'.2 name)

theorem Touches.log_eq (h : Touches root name disk disk') (hname : Selected name) {name' : Bytes}
    (hne : name' ≠ name) : disk' (fullLogPath root name') = disk (fullLogPath root name') :=
  h _ (fullFilePath_ne_log hname.2 name').symm fun heq => hne (fullLogPath_inj.mp heq)

/-- A change of one file and its log, after which that log is applied. -/
theorem SettledLogs.touch (h : SettledLogs root disk) (hname : Selected name)
    (htouch : Touches root name disk disk')
    (happlied : ∀ log, disk' (fullLogPath root name) = some log →
      Applied root name log ((disk' (fullFilePath root name)).getD [])) :
    SettledLogs root disk' := by
  intro name' hname' log hlog
  by_cases hne : name' = name
  · subst hne
    exact happlied log hlog
  · rw [htouch.data_eq hname' hne]
    exact h name' hname' log (htouch.log_eq hname hne ▸ hlog)

theorem SettledLogs.truncate (h : SettledLogs root disk) (hname : Selected name) :
    SettledLogs root (Function.update disk (fullLogPath root name) (some [])) := by
  refine h.touch hname (fun path _ hlog => Function.update_of_ne hlog _ _) fun log hlog => ?_
  rw [Function.update_self] at hlog
  exact Option.some.inj hlog ▸ Applied.nil root name _

/-- `sync_log_to_file` of a settled log changes nothing. -/
theorem SettledLogs.syncLogToFile (h : SettledLogs root disk) (hname : Selected name) :
    GTFS.syncLogToFile root (fullFilePath root name) (fullLogPath root name) disk =
      some (if (disk (fullFilePath root name)).isSome ∧ (disk (fullLogPath root name)).isSome
        then 0 else -1, disk) := by
  unfold GTFS.syncLogToFile
  cases hcontent : disk (fullFilePath root name) with
  | none => rfl
  | some content =>
    cases hlog : disk (fullLogPath root name) with
    | none => rfl
    | some log =>
      have happlied := h name hname log hlog
      rw [hcontent] at happlied
      dsimp only
      rw [happlied.replay hcontent]
      rfl

/-- The loop of `gtfs_clean` over settled logs leaves every file that is no log as it is. It comes
to its end if the selected entries are files with logs. -/
theorem SettledLogs.cleanEntries (h : SettledLogs root disk) (entries : List Bytes) :
    ∃ res disk', Process.cleanEntries root entries disk = some (res, disk') ∧
      (∀ name, ¬ IsLogName name →
        disk' (fullFilePath root name) = disk (fullFilePath root name)) ∧
      ((∀ name ∈ entries, Selected name → (disk (fullFilePath root name)).isSome ∧
        (disk (fullLogPath root name)).isSome) → res ≠ -1) := by
  induction entries generalizing disk with
  | nil => exact ⟨0, disk, rfl, fun _ _ => rfl, fun _ => by decide⟩
  | cons entry entries ih =>
    by_cases hselected : Selected entry
    · -- the replay does nothing, so all that changes is that the log is truncated
      rw [cleanEntries_of_selected hselected, h.syncLogToFile hselected, Option.bind_some]
      by_cases hfiles : (disk (fullFilePath root entry)).isSome ∧
          (disk (fullLogPath root entry)).isSome
      · rw [if_pos hfiles]
        dsimp only
        rw [if_neg (by decide)]
        obtain ⟨res, disk', hloop, hdata, hend⟩ := ih (h.truncate hselected)
        refine ⟨res, disk', hloop, fun name hname => ?_, fun hall => hend fun name hname hsel => ?_⟩
        · rw [hdata name hname, Function.update_of_ne (fullFilePath_ne_log hname entry)]
        · obtain ⟨hcontent, hlog⟩ := hall name (List.mem_cons_of_mem entry hname) hsel
          exact ⟨isSome_update hcontent _ _, isSome_update hlog _ _⟩
      · -- the file or its log is missing, and the loop ends here
        rw [if_neg hfiles, if_pos rfl]
        exact ⟨-1, disk, rfl, fun _ _ => rfl, fun hall =>
          absurd (hall entry List.mem_cons_self hselected) hfiles⟩
    · rw [cleanEntries_of_not_selected hselected]
      obtain ⟨res, disk', hloop, hdata, hend⟩ := ih h
      exact ⟨res, disk', hloop, hdata, fun hall =>
        hend fun name hname => hall name (List.mem_cons_of_mem entry hname)⟩

end Logs

/-! ### Runs -/

/-- The checked system calls of a sync succeed. -/
structure Works (env : Env) : Prop where
  openFails : env.openFails = false
  lockFails : env.lockFails = false
  openDataFails : env.openDataFails = false
  lockDataFails : env.lockDataFails = false
  writeFails : env.writeFails = false

/-- The steps of the runs: one process in one directory, whose logs can be created and removed and
whose syncs succeed. The opened names are selected, and every synced write is decodable and belongs
to a file of the tables. -/
def ordinary (dir root : Bytes) (s : Process) : Label → Prop
  | .init _ directory => directory = dir
  | .openFile env _ filename _ => env.root dir = root ∧ env.createLogFails = false ∧
      IsFileName filename ∧ Selected filename
  | .removeFile env _ _ => env.root dir = root ∧ env.removeLogFails = false
  | .syncWriteFile env writeId => Works env ∧ env.root dir = root ∧
      ∀ i, writeId = some i → ∃ w, s.writes[i]? = some (.ofWrite dir w) ∧ Decodable env.mem w ∧
        (s.filenameFileMapping w.filename).isSome
  | .clean env _ => env.root dir = root
  | .closeFile .. | .writeFile .. | .abortWriteFile .. => True
  | .others .. => False

/-- What the steps keep: the files of the tables are there, with their logs, and the logs have been
applied. -/
structure Steady (dir root : Bytes) (s : Process) : Prop where
  gtfs : ∀ d ∈ s.gtfs, d = dir
  files : ∀ file ∈ s.files, Selected file.filename
  opened : ∀ name, (s.filenameFileMapping name).isSome → IsFileName name ∧ Selected name ∧
    (s.disk (fullFilePath root name)).isSome ∧ (s.disk (fullLogPath root name)).isSome
  settled : SettledLogs root s.disk

namespace Steady

section Step

variable {dir root name : Bytes} {env : Env} {s s' : Process} (h : Steady dir root s)

include h

/-- A change of one file and its log, which both stay there if the file is in the tables. -/
theorem touch_of_listed {disk : Disk} (hname : Selected name)
    (htouch : Touches root name s.disk disk)
    (hlisted : (s.filenameFileMapping name).isSome → (disk (fullFilePath root name)).isSome ∧
      ((s.disk (fullLogPath root name)).isSome → (disk (fullLogPath root name)).isSome))
    (happlied : ∀ log, disk (fullLogPath root name) = some log →
      Applied root name log ((disk (fullFilePath root name)).getD [])) :
    Steady dir root { s with disk := disk } := by
  refine { h with
    opened := fun name' hname' => ?_
    settled := h.settled.touch hname htouch happlied }
  obtain ⟨hfile, hselected, hdata, hlog⟩ := h.opened name' hname'
  by_cases hne : name' = name
  · subst hne
    obtain ⟨hdata', hlog'⟩ := hlisted hname'
    exact ⟨hfile, hselected, hdata', hlog' hlog⟩
  · -- the other files and their logs are not touched
    exact ⟨hfile, hselected, (congrArg Option.isSome (htouch.data_eq hselected hne)).trans hdata,
      (congrArg Option.isSome (htouch.log_eq hname hne)).trans hlog⟩

/-- A change of one file and its log, which both stay there. -/
theorem touch {disk : Disk} (hname : Selected name) (htouch : Touches root name s.disk disk)
    (hdata : (disk (fullFilePath root name)).isSome)
    (hlog : (s.disk (fullLogPath root name)).isSome → (disk (fullLogPath root name)).isSome)
    (happlied : ∀ log, disk (fullLogPath root name) = some log →
      Applied root name log ((disk (fullFilePath root name)).getD [])) :
    Steady dir root { s with disk := disk } :=
  h.touch_of_listed hname htouch (fun _ => ⟨hdata, hlog⟩) happlied

/-- A change of a file that is not in the tables, and its log. -/
theorem unlisted {disk : Disk} (hname : Selected name) (hnone : s.filenameFileMapping name = none)
    (htouch : Touches root name s.disk disk)
    (happlied : ∀ log, disk (fullLogPath root name) = some log →
      Applied root name log ((disk (fullFilePath root name)).getD [])) :
    Steady dir root { s with disk := disk } :=
  h.touch_of_listed hname htouch (fun hsome => absurd hsome (by simp [hnone])) happlied

theorem forgotten (dirname name : Bytes) : Steady dir root (forget dirname name s) := by
  refine { h with opened := fun name' hname' => h.opened name' ?_ }
  by_cases hne : name' = name
  · subst hne
    rw [show (forget dirname name' s).filenameFileMapping name' = none from
      Function.update_self ..] at hname'
    exact absurd hname' (by simp)
  · rwa [show (forget dirname name s).filenameFileMapping name' = s.filenameFileMapping name' from
      Function.update_of_ne hne _ _] at hname'

theorem of_logs {logs : Bytes → Option (List ℕ)} :
    Steady dir root { s with fileLogUpdatesMapping := logs } :=
  { h with }

theorem setFile {i : ℕ} {file file' : FileT} (hfile : s.files[i]? = some file)
    (hfilename : file'.filename = file.filename) :
    Steady dir root { s with files := s.files.set i file' } := by
  refine { h with files := fun file'' hfile'' => ?_ }
  rcases List.mem_or_eq_of_mem_set hfile'' with hold | rfl
  · exact h.files file'' hold
  · exact hfilename ▸ h.files file (List.mem_of_getElem? hfile)

theorem created (hname : Selected name) :
    Steady dir root (created (fullFilePath root name) s) := by
  refine h.touch hname (fun path hpath _ => create_of_ne hpath _) (isSome_create_self _ _)
    (fun hlog => ?_) fun log hlog => ?_
  · rw [create_of_ne (fullLogPath_ne root name)]
    exact hlog
  · rw [create_of_ne (fullLogPath_ne root name)] at hlog
    rw [create_self]
    exact h.settled name hname log hlog

theorem record (hfile : IsFileName name) (hname : Selected name)
    (hdata : (s.disk (fullFilePath root name)).isSome)
    (hlog : (s.disk (fullLogPath root name)).isSome) (fileLength : ℤ) :
    Steady dir root (record dir name fileLength s) := by
  refine { h with files := fun file hfile => ?_, opened := fun name' hname' => ?_ }
  · rcases List.mem_append.mp hfile with hold | hnew
    · exact h.files file hold
    · exact List.mem_singleton.mp hnew ▸ hname
  · by_cases hne : name' = name
    · subst hne
      exact ⟨hfile, hname, hdata, hlog⟩
    · refine h.opened name' ?_
      have hother := Function.update_of_ne hne (some s.files.length) s.filenameFileMapping
      exact hother ▸ hname'

/-- The log of a file that is there is truncated, or created. -/
theorem truncated (hname : Selected name) (hdata : (s.disk (fullFilePath root name)).isSome) :
    Steady dir root
      { s with disk := Function.update s.disk (fullLogPath root name) (some []) } := by
  refine h.touch hname (fun path _ hpath => Function.update_of_ne hpath _ _)
    (isSome_update hdata _ _) (fun hlog => isSome_update hlog _ _) fun log hlog => ?_
  rw [Function.update_self] at hlog
  exact Option.some.inj hlog ▸ Applied.nil root name _

/-- The recovery of a file finds nothing to do. -/
theorem recovered_disk {bare : Bytes} {disk : Disk} (hname : Selected name)
    (hdata : (s.disk (fullFilePath root name)).isSome)
    (hrecovered : Recovered root bare (fullLogPath root name) s.disk disk) : disk = s.disk := by
  cases hrecovered with
  | noLog => rfl
  | redone hlog hbare hreplay =>
    obtain ⟨content, hcontent⟩ := Option.isSome_iff_exists.mp hdata
    have happlied := h.settled name hname _ hlog
    rw [hcontent] at happlied
    exact Option.some.inj (hreplay.symm.trans (happlied.replay hcontent))

theorem opening {fileLength : ℤ} {res : Option ℕ} (hroot : env.root dir = root)
    (hcreates : env.createLogFails = false) (hfile : IsFileName name) (hname : Selected name)
    (hopening : Opening env dir name fileLength s res s') : Steady dir root s' := by
  subst hroot
  have hcreated := h.created hname
  have hdata : ((Process.created (fullFilePath (env.root dir) name) s).disk
      (fullFilePath (env.root dir) name)).isSome := isSome_create_self _ _
  cases hopening with
  | refused => exact h
  | notLocked | tooShort => exact hcreated
  | known hopened hknown hfile => exact hcreated.setFile hfile rfl
  | notRecovered hopened hlock hnew hlog =>
    -- the file is in the tables now, but it failed on a log that is there
    refine hcreated.record hfile hname hdata ?_ fileLength
    rw [created_disk, create_of_ne (fullLogPath_ne _ _)]
    exact hlog
  | recovered hopened hnew hrecovered =>
    obtain rfl := hcreated.recovered_disk hname hdata hrecovered
    have hlog : (Function.update (Process.created (fullFilePath (env.root dir) name) s).disk
        (fullLogPath (env.root dir) name) (some []) (fullLogPath (env.root dir) name)).isSome := by
      rw [Function.update_self]
      rfl
    rw [clearLog_eq hcreates]
    exact ((hcreated.truncated hname hdata).record hfile hname (isSome_update hdata _ _) hlog
      fileLength).of_logs

/-- A file of the tables has a log, so it is removed together with it. -/
theorem removal {file : FileT} {ret : ℤ} (hroot : env.root dir = root)
    (hremoves : env.removeLogFails = false) (hfile : file ∈ s.files)
    (hremoval : Removal env dir file s ret s') : Steady dir root s' := by
  have hname := h.files file hfile
  subst hroot
  cases hremoval with
  | refused => exact h
  | logStays hremoved hlog =>
    have hnone : s.disk (fullLogPath (env.root dir) file.filename) = none := by
      rw [hremoves] at hlog
      simpa using hlog
    refine h.unlisted hname ?_ (fun path hpath _ => Function.update_of_ne hpath _ _)
      fun log hlog => ?_
    · -- a file of the tables would have a log
      by_contra hlisted
      have hlog := (h.opened _ (Option.isSome_iff_ne_none.mpr hlisted)).2.2.2
      rw [hnone] at hlog
      exact absurd hlog (by simp)
    · rw [Function.update_of_ne (fullLogPath_ne _ _), hnone] at hlog
      exact absurd hlog (by simp)
  | removed =>
    -- the entry goes first, so that nothing is asked of the file and the log any more
    refine (h.forgotten dir file.filename).unlisted hname (Function.update_self ..)
      (fun path hpath hlogPath => ?_) fun log hlog => ?_
    · exact (Function.update_of_ne hlogPath _ _).trans (Function.update_of_ne hpath _ _)
    · exact absurd ((Function.update_self ..).symm.trans hlog) (by simp)

/-- A decodable write to a file of the tables is logged and made. -/
theorem syncing {w : Write} {ret : ℤ} (hworks : Works env) (hroot : env.root dir = root)
    (hdec : Decodable env.mem w) (hopened : (s.filenameFileMapping w.filename).isSome)
    (hsyncing : Syncing env (.ofWrite dir w) s ret s') : Steady dir root s' := by
  obtain ⟨-, hname, hdata, hlog⟩ := h.opened w.filename hopened
  obtain ⟨content, hcontent⟩ := Option.isSome_iff_exists.mp hdata
  obtain ⟨log, hlog⟩ := Option.isSome_iff_exists.mp hlog
  obtain ⟨hresolve, hresolveLog⟩ : _ = fullFilePath root w.filename ∧
      _ = fullLogPath root w.filename := resolve_paths (w := .ofWrite dir w) rfl rfl hroot
  have hlogged : (logged (env.resolve (WriteT.ofWrite dir w).fullLogPath)
      ((WriteT.ofWrite dir w).logData env.mem) s).disk = Function.update s.disk
        (fullLogPath root w.filename) (some (log ++ logRecord env.mem w)) := by
    rw [logged_disk, hresolveLog, hlog, WriteT.logData_ofWrite, Option.getD_some]
  have hcontent' : Function.update s.disk (fullLogPath root w.filename)
      (some (log ++ logRecord env.mem w)) (fullFilePath root w.filename) = some content := by
    rw [Function.update_of_ne (fullLogPath_ne root w.filename).symm, hcontent]
  cases hsyncing with
  | refused hopen => exact absurd (hworks.openFails.symm.trans hopen) (by simp)
  | notLocked hlock => exact absurd (hworks.lockFails.symm.trans hlock) (by simp)
  | onlyLogged hdata =>
    -- the file is there, and none of the system calls behind the log fails
    unfold NotWritten at hdata
    rw [hlogged, hresolve, hcontent', hworks.openDataFails, hworks.lockDataFails,
      hworks.writeFails] at hdata
    exact absurd hdata (by simp)
  | synced =>
    -- the log and the contents grow by the same write
    rw [hlogged, hresolve]
    have hpatch : syncPatch env.mem (.ofWrite dir w) = w.patch env.mem := rfl
    rw [hpatch]
    refine h.touch hname (fun path hpath hlogPath => ?_) ?_ (fun _ => ?_) fun log' hlog' => ?_
    · rw [writeFile_of_ne hpath, Function.update_of_ne hlogPath]
    · rw [writeFile_self hcontent']
      rfl
    · rw [isSome_writeFile, Function.update_self]
      rfl
    · rw [writeFile_of_ne (fullLogPath_ne root w.filename), Function.update_self] at hlog'
      obtain rfl := Option.some.inj hlog'
      have happlied := h.settled w.filename hname log hlog
      rw [hcontent] at happlied
      rw [writeFile_self hcontent']
      exact happlied.append hdec

/-- The loop of `gtfs_clean` changes logs only, and the ones it changes are empty. -/
theorem cleaned {entries : List Bytes} {res : ℤ} {disk : Disk}
    (hloop : cleanEntries root entries s.disk = some (res, disk)) :
    Steady dir root { s with disk := disk } := by
  obtain ⟨hkept, hlogs⟩ := cleanEntries_keeps h.settled.tameLogs hloop
  obtain ⟨res', disk', hloop', hdata, -⟩ := h.settled.cleanEntries entries
  obtain ⟨-, rfl⟩ := Prod.mk.inj (Option.some.inj (hloop.symm.trans hloop'))
  refine { h with opened := fun name hname => ?_, settled := fun name hname log hlog => ?_ }
  · obtain ⟨hfile, hselected, hcontent, hlog⟩ := h.opened name hname
    exact ⟨hfile, hselected, (hkept _).trans hcontent, (hkept _).trans hlog⟩
  · show Applied root name log ((disk (fullFilePath root name)).getD [])
    rw [hdata name hname.2]
    rcases hlogs name with hsame | hempty
    · exact h.settled name hname log (hsame.symm.trans hlog)
    · obtain rfl := Option.some.inj (hempty.symm.trans hlog)
      exact Applied.nil root name _

theorem step (disk : Disk) {l : Label} (hl : ordinary dir root s l)
    (hstep : (system disk).step s l = some s') : Steady dir root s' := by
  cases step_effect hstep with
  | nothing => exact h
  | init mapping =>
    exact { h with
      gtfs := List.forall_mem_append.mpr ⟨h.gtfs, List.forall_mem_singleton.mpr hl⟩ }
  | openFile hdirname hopening =>
    obtain rfl := h.gtfs _ hdirname
    obtain ⟨hroot, hcreates, hfile, hname⟩ := hl
    exact h.opening hroot hcreates hfile hname hopening
  | closeFile hfile => exact h.setFile hfile rfl
  | removeFile hdirname hfile hremoval =>
    obtain rfl := h.gtfs _ hdirname
    exact h.removal hl.1 hl.2 (List.mem_of_getElem? hfile) hremoval
  | writeFile => exact { h with }
  | syncWriteFile hw hsyncing =>
    obtain ⟨hworks, hroot, hwrite⟩ := hl
    obtain ⟨w, hw', hdec, hopened⟩ := hwrite _ rfl
    obtain rfl := Option.some.inj (hw.symm.trans hw')
    exact h.syncing hworks hroot hdec hopened hsyncing
  | abortWriteFile => exact h.of_logs
  | clean hdirname hloop =>
    -- a clean that stops early has emptied some logs, which is as good
    obtain rfl := h.gtfs _ hdirname
    rw [show _ = root from hl] at hloop
    exact (h.cleaned hloop).of_logs
  | others => exact absurd hl id

end Step

theorem of_reachable {dir root : Bytes} {disk : Disk} {s : Process} (hdisk : SettledLogs root disk)
    (hr : (system disk).Reachable (ordinary dir root) s) : Steady dir root s := by
  have hinit : Steady dir root (fresh disk) :=
    { gtfs := fun d hd => absurd hd List.not_mem_nil
      files := fun file hfile => absurd hfile List.not_mem_nil
      opened := fun name hname => absurd hname (by simp [fresh])
      settled := hdisk }
  exact hr.invariant hinit fun _ _ _ _ h hl hstep => h.step disk hl hstep

end Steady

/-! ### Where the logs come from -/

/-- Every log belongs to a file of the tables, or it is on the disk at the start. -/
def LogsListed (root : Bytes) (disk : Disk) (s : Process) : Prop :=
  ∀ name, (s.disk (fullLogPath root name)).isSome →
    (s.filenameFileMapping name).isSome ∨ (disk (fullLogPath root name)).isSome

section LogsListed

variable {dir root name : Bytes} {disk : Disk} {env : Env} {s s' : Process}

/-- The tables and the logs of the other files are as before. -/
theorem LogsListed.at_name (hlogs : LogsListed root disk s)
    (hother : ∀ name', name' ≠ name → s'.filenameFileMapping name' = s.filenameFileMapping name' ∧
      s'.disk (fullLogPath root name') = s.disk (fullLogPath root name'))
    (hself : (s'.disk (fullLogPath root name)).isSome →
      (s'.filenameFileMapping name).isSome ∨ (disk (fullLogPath root name)).isSome) :
    LogsListed root disk s' := by
  intro name' hlog
  by_cases hne : name' = name
  · subst hne
    exact hself hlog
  · obtain ⟨hmapping, hdisk⟩ := hother name' hne
    rw [hmapping]
    exact hlogs name' (hdisk ▸ hlog)

theorem LogsListed.created (hlogs : LogsListed root disk s) (hname : Selected name) :
    LogsListed root disk (created (fullFilePath root name) s) := by
  intro name' hlog
  rw [created_disk, create_of_ne (fullFilePath_ne_log hname.2 name').symm] at hlog
  exact hlogs name' hlog

theorem LogsListed.opening (h : Steady dir root s) (hlogs : LogsListed root disk s)
    {fileLength : ℤ} {res : Option ℕ} (hroot : env.root dir = root) (hname : Selected name)
    (hopening : Opening env dir name fileLength s res s') : LogsListed root disk s' := by
  subst hroot
  have hcreated := hlogs.created hname
  -- the file is in the table from here on
  have hentry :
      (Function.update s.filenameFileMapping name (some s.files.length) name).isSome := by
    rw [Function.update_self]
    rfl
  cases hopening with
  | refused => exact hlogs
  | notLocked | tooShort | known => exact hcreated
  | notRecovered =>
    exact hcreated.at_name (fun name' hne => ⟨Function.update_of_ne hne _ _, rfl⟩)
      fun _ => .inl hentry
  | recovered hopened hnew hrecovered =>
    -- the log was applied before, so the replay changes nothing
    obtain rfl := (h.created hname).recovered_disk hname (isSome_create_self _ _) hrecovered
    refine hcreated.at_name (fun name' hne => ⟨Function.update_of_ne hne _ _, ?_⟩)
      fun _ => .inl hentry
    exact clearLog_disk_of_ne env (fun heq => hne (fullLogPath_inj.mp heq)) _ _

theorem LogsListed.removal (hlogs : LogsListed root disk s) {file : FileT} {ret : ℤ}
    (hroot : env.root dir = root) (hname : Selected file.filename)
    (hremoval : Removal env dir file s ret s') : LogsListed root disk s' := by
  subst hroot
  have hlog : ∀ name', Function.update s.disk (fullFilePath (env.root dir) file.filename) none
      (fullLogPath (env.root dir) name') = s.disk (fullLogPath (env.root dir) name') :=
    fun name' => Function.update_of_ne (fullFilePath_ne_log hname.2 name').symm _ _
  cases hremoval with
  | refused => exact hlogs
  | logStays => exact fun name' hlog' => hlogs name' (hlog name' ▸ hlog')
  | removed =>
    refine hlogs.at_name (fun name' hne => ⟨Function.update_of_ne hne _ _, ?_⟩) fun hself => ?_
    · exact (Function.update_of_ne (fun heq => hne (fullLogPath_inj.mp heq)) _ _).trans
        (hlog name')
    · rw [forget_disk, unlinked_disk, Function.update_self] at hself
      exact absurd hself (by simp)

theorem LogsListed.syncing (hlogs : LogsListed root disk s) {w : Write} {ret : ℤ}
    (hroot : env.root dir = root) (hname : Selected w.filename)
    (hopened : (s.filenameFileMapping w.filename).isSome)
    (hsyncing : Syncing env (.ofWrite dir w) s ret s') : LogsListed root disk s' := by
  obtain ⟨hresolve, hresolveLog⟩ : _ = fullFilePath root w.filename ∧
      _ = fullLogPath root w.filename := resolve_paths (w := .ofWrite dir w) rfl rfl hroot
  have hne_log : ∀ name', name' ≠ w.filename →
      fullLogPath root name' ≠ fullLogPath root w.filename :=
    fun name' hne heq => hne (fullLogPath_inj.mp heq)
  -- the log that may be new belongs to a file of the tables
  cases hsyncing with
  | refused => exact hlogs
  | notLocked =>
    rw [hresolveLog]
    exact hlogs.at_name (fun name' hne => ⟨rfl, create_of_ne (hne_log name' hne) _⟩)
      fun _ => .inl hopened
  | onlyLogged =>
    rw [hresolveLog]
    exact hlogs.at_name (fun name' hne => ⟨rfl, Function.update_of_ne (hne_log name' hne) _ _⟩)
      fun _ => .inl hopened
  | synced =>
    rw [hresolveLog, hresolve]
    refine hlogs.at_name (fun name' hne => ⟨rfl, ?_⟩) fun _ => .inl hopened
    exact (writeFile_of_ne (fullFilePath_ne_log hname.2 name').symm _ _).trans
      (Function.update_of_ne (hne_log name' hne) _ _)

theorem LogsListed.step (h : Steady dir root s) (hlogs : LogsListed root disk s) {l : Label}
    (hl : ordinary dir root s l) (hstep : (system disk).step s l = some s') :
    LogsListed root disk s' := by
  cases step_effect hstep with
  | nothing | init | closeFile | writeFile | abortWriteFile => exact hlogs
  | openFile hdirname hopening =>
    obtain rfl := h.gtfs _ hdirname
    exact hlogs.opening h hl.1 hl.2.2.2 hopening
  | removeFile hdirname hfile hremoval =>
    obtain rfl := h.gtfs _ hdirname
    exact hlogs.removal hl.1 (h.files _ (List.mem_of_getElem? hfile)) hremoval
  | syncWriteFile hw hsyncing =>
    obtain ⟨-, hroot, hwrite⟩ := hl
    obtain ⟨w, hw', -, hopened⟩ := hwrite _ rfl
    obtain rfl := Option.some.inj (hw.symm.trans hw')
    exact hlogs.syncing hroot (h.opened _ hopened).2.1 hopened hsyncing
  | clean hdirname hloop =>
    -- the loop neither makes nor removes a file
    obtain rfl := h.gtfs _ hdirname
    rw [show _ = root from hl] at hloop
    exact fun name hlog =>
      hlogs name (((cleanEntries_keeps h.settled.tameLogs hloop).1 _).symm.trans hlog)
  | others => exact absurd hl id

theorem LogsListed.of_reachable (hdisk : SettledLogs root disk)
    (hr : (system disk).Reachable (ordinary dir root) s) : LogsListed root disk s :=
  hr.invariant (fun _ hlog => .inr hlog) fun _ _ _ hr hlogs hl hstep =>
    hlogs.step (Steady.of_reachable hdisk hr) hl hstep

end LogsListed

/-- **A clean changes no data.** Take a run of one process in one directory that starts with logs
that have been applied (or with none), whose logs can be created and removed and whose syncs
succeed, in which the opened names contain `.txt` and not `.log`, and every synced write is
decodable and belongs to a file of the tables. If the directory is listed completely and lists no
other `.txt` file, then `gtfs_clean` returns 0, leaves every data file as it is, and leaves every
log empty that belongs to a file of the tables. There is no other log, unless it was there before
the run. -/
theorem clean_changes_no_data (dir root : Bytes) (disk : Disk) (s : Process) (env : Env) (g : ℕ)
    (hdisk : SettledLogs root disk) (hr : (system disk).Reachable (ordinary dir root) s)
    (hroot : env.root dir = root) (hopendir : env.opendirFails = false)
    (hclosedir : env.closedirFails = false) (hg : g < s.gtfs.length)
    (hlists : Lists root env.entries s.disk)
    (hothers : ∀ name ∈ env.entries, Selected name → (s.filenameFileMapping name).isSome) :
    ∃ s', gtfsClean env (some g) s = some (0, s') ∧
      (∀ name, ¬ IsLogName name →
        s'.disk (fullFilePath root name) = s.disk (fullFilePath root name)) ∧
      (∀ name, (s.filenameFileMapping name).isSome →
        s'.disk (fullLogPath root name) = some []) ∧
      ∀ name, (s'.disk (fullLogPath root name)).isSome →
        (s.filenameFileMapping name).isSome ∨ (disk (fullLogPath root name)).isSome := by
  have h := Steady.of_reachable hdisk hr
  have hlogs := LogsListed.of_reachable hdisk hr
  -- the selected entries are files of the tables, so the loop comes to its end
  obtain ⟨res, disk', hloop, hdata, hend⟩ := h.settled.cleanEntries env.entries
  have hres : res ≠ -1 := hend fun name hname hselected =>
    (h.opened name (hothers name hname hselected)).2.2
  have hdirname : s.gtfs[g]? = some dir := by
    rw [List.getElem?_eq_getElem hg, h.gtfs _ (List.getElem_mem hg)]
  have hclean : gtfsClean env (some g) s =
      some (0, { s with disk := disk', fileLogUpdatesMapping := fun _ => none }) := by
    simp [gtfsClean, hdirname, hopendir, hroot, hloop, hres, hclosedir]
  refine ⟨_, hclean, hdata, fun name hname => ?_, fun name hlog => hlogs name ?_⟩
  · obtain ⟨hfile, hselected, hcontent, -⟩ := h.opened name hname
    exact cleanEntries_empties h.settled.tameLogs hloop hres name (hlists name hfile hcontent)
      hselected
  · exact ((cleanEntries_keeps h.settled.tameLogs hloop).1 _).symm.trans hlog

/-! ### Two names -/

/-- The file `a.txt` holds an `x`, and its log the record of it. -/
theorem clean_changes_no_data_txt :
    ∃ s s', (system fun _ => none).Reachable (ordinary (ascii "/d") (ascii "/d")) s ∧
      s.disk (fullLogPath (ascii "/d") (ascii "a.txt")) = some (ascii "a.txt|0|1|x\n") ∧
      gtfsClean (listedEnv [ascii "a.txt.log", ascii "a.txt"]) (some 0) s = some (0, s') ∧
      s'.disk (fullFilePath (ascii "/d") (ascii "a.txt")) = some (ascii "x") ∧
      s'.disk (fullLogPath (ascii "/d") (ascii "a.txt")) = some [] := by
  have hworks : Works (listedEnv []) := ⟨rfl, rfl, rfl, rfl, rfl⟩
  obtain ⟨s, hr, hdisk, hg, hopened⟩ : ∃ s, (system fun _ => none).Reachable
      (ordinary (ascii "/d") (ascii "/d")) s ∧ s.disk = syncedDisk ∧ 0 < s.gtfs.length ∧
      (s.filenameFileMapping (ascii "a.txt")).isSome := by
    have h₀ : (system fun _ => none).Reachable (ordinary (ascii "/d") (ascii "/d"))
        (fresh fun _ => none) := .init
    have h₁ := h₀.step (l := Label.init (listedEnv []) (ascii "/d")) rfl rfl
    have h₂ := h₁.step (l := Label.openFile (listedEnv []) (some 0) (ascii "a.txt") 10)
      ⟨rfl, rfl, by decide, by decide⟩ rfl
    have h₃ := h₂.step (l := Label.writeFile (some 0) (some 0) 0 1 0) trivial rfl
    have hwrite : Decodable (fun _ => ascii "x")
        ⟨ascii "a.txt", 0, 1, 0, by decide, by decide⟩ := by
      decide
    have h₄ := h₃.step (l := Label.syncWriteFile (listedEnv []) (some 0))
      ⟨hworks, rfl, fun i hi => Option.some.inj hi ▸ ⟨_, rfl, hwrite, rfl⟩⟩ rfl
    exact ⟨_, h₄, rfl, Nat.one_pos, rfl⟩
  -- the log is skipped for its name
  have hothers : ∀ name ∈ [ascii "a.txt.log", ascii "a.txt"], Selected name →
      (s.filenameFileMapping name).isSome := by
    intro name hname hselected
    rcases List.mem_cons.mp hname with rfl | hname
    · exact absurd hselected (by decide)
    · exact List.mem_singleton.mp hname ▸ hopened
  obtain ⟨s', hclean, hdata, hempty, -⟩ := clean_changes_no_data (ascii "/d") (ascii "/d")
    (fun _ => none) s (listedEnv [ascii "a.txt.log", ascii "a.txt"]) 0
    (fun _ _ _ hlog => absurd hlog (by simp)) hr rfl rfl rfl hg (hdisk ▸ lists_syncedDisk) hothers
  refine ⟨s, s', hr, hdisk ▸ rfl, hclean, ?_, hempty _ hopened⟩
  rw [hdata _ (by decide), hdisk]
  rfl

/-- The name `a|b.txt` contains `.txt` and not `.log`. The second field of its record is a part of
the name, and `stoi` throws. -/
theorem clean_throws_on_name :
    Selected (ascii "a|b.txt") ∧
      ∃ s, (system fun _ => none).Reachable System.anyStep s ∧
        s.disk (fullLogPath (ascii "/d") (ascii "a|b.txt")) = some (ascii "a|b.txt|0|1|x\n") ∧
        gtfsClean (listedEnv [ascii "a|b.txt", ascii "a|b.txt.log"]) (some 0) s = none := by
  have hrun : ((system fun _ => none).guardedRun System.anyStep (system fun _ => none).init
      (syncedRun (ascii "a|b.txt"))).any (fun s => decide (
        s.disk (fullLogPath (ascii "/d") (ascii "a|b.txt")) = some (ascii "a|b.txt|0|1|x\n") ∧
        (gtfsClean (listedEnv [ascii "a|b.txt", ascii "a|b.txt.log"]) (some 0) s).isNone)) =
          true := by
    decide +kernel
  obtain ⟨s, hr, hs⟩ := System.Reachable.of_any hrun
  obtain ⟨hlog, hnone⟩ := of_decide_eq_true hs
  exact ⟨by decide, s, hr, hlog, Option.isNone_iff_eq_none.mp hnone⟩

end Settled
end GTFS
end OSLab
