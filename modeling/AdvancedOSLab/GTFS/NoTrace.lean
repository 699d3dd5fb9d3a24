import AdvancedOSLab.GTFS.Calls

/-!
# Failed calls that leave something behind

`gtfs_open_file` and `gtfs_remove_file` report a failure by their result. A caller that sees it
would take the call as not having happened. That is right only if the call has given up early.

* `gtfs_open_file` creates the data file with its first system call and puts the file into the
  tables before it recovers it. So a failed lock, or a length that is too small, leaves a new empty
  file behind when there was none, and a failed recovery leaves the file in the tables
  (`failed_recovery_leaves_entry`): the next call to open it finds it there and succeeds without a
  recovery.
* `gtfs_remove_file` removes the data file before the log. When the log cannot be removed, or is not
  there, the tables keep a file that has no data.

`no_trace_iff` says exactly which failures leave nothing, for both calls, in terms of the state
before the call.
-/

namespace OSLab
namespace GTFS
namespace Process

open Text Bytes

variable {env : Env} {s s' : Process}

/-- The tables of the files and their writes and the disk are as before. -/
structure NoTrace (s s' : Process) : Prop where
  filenameFileMapping : s'.filenameFileMapping = s.filenameFileMapping
  directoryFilesMapping : s'.directoryFilesMapping = s.directoryFilesMapping
  fileLogUpdatesMapping : s'.fileLogUpdatesMapping = s.fileLogUpdatesMapping
  disk : s'.disk = s.disk

theorem NoTrace.refl (s : Process) : NoTrace s s := ⟨rfl, rfl, rfl, rfl⟩

/-- Creating a file that is there changes nothing, and only then. -/
theorem create_eq_self_iff (path : Bytes) (disk : Disk) :
    create path disk = disk ↔ (disk path).isSome := by
  constructor
  · intro h
    rw [← h, create_self]
    rfl
  · intro h
    obtain ⟨c, hc⟩ := Option.isSome_iff_exists.mp h
    unfold create
    rw [hc]

theorem noTrace_created_iff (path : Bytes) :
    NoTrace s (created path s) ↔ (s.disk path).isSome :=
  ⟨fun h => (create_eq_self_iff path s.disk).mp h.disk,
    fun h => ⟨rfl, rfl, rfl, (create_eq_self_iff path s.disk).mpr h⟩⟩

/-- An open that fails leaves nothing behind if it gave up before it created the file, or if the
file was there and the lock failed or the file was in the tables. -/
theorem gtfsOpenFile_noTrace_iff {g : ℕ} {dirname filename : Bytes} {fileLength : ℤ}
    (hg : s.gtfs[g]? = some dirname)
    (h : gtfsOpenFile env (some g) filename fileLength s = some (none, s')) :
    NoTrace s s' ↔ Refused env dirname filename s ∨
      (s.disk (fullFilePath (env.root dirname) filename)).isSome ∧
        (env.lockFails = true ∨ (s.filenameFileMapping filename).isSome) := by
  obtain ⟨dirname', hg', hopening⟩ := gtfsOpenFile_cases h
  obtain rfl := Option.some.inj (hg.symm.trans hg')
  -- a call that gives up right behind `open` has created the file at most
  have hcreated (hopened : ¬ Refused env dirname filename s)
      (hwhy : env.lockFails = true ∨ (s.filenameFileMapping filename).isSome) :
      NoTrace s (created (fullFilePath (env.root dirname) filename) s) ↔
        Refused env dirname filename s ∨
          (s.disk (fullFilePath (env.root dirname) filename)).isSome ∧
            (env.lockFails = true ∨ (s.filenameFileMapping filename).isSome) := by
    rw [noTrace_created_iff, or_iff_right hopened, and_iff_left hwhy]
  cases hopening with
  | refused hrefused => exact iff_of_true (.refl s) (.inl hrefused)
  | notLocked hopened hlock => exact hcreated hopened (.inl hlock)
  | tooShort hopened hknown => exact hcreated hopened (.inr (by rw [hknown]; rfl))
  | notRecovered hopened hlock hnew =>
    refine iff_of_false (fun htrace => ?_) ?_
    · -- the name is in the table now
      have hentry := congrFun htrace.filenameFileMapping filename
      rw [hnew] at hentry
      exact absurd ((Function.update_self ..).symm.trans hentry) (by simp)
    · rintro (hrefused | ⟨-, hlock' | hknown⟩)
      · exact hopened hrefused
      · rw [hlock] at hlock'
        exact absurd hlock' (by simp)
      · rw [hnew] at hknown
        exact absurd hknown (by simp)

/-- A removal that fails leaves nothing behind if it gave up before it removed the data file. -/
theorem gtfsRemoveFile_noTrace_iff {g f : ℕ} {dirname : Bytes} {file : FileT}
    (hg : s.gtfs[g]? = some dirname) (hf : s.files[f]? = some file)
    (h : gtfsRemoveFile env (some g) (some f) s = some (-1, s')) :
    NoTrace s s' ↔ NotRemoved env (fullFilePath (env.root dirname) file.filename) file s := by
  obtain ⟨dirname', file', hg', hf', hremoval⟩ := gtfsRemoveFile_cases h
  obtain rfl := Option.some.inj (hg.symm.trans hg')
  obtain rfl := Option.some.inj (hf.symm.trans hf')
  cases hremoval with
  | refused hrefused => exact iff_of_true (.refl s) hrefused
  | logStays hremoved =>
    refine iff_of_false (fun htrace => ?_) hremoved
    -- there was a data file, or the call would have given up
    have hgone : (unlinked (fullFilePath (env.root dirname) file.filename) s).disk
        (fullFilePath (env.root dirname) file.filename) = none := Function.update_self ..
    refine hremoved (.inr (.inl (.inl ?_)))
    rw [← htrace.disk, hgone]
    rfl

/-- **Which failures leave no trace.** For every state of the process and the disk: an open that
returns `NULL` leaves the tables and all files as they were exactly if it gave up before it created
the file, or the file was there and either the lock failed or the name was in the tables; a removal
that returns -1, exactly if it gave up before it removed the data file. -/
theorem no_trace_iff (env : Env) (s : Process) :
    (∀ g dirname filename fileLength s', s.gtfs[g]? = some dirname →
      gtfsOpenFile env (some g) filename fileLength s = some (none, s') →
        (NoTrace s s' ↔ Refused env dirname filename s ∨
          (s.disk (fullFilePath (env.root dirname) filename)).isSome ∧
            (env.lockFails = true ∨ (s.filenameFileMapping filename).isSome))) ∧
    (∀ g f dirname file s', s.gtfs[g]? = some dirname → s.files[f]? = some file →
      gtfsRemoveFile env (some g) (some f) s = some (-1, s') →
        (NoTrace s s' ↔
          NotRemoved env (fullFilePath (env.root dirname) file.filename) file s)) ∧
    ∀ f s', gtfsRemoveFile env none (some f) s = some (-1, s') → NoTrace s s' := by
  refine ⟨fun g dirname filename fileLength s' hg h => gtfsOpenFile_noTrace_iff hg h,
    fun g f dirname file s' hg hf h => gtfsRemoveFile_noTrace_iff hg hf h, fun f s' h => ?_⟩
  obtain ⟨-, rfl⟩ := Prod.mk.inj (Option.some.inj h)
  exact .refl s

/-- The environment of the runs below, in which no system call fails. -/
def quietEnv : Env := .quiet [] fun _ => []

/-- A file of length 10 is not opened with the length 5, and nothing is left behind. -/
theorem no_trace_of_short_length :
    ∃ s s', (system fun _ => none).Reachable System.anyStep s ∧
      gtfsOpenFile quietEnv (some 0) (ascii "a") 5 s = some (none, s') ∧ NoTrace s s' := by
  have hrun : ((system fun _ => none).guardedRun System.anyStep (system fun _ => none).init
      [.init quietEnv (ascii "/d"), .openFile quietEnv (some 0) (ascii "a") 10]).any
      (fun s => decide (s.gtfs[0]? = some (ascii "/d") ∧
        (s.disk (fullFilePath (quietEnv.root (ascii "/d")) (ascii "a"))).isSome ∧
        (s.filenameFileMapping (ascii "a")).isSome ∧
        (gtfsOpenFile quietEnv (some 0) (ascii "a") 5 s).map Prod.fst = some none)) = true := by
    decide +kernel
  obtain ⟨s, hr, hs⟩ := System.Reachable.of_any hrun
  obtain ⟨hg, hdata, hknown, hresult⟩ := of_decide_eq_true hs
  obtain ⟨⟨res, s'⟩, hcall, hres⟩ := Option.map_eq_some_iff.mp hresult
  obtain rfl : res = none := hres
  exact ⟨s, s', hr, hcall,
    ((no_trace_iff quietEnv s).1 0 (ascii "/d") (ascii "a") 5 s' hg hcall).mpr
    (.inr ⟨hdata, .inr hknown⟩)⟩

/-- The disk with the empty log of a file `/d/a`. -/
def leftLog : Disk := fun path => if path = ascii "/d/a.log" then some [] else none

/-- The bare name `a` is no file of the working directory, so `a` is not recovered: the result is
`NULL`, and both `a` and its entry in the tables are there afterwards. -/
theorem failed_recovery_leaves_entry :
    ∃ s s', (system leftLog).Reachable System.anyStep s ∧
      gtfsOpenFile quietEnv (some 0) (ascii "a") 10 s = some (none, s') ∧
      s.filenameFileMapping (ascii "a") = none ∧ s'.filenameFileMapping (ascii "a") = some 0 ∧
      s.disk (ascii "/d/a") = none ∧ s'.disk (ascii "/d/a") = some [] ∧ ¬ NoTrace s s' := by
  have hrun : ((system leftLog).guardedRun System.anyStep (system leftLog).init
      [.init quietEnv (ascii "/d")]).any (fun s => decide (
        (gtfsOpenFile quietEnv (some 0) (ascii "a") 10 s).map (fun r =>
          (r.1, r.2.filenameFileMapping (ascii "a"), r.2.disk (ascii "/d/a"))) =
            some (none, some 0, some []) ∧
        s.filenameFileMapping (ascii "a") = none ∧ s.disk (ascii "/d/a") = none)) = true := by
    decide +kernel
  obtain ⟨s, hr, hs⟩ := System.Reachable.of_any hrun
  obtain ⟨hresult, hbefore, hdata⟩ := of_decide_eq_true hs
  obtain ⟨⟨res, s'⟩, hcall, hres⟩ := Option.map_eq_some_iff.mp hresult
  obtain ⟨rfl, hentry, hcreated⟩ : res = none ∧ s'.filenameFileMapping (ascii "a") = some 0 ∧
      s'.disk (ascii "/d/a") = some [] := by simpa using hres
  refine ⟨s, s', hr, hcall, hbefore, hentry, hdata, hcreated, fun htrace => ?_⟩
  rw [htrace.disk, hdata] at hcreated
  exact absurd hcreated (by simp)

end Process
end GTFS
end OSLab
