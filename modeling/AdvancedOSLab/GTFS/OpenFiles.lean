import AdvancedOSLab.GTFS.Separation

/-!
# Removing a file that is open

A file cannot be removed while it is open. `gtfs_remove_file` looks at `is_open` of the `file_t` it
is given, and then removes the file of that *name*. After a file has been removed and opened again
there are two objects of the name: the one in the tables, which is open, and the one of the file
that is gone, which is closed. A removal through the second takes out the first
(`stale_handle_removes_open_file`).

`openSystem` is the process next to the names that have been opened by a call that returned a
`file_t`, and not been closed or removed by a call that returned 0 since. The invariant `Tracks`
says that such a name has an open `file_t` in the tables. It does not depend on how the calls are
made, so `remove_never_deletes_open` is about every run: a removal that returns 0 was not one of an
open file, if its pointer is the one in the tables or the one in the tables is closed.
-/

namespace OSLab
namespace GTFS
namespace OpenFiles

open Bytes Process FileTable Separation

/-! ### The names that are open -/

/-- The process, and the names that were opened more recently than closed or removed. -/
structure Tracked where
  process : Process
  opened : Bytes → Bool

/-- The open names without that of the `file_t`. -/
def ended (s : Process) (fl : Option ℕ) (opened : Bytes → Bool) (name : Bytes) : Bool :=
  opened name && !decide (IsHandle name s fl)

/-- The open names after a call that is made in state `s`. -/
def openedAfter (s : Process) (opened : Bytes → Bool) : Label → Bytes → Bool
  | .openFile env gtfs filename fileLength =>
    if ((gtfsOpenFile env gtfs filename fileLength s).bind Prod.fst).isSome then
      Function.update opened filename true
    else opened
  | .closeFile gtfs fl =>
    if (gtfsCloseFile gtfs fl s).map Prod.fst = some 0 then ended s fl opened else opened
  | .removeFile env gtfs fl =>
    if (gtfsRemoveFile env gtfs fl s).map Prod.fst = some 0 then ended s fl opened else opened
  | _ => opened

/-- The process as a system, with the names that are open. -/
def openSystem (disk : Disk) : System Tracked Label where
  init := { process := fresh disk, opened := fun _ => false }
  step t l := ((system disk).step t.process l).map fun s =>
    { process := s, opened := openedAfter t.process t.opened l }

/-- The calls are made on one directory. -/
def inDirectory (dir : Bytes) (t : Tracked) (l : Label) : Prop := oneDirectory dir t.process l

instance (dir : Bytes) (t : Tracked) (l : Label) : Decidable (inDirectory dir t l) :=
  inferInstanceAs (Decidable (oneDirectory dir t.process l))

/-- The `file_t` of the name in the tables is open. -/
def OpenInTable (s : Process) (name : Bytes) : Prop :=
  ∃ f file, s.filenameFileMapping name = some f ∧ s.files[f]? = some file ∧ file.isOpen = true

/-! ### What keeps a file open -/

variable {env : Env} {dir name filename : Bytes} {s s' : Process} {fileLength : ℤ}

/-- The entry of the name stays, and no open `file_t` is closed. -/
theorem OpenInTable.mono (h : OpenInTable s name)
    (hmapping : s'.filenameFileMapping name = s.filenameFileMapping name)
    (hfiles : ∀ f file, s.filenameFileMapping name = some f → s.files[f]? = some file →
      file.isOpen = true → ∃ file', s'.files[f]? = some file' ∧ file'.isOpen = true) :
    OpenInTable s' name := by
  obtain ⟨f, file, hf, hfile, hopen⟩ := h
  obtain ⟨file', hfile', hopen'⟩ := hfiles f file hf hfile hopen
  exact ⟨f, file', hmapping.trans hf, hfile', hopen'⟩

/-- Steps that do not write the tables. -/
theorem OpenInTable.of_eq (h : OpenInTable s name)
    (hmapping : s'.filenameFileMapping = s.filenameFileMapping) (hfiles : s'.files = s.files) :
    OpenInTable s' name :=
  h.mono (congrFun hmapping name) fun _ file _ hfile hopen => ⟨file, hfiles ▸ hfile, hopen⟩

/-- The `file_t` that is opened, or opened again. -/
theorem openInTable_of_set {f : ℕ} {file file' : FileT} (hf : s.filenameFileMapping name = some f)
    (hfile : s.files[f]? = some file) (hopen : file'.isOpen = true) (disk : Disk) :
    OpenInTable { s with disk := disk, files := s.files.set f file' } name := by
  refine ⟨f, file', hf, ?_, hopen⟩
  rw [List.getElem?_set_self (List.getElem?_eq_some_iff.mp hfile).1]

theorem OpenInTable.of_set (h : OpenInTable s name) {f : ℕ} {file file' : FileT}
    (hfile : s.files[f]? = some file) (hopen : file'.isOpen = true) (disk : Disk) :
    OpenInTable { s with disk := disk, files := s.files.set f file' } name := by
  refine h.mono rfl fun f' file₁ hf' hfile₁ hopen₁ => ?_
  by_cases hff : f = f'
  · subst hff
    exact ⟨file', by rw [List.getElem?_set_self (List.getElem?_eq_some_iff.mp hfile).1], hopen⟩
  · exact ⟨file₁, by rw [List.getElem?_set_ne hff, hfile₁], hopen₁⟩

/-- The `file_t` that is recorded. -/
theorem openInTable_record (dirname filename : Bytes) (fileLength : ℤ) (s : Process) :
    OpenInTable (record dirname filename fileLength s) filename := by
  refine ⟨s.files.length, _, Function.update_self .., List.getElem?_concat_length, rfl⟩

theorem OpenInTable.record (h : OpenInTable s name) (hnew : s.filenameFileMapping filename = none)
    (dirname : Bytes) (fileLength : ℤ) :
    OpenInTable (Process.record dirname filename fileLength s) name := by
  have hne : name ≠ filename := by
    rintro rfl
    obtain ⟨f, file, hf, -⟩ := h
    exact absurd (hf.symm.trans hnew) (by simp)
  refine h.mono (Function.update_of_ne hne _ _) fun f file _ hfile hopen => ⟨file, ?_, hopen⟩
  have hlt := (List.getElem?_eq_some_iff.mp hfile).1
  exact (List.getElem?_append_left hlt).trans hfile

/-- Opening a file closes none; if it returns a `file_t`, the name has an open one. -/
theorem OpenInTable.opening {res : Option ℕ} {dirname : Bytes} (h : OpenInTable s name)
    (hopening : Opening env dirname filename fileLength s res s') : OpenInTable s' name := by
  cases hopening with
  | refused | notLocked | tooShort => exact h.of_eq rfl rfl
  | known hopened hknown hfile => exact h.of_set hfile rfl _
  | notRecovered hopened hlock hnew | recovered hopened hnew =>
    exact (h.record hnew dirname fileLength).of_eq rfl rfl

theorem openInTable_of_opening {f : ℕ} {dirname : Bytes}
    (hopening : Opening env dirname filename fileLength s (some f) s') :
    OpenInTable s' filename := by
  cases hopening with
  | known hopened hknown hfile => exact openInTable_of_set hknown hfile rfl _
  | recovered hopened hnew => exact (openInTable_record dirname filename fileLength s).of_eq rfl rfl

/-- Closing the `file_t` of another name. -/
theorem OpenInTable.close (h : OpenInTable s name) (htable : Consistent dir s) {f : ℕ}
    {file : FileT} (hfile : s.files[f]? = some file) (hname : file.filename ≠ name) :
    OpenInTable { s with files := s.files.set f { file with isOpen := false } } name := by
  refine h.mono rfl fun f' file' hf' hfile' hopen' => ⟨file', ?_, hopen'⟩
  have hff : f ≠ f' := by
    rintro rfl
    have hname' := htable.filename_eq name f hf'
    rw [hfile] at hname'
    exact hname (Option.some.inj hname')
  rw [List.getElem?_set_ne hff, hfile']

/-- Removing the file of another name. -/
theorem OpenInTable.removal {dirname : Bytes} {file : FileT} {ret : ℤ} (h : OpenInTable s name)
    (hname : ret = 0 → file.filename ≠ name) (hremoval : Removal env dirname file s ret s') :
    OpenInTable s' name := by
  cases hremoval with
  | refused | logStays => exact h.of_eq rfl rfl
  | removed =>
    refine h.mono (Function.update_of_ne (hname rfl).symm _ _) fun f file' _ hfile' hopen' => ?_
    exact ⟨file', hfile', hopen'⟩

/-! ### All runs -/

/-- The tables are in step, and names that are open have an open `file_t` in them. -/
structure Tracks (dir : Bytes) (t : Tracked) : Prop where
  table : Invariant dir t.process
  openInTable : ∀ name, t.opened name = true → OpenInTable t.process name

theorem ended_eq_true {fl : Option ℕ} {opened : Bytes → Bool} :
    ended s fl opened name = true ↔ opened name = true ∧ ¬ IsHandle name s fl := by
  simp [ended]

variable {t t' : Tracked}

/-- A step that does not write the tables and is neither an open, a close nor a removal. -/
theorem Tracks.of_eq (h : Tracks dir t) (htable : Invariant dir s')
    (hmapping : s'.filenameFileMapping = t.process.filenameFileMapping)
    (hfiles : s'.files = t.process.files) : Tracks dir { process := s', opened := t.opened } :=
  ⟨htable, fun name hname => (h.openInTable name hname).of_eq hmapping hfiles⟩

theorem Tracks.openFile {gtfs : Option ℕ} {res : Option ℕ} (h : Tracks dir t)
    (htable : Invariant dir s')
    (hcall : gtfsOpenFile env gtfs filename fileLength t.process = some (res, s')) :
    Tracks dir { process := s'
                 opened := openedAfter t.process t.opened
                   (.openFile env gtfs filename fileLength) } := by
  refine ⟨htable, fun name hname => ?_⟩
  simp only [openedAfter, hcall, Option.bind_some] at hname
  cases gtfs with
  | none =>
    obtain ⟨rfl, rfl⟩ := Prod.mk.inj (Option.some.inj hcall)
    exact h.openInTable name hname
  | some g =>
    obtain ⟨dirname, -, hopening⟩ := gtfsOpenFile_cases hcall
    cases res with
    -- an open that fails takes no file out of the table
    | none => exact (h.openInTable name hname).opening hopening
    | some f =>
      replace hname : Function.update t.opened filename true name = true := hname
      -- the opened file is the one that the call has put there
      by_cases heq : name = filename
      · subst heq
        exact openInTable_of_opening hopening
      · rw [Function.update_of_ne heq] at hname
        exact (h.openInTable name hname).opening hopening

theorem Tracks.closeFile {gtfs fl : Option ℕ} {ret : ℤ} (h : Tracks dir t)
    (htable : Invariant dir s') (hcall : gtfsCloseFile gtfs fl t.process = some (ret, s')) :
    Tracks dir { process := s'
                 opened := openedAfter t.process t.opened (.closeFile gtfs fl) } := by
  refine ⟨htable, fun name hname => ?_⟩
  simp only [openedAfter, hcall, Option.map_some, Option.some.injEq] at hname
  rcases gtfsCloseFile_cases hcall with ⟨rfl, rfl⟩ | ⟨f, file, rfl, rfl, hfile, rfl⟩
  · exact h.openInTable name hname
  · obtain ⟨hopened, hhandle⟩ := ended_eq_true.mp hname
    refine (h.openInTable name hopened).close h.table.consistent hfile fun heq => hhandle ?_
    exact heq ▸ isHandle_some hfile

theorem Tracks.removeFile {gtfs fl : Option ℕ} {ret : ℤ} (h : Tracks dir t)
    (htable : Invariant dir s') (hcall : gtfsRemoveFile env gtfs fl t.process = some (ret, s')) :
    Tracks dir { process := s'
                 opened := openedAfter t.process t.opened (.removeFile env gtfs fl) } := by
  refine ⟨htable, fun name hname => ?_⟩
  simp only [openedAfter, hcall, Option.map_some, Option.some.injEq] at hname
  match gtfs, fl with
  | none, _ | some _, none =>
    obtain ⟨rfl, rfl⟩ := Prod.mk.inj (Option.some.inj hcall)
    exact h.openInTable name hname
  | some g, some f =>
    obtain ⟨dirname, file, -, hfile, hremoval⟩ := gtfsRemoveFile_cases hcall
    have hopened : t.opened name = true := by
      split at hname
      · exact (ended_eq_true.mp hname).1
      · exact hname
    refine (h.openInTable name hopened).removal (fun hret heq => ?_) hremoval
    rw [if_pos hret] at hname
    exact (ended_eq_true.mp hname).2 (heq ▸ isHandle_some hfile)

theorem Tracks.step {disk : Disk} {l : Label} (h : Tracks dir t) (hl : inDirectory dir t l)
    (hstep : (openSystem disk).step t l = some t') : Tracks dir t' := by
  obtain ⟨s', hs', rfl⟩ := Option.map_eq_some_iff.mp hstep
  have htable := h.table.step hl hs'
  cases l with
  | openFile env gtfs filename fileLength =>
    obtain ⟨⟨res, s'⟩, hcall, rfl⟩ := Option.map_eq_some_iff.mp hs'
    exact h.openFile htable hcall
  | closeFile gtfs fl =>
    obtain ⟨⟨ret, s'⟩, hcall, rfl⟩ := Option.map_eq_some_iff.mp hs'
    exact h.closeFile htable hcall
  | removeFile env gtfs fl =>
    obtain ⟨⟨ret, s'⟩, hcall, rfl⟩ := Option.map_eq_some_iff.mp hs'
    exact h.removeFile htable hcall
  -- the other calls leave the files alone
  | syncWriteFile =>
    cases step_effect hs' with
    | nothing => exact h.of_eq htable rfl rfl
    | syncWriteFile hw hsyncing => cases hsyncing <;> exact h.of_eq htable rfl rfl
  | init | writeFile | abortWriteFile | clean | others =>
    cases step_effect hs' <;> exact h.of_eq htable rfl rfl

theorem tracks_of_reachable {disk : Disk}
    (hr : (openSystem disk).Reachable (inDirectory dir) t) : Tracks dir t := by
  have h₀ : Tracks dir (openSystem disk).init :=
    ⟨invariant_of_reachable .init, fun name hname => absurd hname (by simp [openSystem])⟩
  exact hr.invariant h₀ fun _ _ _ _ h hl hstep => h.step hl hstep

/-- After any sequence of calls on one directory: a removal that returns 0, through the `file_t`
that the tables hold for its name, or while the one they hold is closed, is not the removal of a
file that was opened more recently than closed or removed. -/
theorem remove_never_deletes_open (dir : Bytes) (disk : Disk)
    (hr : (openSystem disk).Reachable (inDirectory dir) t) (gtfs : Option ℕ) (f : ℕ) (file : FileT)
    (hfile : t.process.files[f]? = some file)
    (hcurrent : t.process.filenameFileMapping file.filename = some f ∨
      ¬ OpenInTable t.process file.filename)
    (hcall : gtfsRemoveFile env gtfs (some f) t.process = some (0, s')) :
    t.opened file.filename = false := by
  refine Bool.eq_false_iff.mpr fun hopened => ?_
  have hopen := (tracks_of_reachable hr).openInTable file.filename hopened
  have hf := hcurrent.resolve_right (not_not.mpr hopen)
  obtain ⟨f', file', hf', hfile', hopen'⟩ := hopen
  obtain rfl := Option.some.inj (hf.symm.trans hf')
  obtain rfl := Option.some.inj (hfile.symm.trans hfile')
  -- the call has checked that the `file_t` it was given is closed
  cases gtfs with
  | none => exact absurd (Prod.mk.inj (Option.some.inj hcall)).1 (by decide)
  | some g =>
    obtain ⟨dirname, file', -, hfile', hremoval⟩ := gtfsRemoveFile_cases hcall
    obtain rfl := Option.some.inj (hfile.symm.trans hfile')
    cases hremoval with
    | removed hremoved => exact hremoved (.inl hopen')

/-- A file that was opened, closed and opened again is closed once more and removed. -/
theorem remove_never_deletes_open_closed :
    ∃ t, (openSystem fun _ => none).Reachable (inDirectory (ascii "/d")) t ∧
      ((gtfsRemoveFile (.quiet [] fun _ => []) (some 0) (some 0) t.process).map Prod.fst = some 0) ∧
      t.opened (ascii "a") = false := by
  have hrun : ((openSystem fun _ => none).guardedRun (inDirectory (ascii "/d"))
      (openSystem fun _ => none).init
      [.init (.quiet [] fun _ => []) (ascii "/d"),
        .openFile (.quiet [] fun _ => []) (some 0) (ascii "a") 10, .closeFile (some 0) (some 0),
        .openFile (.quiet [] fun _ => []) (some 0) (ascii "a") 20,
        .closeFile (some 0) (some 0)]).any
      (fun t => decide (t.process.files[0]? = some ⟨ascii "a", 20, false⟩ ∧
        t.process.filenameFileMapping (ascii "a") = some 0 ∧
        (gtfsRemoveFile (.quiet [] fun _ => []) (some 0) (some 0) t.process).map Prod.fst =
          some 0)) = true := by
    decide +kernel
  obtain ⟨t, hr, ht⟩ := System.Reachable.of_any hrun
  obtain ⟨hfile, hmapping, hret⟩ := of_decide_eq_true ht
  obtain ⟨⟨ret, s'⟩, hcall, rfl⟩ := Option.map_eq_some_iff.mp hret
  exact ⟨t, hr, hret, remove_never_deletes_open _ _ hr (some 0) 0 _ hfile (.inl hmapping) hcall⟩

/-- The file `a` is opened, closed, removed and opened again. A removal through the first pointer
returns 0 and takes out the file that is open. -/
theorem stale_handle_removes_open_file :
    ∃ t s', (openSystem fun _ => none).Reachable (inDirectory (ascii "/d")) t ∧
      t.opened (ascii "a") = true ∧ OpenInTable t.process (ascii "a") ∧
      gtfsRemoveFile (.quiet [] fun _ => []) (some 0) (some 0) t.process = some (0, s') ∧
      s'.filenameFileMapping (ascii "a") = none ∧ s'.disk (ascii "/d/a") = none := by
  have hrun : ((openSystem fun _ => none).guardedRun (inDirectory (ascii "/d"))
      (openSystem fun _ => none).init
      [.init (.quiet [] fun _ => []) (ascii "/d"),
        .openFile (.quiet [] fun _ => []) (some 0) (ascii "a") 10, .closeFile (some 0) (some 0),
        .removeFile (.quiet [] fun _ => []) (some 0) (some 0),
        .openFile (.quiet [] fun _ => []) (some 0) (ascii "a") 5]).any
      (fun t => decide (t.opened (ascii "a") = true) &&
        (gtfsRemoveFile (.quiet [] fun _ => []) (some 0) (some 0) t.process).any
          fun result => decide (result.1 = 0 ∧
            result.2.filenameFileMapping (ascii "a") = none ∧
            result.2.disk (ascii "/d/a") = none)) = true := by
    decide +kernel
  obtain ⟨t, hr, ht⟩ := System.Reachable.of_any hrun
  obtain ⟨hopened, hremove⟩ := Bool.and_eq_true_iff.mp ht
  replace hopened : t.opened (ascii "a") = true := of_decide_eq_true hopened
  obtain ⟨⟨ret, s'⟩, hcall, hgone⟩ := (Option.any_eq_true _ _).mp hremove
  obtain ⟨rfl, hmapping, hdisk⟩ := of_decide_eq_true hgone
  -- that the file is in the table is the invariant of the run
  exact ⟨t, s', hr, hopened, (tracks_of_reachable hr).openInTable _ hopened, hcall, hmapping, hdisk⟩

end OpenFiles
end GTFS
end OSLab
