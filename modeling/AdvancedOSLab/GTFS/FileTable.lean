import Mathlib.Data.List.Nodup
import AdvancedOSLab.GTFS.Calls

/-!
# The file tables of a GTFS process

Two tables say which files a process has opened: `filename_file_t_mapping` holds the `file_t` of
each name, and `directory_files_mapping` the names in each directory. `gtfs_open_file` and
`gtfs_remove_file` write one after the other, and can give up in front of them: the file may be gone
from the disk and still be in both tables.

The result of this module is that the two stay in step as long as the process works on one
directory: whatever calls are made, with whatever pointers, and wherever they fail. What makes it
true is that both calls check and write the tables without a way out in between, and by the *name*
of a file: removing a file through the stale pointer of an earlier file of that name takes out
whatever file has that name now.

`Change` says what a call can do to the tables: nothing, record one name that was in neither, or
forget one name.
-/

namespace OSLab
namespace GTFS

namespace FileTable

open Bytes Process

variable {env : Env} {dir dirname : Bytes} {s s' : Process}

/-- The calls are made on one directory. -/
def oneDirectory (dir : Bytes) (_ : Process) : Label → Prop
  | .init _ directory => directory = dir
  | _ => True

/-- The two tables are in step: the names in the directory are distinct, they are exactly the names
that have a `file_t`, and that `file_t` is of this name. -/
structure Consistent (dir : Bytes) (s : Process) : Prop where
  nodup : (s.directoryFilesMapping dir).Nodup
  mem_iff : ∀ name, name ∈ s.directoryFilesMapping dir ↔ (s.filenameFileMapping name).isSome
  filename_eq : ∀ name f, s.filenameFileMapping name = some f →
    (s.files[f]?).map FileT.filename = some name

/-! ### What a call can do -/

/-- The names of the `file_t` objects. -/
def names (s : Process) : List Bytes := s.files.map FileT.filename

/-- What a call can do to the tables. -/
inductive Change (dir : Bytes) (s s' : Process) : Prop
  | same (hnames : names s' = names s)
      (hmapping : s'.filenameFileMapping = s.filenameFileMapping)
      (hfiles : s'.directoryFilesMapping = s.directoryFilesMapping)
  | record (name : Bytes) (hnew : s.filenameFileMapping name = none)
      (hnames : names s' = names s ++ [name])
      (hmapping : s'.filenameFileMapping =
        Function.update s.filenameFileMapping name (some s.files.length))
      (hfiles : s'.directoryFilesMapping = Function.update s.directoryFilesMapping dir
        (s.directoryFilesMapping dir ++ [name]))
  | forget (name : Bytes) (hnames : names s' = names s)
      (hmapping : s'.filenameFileMapping = Function.update s.filenameFileMapping name none)
      (hfiles : s'.directoryFilesMapping = Function.update s.directoryFilesMapping dir
        ((s.directoryFilesMapping dir).erase name))

/-- Writing the other fields of a `file_t`. -/
theorem map_filename_set {files : List FileT} {f : ℕ} {fl fl' : FileT} (hfl : files[f]? = some fl)
    (hname : fl'.filename = fl.filename) :
    (files.set f fl').map FileT.filename = files.map FileT.filename := by
  rw [List.map_set, hname]
  refine List.ext_getElem? fun i => ?_
  rw [List.getElem?_set]
  split
  · next hi =>
    obtain ⟨hlt, -⟩ := List.getElem?_eq_some_iff.mp hfl
    rw [if_pos (by simpa using hlt), ← hi, List.getElem?_map, hfl]
    rfl
  · rfl

theorem change_of_opening {filename : Bytes} {fileLength : ℤ} {res : Option ℕ}
    (h : Opening env dir filename fileLength s res s') :
    s'.gtfs = s.gtfs ∧ Change dir s s' := by
  cases h with
  | refused | notLocked | tooShort => exact ⟨rfl, .same rfl rfl rfl⟩
  | known hopened hknown hfile => exact ⟨rfl, .same (map_filename_set hfile rfl) rfl rfl⟩
  -- also a file that could not be recovered is recorded
  | notRecovered hopened hlock hnew => exact ⟨rfl, .record filename hnew List.map_append rfl rfl⟩
  | recovered hopened hnew => exact ⟨rfl, .record filename hnew List.map_append rfl rfl⟩

theorem change_of_removal {file : FileT} {ret : ℤ} (h : Removal env dir file s ret s') :
    s'.gtfs = s.gtfs ∧ Change dir s s' := by
  cases h with
  -- up to the removal of the log only the disk is written
  | refused | logStays => exact ⟨rfl, .same rfl rfl rfl⟩
  | removed => exact ⟨rfl, .forget file.filename rfl rfl rfl⟩

theorem change_of_syncing {w : WriteT} {ret : ℤ} (h : Syncing env w s ret s') :
    s'.gtfs = s.gtfs ∧ Change dir s s' := by
  cases h with
  | refused | notLocked | onlyLogged | synced => exact ⟨rfl, .same rfl rfl rfl⟩

/-! ### All runs -/

theorem getElem?_names (s : Process) (f : ℕ) :
    (names s)[f]? = (s.files[f]?).map FileT.filename := List.getElem?_map

/-- Every change keeps the tables in step. -/
theorem Consistent.change (h : Consistent dir s) (hchange : Change dir s s') :
    Consistent dir s' := by
  cases hchange with
  | same hnames hmapping hfiles =>
    refine ⟨hfiles ▸ h.nodup, fun name => ?_, fun name f hf => ?_⟩
    · rw [hfiles, hmapping]
      exact h.mem_iff name
    · rw [hmapping] at hf
      rw [← getElem?_names, hnames, getElem?_names]
      exact h.filename_eq name f hf
  | record name hnew hnames hmapping hfiles =>
    have hnot : name ∉ s.directoryFilesMapping dir := by
      rw [h.mem_iff, hnew]
      exact Bool.false_ne_true
    refine ⟨?_, fun name' => ?_, fun name' f hf => ?_⟩
    · rw [hfiles, Function.update_self]
      exact List.nodup_append.mpr ⟨h.nodup, List.nodup_singleton name,
        fun a ha b hb => ne_of_mem_of_not_mem ha (List.mem_singleton.mp hb ▸ hnot)⟩
    · rw [hfiles, hmapping, Function.update_self, List.mem_append, List.mem_singleton, h.mem_iff]
      by_cases hname : name' = name
      · simp [hname]
      · simp [hname, Function.update_of_ne]
    · rw [← getElem?_names, hnames]
      rw [hmapping] at hf
      by_cases hname : name' = name
      · -- the new name is that of the object that was allocated for it
        subst hname
        rw [Function.update_self] at hf
        obtain rfl := Option.some.inj hf
        have hlen : s.files.length = (names s).length := (List.length_map _).symm
        rw [hlen, List.getElem?_concat_length]
      · rw [Function.update_of_ne hname] at hf
        have hold := h.filename_eq name' f hf
        rw [← getElem?_names] at hold
        rw [List.getElem?_append_left (List.getElem?_eq_some_iff.mp hold).1]
        exact hold
  | forget name hnames hmapping hfiles =>
    refine ⟨?_, fun name' => ?_, fun name' f hf => ?_⟩
    · rw [hfiles, Function.update_self]
      exact h.nodup.erase name
    · rw [hfiles, hmapping, Function.update_self, h.nodup.mem_erase_iff, h.mem_iff]
      by_cases hname : name' = name
      · simp [hname]
      · simp [hname, Function.update_of_ne]
    · rw [← getElem?_names, hnames, getElem?_names]
      rw [hmapping, Function.update_apply] at hf
      split at hf
      · exact absurd hf (by simp)
      · exact h.filename_eq name' f hf

/-- The invariant of a run: there is no `gtfs_t` of another directory. -/
structure Invariant (dir : Bytes) (s : Process) : Prop where
  gtfs : ∀ d ∈ s.gtfs, d = dir
  consistent : Consistent dir s

theorem Invariant.of_change (h : Invariant dir s) (hchange : s'.gtfs = s.gtfs ∧ Change dir s s') :
    Invariant dir s' :=
  ⟨hchange.1 ▸ h.gtfs, h.consistent.change hchange.2⟩

theorem Invariant.step {disk : Disk} {l : Label} (h : Invariant dir s) (hl : oneDirectory dir s l)
    (hstep : (system disk).step s l = some s') : Invariant dir s' := by
  cases step_effect hstep with
  | nothing => exact h
  | init mapping =>
    exact ⟨List.forall_mem_append.mpr ⟨h.gtfs, List.forall_mem_singleton.mpr hl⟩,
      h.consistent.change (.same rfl rfl rfl)⟩
  | openFile hdirname hopening =>
    obtain rfl := h.gtfs _ hdirname
    exact h.of_change (change_of_opening hopening)
  | closeFile hfile => exact h.of_change ⟨rfl, .same (map_filename_set hfile rfl) rfl rfl⟩
  | removeFile hdirname hfile hremoval =>
    obtain rfl := h.gtfs _ hdirname
    exact h.of_change (change_of_removal hremoval)
  | syncWriteFile hw hsyncing => exact h.of_change (change_of_syncing hsyncing)
  | writeFile | abortWriteFile | clean | others => exact h.of_change ⟨rfl, .same rfl rfl rfl⟩

theorem invariant_of_reachable {disk : Disk}
    (hr : (system disk).Reachable (oneDirectory dir) s) : Invariant dir s := by
  have h₀ : Consistent dir (fresh disk) :=
    ⟨List.nodup_nil, fun _ => by simp [fresh], fun _ _ h => absurd h (by simp [fresh])⟩
  exact hr.invariant ⟨fun d hd => absurd hd List.not_mem_nil, h₀⟩
    fun _ _ _ _ h hl hstep => h.step hl hstep

/-- **The file tables stay in step.** After any sequence of calls on one directory, with any
pointers that the calls have returned, stale ones and `NULL` included, with any of the checked
system calls failing, and with any changes of the disk by others, the names in the directory are
distinct and are exactly those that have a `file_t`, which is of this name. -/
theorem tables_in_step (dir : Bytes) (disk : Disk) (s : Process)
    (hr : (system disk).Reachable (oneDirectory dir) s) : Consistent dir s :=
  (invariant_of_reachable hr).consistent

instance (dir : Bytes) (s : Process) (l : Label) : Decidable (oneDirectory dir s l) :=
  match l with
  | .init _ directory => inferInstanceAs (Decidable (directory = dir))
  | .openFile .. | .closeFile .. | .removeFile .. | .writeFile .. | .syncWriteFile ..
  | .abortWriteFile .. | .clean .. | .others .. => .isTrue trivial

/-- A file is removed and opened again; then the file that is open is removed through the stale
pointer. -/
theorem tables_in_step_stale :
    ∃ s, (system fun _ => none).Reachable (oneDirectory (ascii "/d")) s ∧
      s.files.map FileT.isOpen = [false, true] ∧
      Consistent (ascii "/d") s ∧ s.directoryFilesMapping (ascii "/d") = [] := by
  have hrun : ((system fun _ => none).guardedRun (oneDirectory (ascii "/d"))
      (system fun _ => none).init
      [.init (.quiet [] fun _ => []) (ascii "/d"),
        .openFile (.quiet [] fun _ => []) (some 0) (ascii "a") 10, .closeFile (some 0) (some 0),
        .removeFile (.quiet [] fun _ => []) (some 0) (some 0),
        .openFile (.quiet [] fun _ => []) (some 0) (ascii "a") 5,
        .removeFile (.quiet [] fun _ => []) (some 0) (some 0)]).any
      (fun s => decide (s.files.map FileT.isOpen = [false, true] ∧
        s.directoryFilesMapping (ascii "/d") = [])) = true := by
    decide +kernel
  obtain ⟨s, hr, hs⟩ := System.Reachable.of_any hrun
  obtain ⟨hopen, hfiles⟩ : s.files.map FileT.isOpen = [false, true] ∧
      s.directoryFilesMapping (ascii "/d") = [] := of_decide_eq_true hs
  exact ⟨s, hr, hopen, tables_in_step _ _ s hr, hfiles⟩

end FileTable

end GTFS
end OSLab
