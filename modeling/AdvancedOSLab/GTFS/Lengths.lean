import AdvancedOSLab.GTFS.Recovery
import AdvancedOSLab.GTFS.Separation

/-!
# Opening a file with a smaller length

A file must not be opened with a length below the one it has, "because it will lead to data loss".
`gtfs_open_file` compares the length with that of the `file_t` in its tables. The tables know the
lengths with which the process has opened the file, and nothing of the bytes on the disk:

* they are empty when a process is started, so the first open of a process accepts any length
  (`restart_forgets_length`);
* writes are not compared with the length of the file, so a sync can make the file longer than the
  tables say.

`lifeSystem` is a sequence of processes on one disk, each started when the one before has ended. It
keeps the lengths with which the present one has opened the file, and `reach`, the greatest end of a
write that any of them has given to `gtfs_sync_write_file` since the file was created.
`opening_never_shrinks` says that the two are all: if the first open in a process, and the first one
after a removal, has a length of at least `reach`, and no sync writes behind the length in the
tables, then no open has a length below the size that the file has after the recovery of its log.
The argument is that neither the file nor any write in its log ever ends behind `reach` (`Within`),
so that a replay cannot make the file longer than that. It is for records that are read back as they
were written. That no open has a length below an earlier one of the same process needs none of this.
-/

namespace OSLab
namespace GTFS
namespace Lengths

open Bytes Process FileTable Separation

/-! ### Processes on one disk -/

/-- The size of a file. -/
def size (disk : Disk) (path : Bytes) : ℕ := ((disk path).getD []).length

/-- A process, the lengths with which it has opened the file since the file was created, and the
greatest end of a write to the file that was synced since then, by this or an earlier process. -/
structure Life where
  process : Process
  lengths : List ℤ
  reach : ℕ

inductive Event where
  | call (l : Label)
  | restart

/-- The lengths after a call that is made in state `s`. -/
def lengthsAfter (name : Bytes) (s : Process) (lengths : List ℤ) : Label → List ℤ
  | .openFile env gtfs filename fileLength =>
    if filename = name ∧ ((gtfsOpenFile env gtfs filename fileLength s).bind Prod.fst).isSome then
      lengths ++ [fileLength]
    else lengths
  | .removeFile env gtfs fl =>
    if IsHandle name s fl ∧ (gtfsRemoveFile env gtfs fl s).map Prod.fst = some 0 then []
    else lengths
  | _ => lengths

/-- The reach after a call that is made in state `s`. A sync counts whether or not it succeeds. -/
def reachAfter (name : Bytes) (s : Process) (reach : ℕ) : Label → ℕ
  | .syncWriteFile env writeId =>
    (writeId.bind (s.writes[·]?)).elim reach fun w => max reach (syncPatch env.mem w).extent
  | .removeFile env gtfs fl =>
    if IsHandle name s fl ∧ (gtfsRemoveFile env gtfs fl s).map Prod.fst = some 0 then 0
    else reach
  | _ => reach

/-- Calls of the process, and restarts: the tables are lost, the disk is kept. -/
def lifeSystem (root name : Bytes) (disk : Disk) : System Life Event where
  init := { process := fresh disk, lengths := [], reach := size disk (fullFilePath root name) }
  step t
    | .call l => ((system disk).step t.process l).map fun s =>
        { process := s
          lengths := lengthsAfter name t.process t.lengths l
          reach := reachAfter name t.process t.reach l }
    | .restart => some { t with process := fresh t.process.disk, lengths := [] }

/-- The calls on a file of the directory, which is at `root`. -/
def onlyFile (dir root name : Bytes) : Label → Prop
  | .init _ directory => directory = dir
  | .openFile env _ filename _ => env.root dir = root ∧ filename = name
  | .removeFile env _ _ => env.root dir = root
  | .syncWriteFile env _ => env.root dir = root
  | .closeFile .. | .writeFile .. | .abortWriteFile .. => True
  | .clean .. | .others .. => False

/-- The length of the file in the tables. -/
def tableLength (name : Bytes) (s : Process) : Option ℤ :=
  (s.filenameFileMapping name).bind fun f => (s.files[f]?).map FileT.fileLength

/-- An open of the file, while it is not in the tables, has a length of at least the reach; a sync
is one of a write that is read back as it was written, and does not write behind the length in the
tables. -/
def covering (dir name : Bytes) (t : Life) : Label → Prop
  | .openFile _ _ _ fileLength =>
    t.process.filenameFileMapping name = none → (t.reach : ℤ) ≤ fileLength
  | .syncWriteFile env writeId => ∀ i, writeId = some i →
      ∃ w, t.process.writes[i]? = some (.ofWrite dir w) ∧ Decodable env.mem w ∧
        ∀ length ∈ tableLength name t.process, ((w.patch env.mem).extent : ℤ) ≤ length
  | _ => True

instance (dir root name : Bytes) (l : Label) : Decidable (onlyFile dir root name l) :=
  match l with
  | .init _ directory => inferInstanceAs (Decidable (directory = dir))
  | .openFile .. => inferInstanceAs (Decidable (_ ∧ _))
  | .removeFile .. | .syncWriteFile .. => inferInstanceAs (Decidable (_ = _))
  | .closeFile .. | .writeFile .. | .abortWriteFile .. => .isTrue trivial
  | .clean .. | .others .. => .isFalse id

/-- The events of a run on a file. -/
def onFileOnly (dir root name : Bytes) (_ : Life) : Event → Prop
  | .call l => onlyFile dir root name l
  | .restart => True

instance (dir root name : Bytes) (t : Life) (e : Event) :
    Decidable (onFileOnly dir root name t e) :=
  match e with
  | .call _ => inferInstanceAs (Decidable (onlyFile ..))
  | .restart => .isTrue trivial

/-- The events of a run on a file in which the lengths cover it. -/
def coveringEvents (dir root name : Bytes) (t : Life) : Event → Prop
  | .call l => onlyFile dir root name l ∧ covering dir name t l
  | .restart => True

/-! ### Sizes -/

section Sizes

variable {disk : Disk} {path path' : Bytes}

theorem size_create : size (create path disk) path = size disk path := by
  rw [size, create_self]
  rfl

theorem size_update_of_ne (h : path' ≠ path) (content : Option Bytes) :
    size (Function.update disk path content) path' = size disk path' := by
  rw [size, Function.update_of_ne h, size]

theorem size_writeFile_le (path : Bytes) (p : Patch UInt8) (disk : Disk) :
    size (writeFile path p disk) path ≤ max (size disk path) p.extent := by
  cases hc : disk path with
  | none => simp [size, writeFile, hc]
  | some c => simp [size, writeFile_self hc, hc, Patch.length_apply]

end Sizes

/-! ### What the calls keep -/

variable {env : Env} {dir root name : Bytes} {s s' : Process} {fileLength : ℤ} {reach : ℕ}

/-- The process knows no other file. -/
structure OnlyName (dir name : Bytes) (s : Process) : Prop where
  gtfs : ∀ d ∈ s.gtfs, d = dir
  files : ∀ file ∈ s.files, file.filename = name
  writes : ∀ w ∈ s.writes, w.filename = name ∧ w.fullFilePath = fullFilePath dir name ∧
    w.fullLogPath = fullLogPath dir name

theorem OnlyName.fresh (disk : Disk) : OnlyName dir name (fresh disk) :=
  ⟨fun _ h => absurd h List.not_mem_nil, fun _ h => absurd h List.not_mem_nil,
    fun _ h => absurd h List.not_mem_nil⟩

/-- Neither the file nor a write in its log ends behind `reach`. -/
structure Within (root name : Bytes) (disk : Disk) (reach : ℕ) : Prop where
  data : size disk (fullFilePath root name) ≤ reach
  log : ∀ log ∈ disk (fullLogPath root name), WholeLines log ∧ ∃ ps : List (Patch UInt8),
    (logLines log).map (lineWrite root) = ps.map (fun p => some (fullFilePath root name, p)) ∧
      ∀ p ∈ ps, p.extent ≤ reach

/-- Nothing on the disk ends behind `reach`, and the length in the tables is at least that. -/
structure Covered (root name : Bytes) (s : Process) (reach : ℕ) : Prop where
  within : Within root name s.disk reach
  known : ∀ length ∈ tableLength name s, (reach : ℤ) ≤ length

/-- The file in the tables has the greatest of the lengths. -/
def LengthsKnown (name : Bytes) (lengths : List ℤ) (s : Process) : Prop :=
  ∀ length ∈ lengths, ∃ length' ∈ tableLength name s, length ≤ length'

theorem mem_set_of_filename {files : List FileT} {f : ℕ} {file file' : FileT}
    (h : ∀ file ∈ files, file.filename = name) (hfile : files[f]? = some file)
    (hname : file'.filename = file.filename) :
    ∀ file ∈ files.set f file', file.filename = name := by
  intro file₁ hmem
  rcases List.mem_or_eq_of_mem_set hmem with hold | rfl
  · exact h file₁ hold
  · exact hname.trans (h file (List.mem_of_getElem? hfile))

theorem OnlyName.step {disk : Disk} {l : Label} (h : OnlyName dir name s)
    (hl : onlyFile dir root name l) (hstep : (system disk).step s l = some s') :
    OnlyName dir name s' := by
  -- an open appends a `file_t` with the name that the guard allows
  have hrecord : ∀ {filename : Bytes} {fileLength : ℤ}, filename = name →
      ∀ file ∈ s.files ++ [⟨filename, fileLength, true⟩], file.filename = name := by
    intro filename fileLength hname file hfile
    rcases List.mem_append.mp hfile with hold | hnew
    · exact h.files file hold
    · rw [List.mem_singleton.mp hnew]
      exact hname
  cases step_effect hstep with
  | nothing => exact h
  | init mapping =>
    exact ⟨List.forall_mem_append.mpr ⟨h.gtfs, List.forall_mem_singleton.mpr hl⟩, h.files,
      h.writes⟩
  | openFile hdirname hopening =>
    cases hopening with
    | refused | notLocked | tooShort => exact ⟨h.gtfs, h.files, h.writes⟩
    | known hopened hknown hfile =>
      exact ⟨h.gtfs, mem_set_of_filename h.files hfile rfl, h.writes⟩
    | notRecovered | recovered => exact ⟨h.gtfs, hrecord hl.2, h.writes⟩
  | closeFile hfile => exact ⟨h.gtfs, mem_set_of_filename h.files hfile rfl, h.writes⟩
  | removeFile hdirname hfile hremoval => cases hremoval <;> exact ⟨h.gtfs, h.files, h.writes⟩
  | writeFile hdirname hfile =>
    -- a write takes its name from the `file_t` and its directory from the `gtfs_t`
    refine ⟨h.gtfs, h.files, fun w hw => ?_⟩
    obtain rfl := h.gtfs _ hdirname
    have hname := h.files _ (List.mem_of_getElem? hfile)
    rcases List.mem_append.mp hw with hold | hnew
    · exact h.writes w hold
    · rw [List.mem_singleton.mp hnew, ← hname]
      exact ⟨rfl, rfl, rfl⟩
  | syncWriteFile hw hsyncing => cases hsyncing <;> exact ⟨h.gtfs, h.files, h.writes⟩
  | abortWriteFile => exact ⟨h.gtfs, h.files, h.writes⟩
  | clean | others => exact hl.elim

/-! ### The length in the tables -/

theorem tableLength_eq_some {f : ℕ} {file : FileT} (hknown : s.filenameFileMapping name = some f)
    (hfile : s.files[f]? = some file) : tableLength name s = some file.fileLength := by
  rw [tableLength, hknown, Option.bind_some, hfile, Option.map_some]

theorem tableLength_eq_none (h : s.filenameFileMapping name = none) :
    tableLength name s = none := by
  rw [tableLength, h, Option.bind_none]

/-- The file that has just been recorded. -/
theorem tableLength_record (dirname : Bytes) (fileLength : ℤ) (s : Process) :
    tableLength name (record dirname name fileLength s) = some fileLength := by
  show (Function.update s.filenameFileMapping name (some s.files.length) name).bind
    (fun f => ((s.files ++ [⟨name, fileLength, true⟩])[f]?).map FileT.fileLength) = some fileLength
  rw [Function.update_self, Option.bind_some, List.getElem?_concat_length, Option.map_some]

/-- Closing a file keeps its length. -/
theorem tableLength_close {f : ℕ} {file : FileT} (hfile : s.files[f]? = some file) :
    tableLength name { s with files := s.files.set f { file with isOpen := false } } =
      tableLength name s := by
  refine congrArg (Option.bind (s.filenameFileMapping name)) (funext fun f' => ?_)
  by_cases hff : f = f'
  · subst hff
    simp only [List.getElem?_set_self (List.getElem?_eq_some_iff.mp hfile).1, hfile,
      Option.map_some]
  · simp only [List.getElem?_set_ne hff]

/-- An open leaves the length as it is, or sets it to the new one, which is not smaller. The latter
if it succeeds. -/
theorem tableLength_opening {dirname : Bytes} {res : Option ℕ}
    (hopening : Opening env dirname name fileLength s res s') :
    (res = none ∧ tableLength name s' = tableLength name s) ∨
      (tableLength name s' = some fileLength ∧
        ∀ length ∈ tableLength name s, length ≤ fileLength) := by
  cases hopening with
  | refused | notLocked | tooShort => exact .inl ⟨rfl, rfl⟩
  | @known f file hopened hknown hfile hlength =>
    have hold := tableLength_eq_some hknown hfile
    refine .inr ⟨?_, fun length hmem => ?_⟩
    · show (s.filenameFileMapping name).bind (fun f' => ((s.files.set f
        { file with fileLength, isOpen := true })[f']?).map FileT.fileLength) = some fileLength
      rw [hknown, Option.bind_some,
        List.getElem?_set_self (List.getElem?_eq_some_iff.mp hfile).1, Option.map_some]
    · obtain rfl := Option.some.inj (hold.symm.trans hmem)
      exact hlength
  | notRecovered hopened hlock hnew | recovered hopened hnew =>
    refine .inr ⟨tableLength_record dirname fileLength _, fun length hmem => ?_⟩
    rw [tableLength_eq_none hnew] at hmem
    exact absurd hmem (by simp)

/-- A removal leaves the length as it is, or takes the file out of the tables and returns 0. -/
theorem tableLength_removal {dirname : Bytes} {file : FileT} {ret : ℤ}
    (hname : file.filename = name) (hremoval : Removal env dirname file s ret s') :
    tableLength name s' = tableLength name s ∨ (ret = 0 ∧ tableLength name s' = none) := by
  cases hremoval with
  | refused | logStays => exact .inl rfl
  | removed =>
    refine .inr ⟨rfl, tableLength_eq_none ?_⟩
    show Function.update s.filenameFileMapping file.filename none name = none
    rw [hname, Function.update_self]

/-! ### The reach -/

namespace Within

variable {disk disk' : Disk}

theorem mono (h : Within root name disk reach) {reach' : ℕ} (hle : reach ≤ reach') :
    Within root name disk reach' := by
  refine ⟨h.data.trans hle, fun log hlog => ?_⟩
  obtain ⟨hwhole, ps, hlines, hps⟩ := h.log log hlog
  exact ⟨hwhole, ps, hlines, fun p hp => (hps p hp).trans hle⟩

/-- The data file changes. -/
theorem of_data (h : Within root name disk reach)
    (hsize : size disk' (fullFilePath root name) ≤ reach)
    (hlog : disk' (fullLogPath root name) = disk (fullLogPath root name)) :
    Within root name disk' reach :=
  ⟨hsize, hlog ▸ h.log⟩

/-- The log is removed or emptied. -/
theorem of_cleared (h : Within root name disk reach)
    (hdata : disk' (fullFilePath root name) = disk (fullFilePath root name))
    (hlog : disk' (fullLogPath root name) = none ∨ disk' (fullLogPath root name) = some []) :
    Within root name disk' reach := by
  refine ⟨by rw [size, hdata]; exact h.data, fun log hmem => ?_⟩
  rw [Option.mem_def] at hmem
  rcases hlog with hlog | hlog
  · exact absurd (hlog.symm.trans hmem) (by simp)
  · obtain rfl := Option.some.inj (hlog.symm.trans hmem)
    exact ⟨.inl rfl, [], rfl, fun p hp => absurd hp List.not_mem_nil⟩

theorem created (h : Within root name disk reach) :
    Within root name (create (fullFilePath root name) disk) reach :=
  h.of_data (size_create.trans_le h.data) (create_of_ne (fullLogPath_ne root name) disk)

/-- The log is opened, and created if it is not there. -/
theorem createdLog (h : Within root name disk reach) :
    Within root name (create (fullLogPath root name) disk) reach := by
  have hdata := create_of_ne (fullLogPath_ne root name).symm disk
  cases hlog : disk (fullLogPath root name) with
  | none =>
    refine h.of_cleared hdata (.inr ?_)
    rw [create_self, hlog]
    rfl
  | some log =>
    refine h.of_data ?_ ?_
    · rw [size, hdata]
      exact h.data
    · rw [create_self, hlog]
      rfl

/-- A replay overlays writes that end within the reach. -/
theorem recovered (h : Within root name disk reach) {bare : Bytes}
    (hsome : (disk (fullFilePath root name)).isSome)
    (hrecovered : Recovered root bare (fullLogPath root name) disk disk') :
    Within root name disk' reach := by
  cases hrecovered with
  | noLog => exact h
  | redone hlog hbare hreplay =>
    obtain ⟨-, ps, hlines, hps⟩ := h.log _ hlog
    obtain ⟨content, hcontent⟩ := Option.isSome_iff_exists.mp hsome
    rw [Recovery.replay_of_map hlines hcontent] at hreplay
    obtain rfl := Option.some.inj hreplay
    have hlength : content.length ≤ reach := by
      have hdata := h.data
      rwa [size, hcontent] at hdata
    refine h.of_data ?_ (Function.update_of_ne (fullLogPath_ne root name) _ _)
    rw [size, Function.update_self]
    exact Patch.length_applyAll_le 0 hlength hps

/-- A record is appended. -/
theorem logged {mem : ℕ → Bytes} {w : Write} (h : Within root w.filename disk reach)
    (hw : Decodable mem w) (hend : (w.patch mem).extent ≤ reach) :
    Within root w.filename (Function.update disk (fullLogPath root w.filename)
      (some ((disk (fullLogPath root w.filename)).getD [] ++ logRecord mem w))) reach := by
  refine ⟨by rw [size_update_of_ne (fullLogPath_ne _ _).symm]; exact h.data, fun log hlog => ?_⟩
  rw [Function.update_self, Option.mem_def, Option.some.injEq] at hlog
  subst hlog
  -- a log that is not there is an empty one
  obtain ⟨hwhole, ps, hlines, hps⟩ : WholeLines ((disk (fullLogPath root w.filename)).getD []) ∧
      ∃ ps : List (Patch UInt8), (logLines ((disk (fullLogPath root w.filename)).getD [])).map
        (lineWrite root) = ps.map (fun p => some (fullFilePath root w.filename, p)) ∧
          ∀ p ∈ ps, p.extent ≤ reach := by
    cases hlog : disk (fullLogPath root w.filename) with
    | none => exact ⟨.inl rfl, [], rfl, fun p hp => absurd hp List.not_mem_nil⟩
    | some log => exact h.log log hlog
  exact ⟨hwhole.append (.inr ⟨_, rfl⟩), ps ++ [w.patch mem], hwhole.map_lineWrite_append hlines hw,
    List.forall_mem_append.mpr ⟨hps, List.forall_mem_singleton.mpr hend⟩⟩

/-- An open creates the file, and replays its log and clears it, if it comes that far. -/
theorem opening {res : Option ℕ} (h : Within root name s.disk reach) (hroot : env.root dir = root)
    (hopening : Opening env dir name fileLength s res s') : Within root name s'.disk reach := by
  subst hroot
  have hcreated := h.created
  cases hopening with
  | refused => exact h
  | notLocked | tooShort | known | notRecovered => exact hcreated
  | recovered hopened hnew hrecovered =>
    exact (hcreated.recovered (isSome_create_self _ _) hrecovered).of_cleared
      (clearLog_disk_of_ne env (fullLogPath_ne _ _).symm _ _) (clearLog_disk_self env _ _ _)

/-- A removal that gets through leaves nothing, and another one gets as far as the data file. -/
theorem removal {file : FileT} {ret : ℤ} (h : Within root name s.disk reach)
    (hname : file.filename = name) (hroot : env.root dir = root)
    (hremoval : Removal env dir file s ret s') :
    Within root name s'.disk (if ret = 0 then 0 else reach) := by
  subst hroot hname
  -- the data file is unlinked first, and then has no size
  have hgone : ∀ disk : Disk, size (Function.update disk
      (fullFilePath (env.root dir) file.filename) none)
        (fullFilePath (env.root dir) file.filename) = 0 := fun disk => by
    rw [size, Function.update_self]
    rfl
  cases hremoval with
  | refused => exact h
  | logStays =>
    rw [unlinked_disk]
    exact h.of_data ((hgone _).trans_le (Nat.zero_le _))
      (Function.update_of_ne (fullLogPath_ne _ _) _ _)
  | removed =>
    -- without a log there is nothing that a replay could bring back
    rw [forget_disk, unlinked_disk, unlinked_disk, if_pos rfl]
    refine ⟨?_, fun log hlog => ?_⟩
    · rw [size_update_of_ne (fullLogPath_ne _ _).symm, hgone]
    · rw [Function.update_self] at hlog
      exact absurd hlog (by simp)

/-- A sync appends its record and makes its write, if it comes that far. -/
theorem syncing {w : Write} {ret : ℤ} (h : Within root w.filename s.disk reach)
    (hw : Decodable env.mem w) (hend : (w.patch env.mem).extent ≤ reach)
    (hroot : env.root dir = root) (hsyncing : Syncing env (.ofWrite dir w) s ret s') :
    Within root w.filename s'.disk reach := by
  obtain ⟨hpath, hlogPath⟩ : _ = fullFilePath root w.filename ∧ _ = fullLogPath root w.filename :=
    resolve_paths (w := .ofWrite dir w) rfl rfl hroot
  -- the record is about a write that ends within the reach
  have hlogged : Within root w.filename (Process.logged
      (env.resolve (WriteT.ofWrite dir w).fullLogPath) ((WriteT.ofWrite dir w).logData env.mem)
        s).disk reach := by
    rw [logged_disk, hlogPath, WriteT.logData_ofWrite]
    exact h.logged hw hend
  cases hsyncing with
  | refused => exact h
  | notLocked =>
    rw [created_disk, hlogPath]
    exact h.createdLog
  | onlyLogged => exact hlogged
  | synced =>
    dsimp only
    rw [hpath]
    -- the write makes the file as long as it reaches, or leaves its length
    refine hlogged.of_data ?_ (writeFile_of_ne (fullLogPath_ne _ _) _ _)
    exact (size_writeFile_le _ _ _).trans (Nat.max_le.mpr ⟨hlogged.data, hend⟩)

end Within

namespace Covered

/-- A process that has opened nothing knows no length. -/
theorem fresh {disk : Disk} (h : Within root name disk reach) :
    Covered root name (fresh disk) reach :=
  ⟨h, fun _ hmem => absurd hmem (by simp [tableLength, Process.fresh])⟩

/-- The length of an open is not below the one in the tables, or covers the reach itself. -/
theorem opening {res : Option ℕ} (h : Covered root name s reach) (hroot : env.root dir = root)
    (hcovers : s.filenameFileMapping name = none → (reach : ℤ) ≤ fileLength)
    (hopening : Opening env dir name fileLength s res s') : Covered root name s' reach := by
  refine ⟨h.within.opening hroot hopening, fun length hmem => ?_⟩
  rcases tableLength_opening hopening with ⟨-, hsame⟩ | ⟨hnew, hle⟩
  · exact h.known length (hsame ▸ hmem)
  · obtain rfl := Option.some.inj (hnew.symm.trans hmem)
    cases hopening with
    | refused | notLocked | tooShort => exact h.known _ hmem
    | known hopened hknown hfile =>
      have hold := tableLength_eq_some hknown hfile
      exact Int.le_trans (h.known _ hold) (hle _ hold)
    | notRecovered hopened hlock hnone => exact hcovers hnone
    | recovered hopened hnone => exact hcovers hnone

theorem removal {file : FileT} {ret : ℤ} (h : Covered root name s reach)
    (hname : file.filename = name) (hroot : env.root dir = root)
    (hremoval : Removal env dir file s ret s') :
    Covered root name s' (if ret = 0 then 0 else reach) := by
  refine ⟨h.within.removal hname hroot hremoval, fun length hmem => ?_⟩
  rcases tableLength_removal hname hremoval with hsame | ⟨-, hnone⟩
  · have hold := h.known length (hsame ▸ hmem)
    split <;> omega
  · exact absurd (hnone.symm.trans hmem) (by simp)

/-- A greater reach that the length in the tables covers too. -/
theorem mono (h : Covered root name s reach) {extent : ℕ}
    (hcovers : ∀ length ∈ tableLength name s, (extent : ℤ) ≤ length) :
    Covered root name s (max reach extent) := by
  refine ⟨h.within.mono (Nat.le_max_left _ _), fun length hmem => ?_⟩
  have hold := h.known length hmem
  have hnew := hcovers length hmem
  omega

/-- A sync within the length in the tables. -/
theorem syncing {w : Write} {ret : ℤ} (h : Covered root w.filename s reach)
    (hroot : env.root dir = root) (hw : Decodable env.mem w)
    (hcovers : ∀ length ∈ tableLength w.filename s, ((w.patch env.mem).extent : ℤ) ≤ length)
    (hsyncing : Syncing env (.ofWrite dir w) s ret s') :
    Covered root w.filename s' (max reach (w.patch env.mem).extent) := by
  have h := h.mono hcovers
  refine ⟨h.within.syncing hw (Nat.le_max_right _ _) hroot hsyncing, fun length hmem => ?_⟩
  have hmem : length ∈ tableLength w.filename s := by cases hsyncing <;> exact hmem
  exact h.known length hmem

theorem step {disk : Disk} {l : Label} {t : Life} (h : Covered root name t.process t.reach)
    (honly : OnlyName dir name t.process) (hl : onlyFile dir root name l)
    (hcovers : covering dir name t l) (hstep : (system disk).step t.process l = some s') :
    Covered root name s' (reachAfter name t.process t.reach l) := by
  cases l with
  -- only four calls change the file, its log or the length in the tables
  | openFile env gtfs filename fileLength =>
    obtain ⟨hroot, rfl⟩ := hl
    cases step_effect hstep with
    | nothing => exact h
    | openFile hdirname hopening =>
      obtain rfl := honly.gtfs _ hdirname
      exact h.opening hroot hcovers hopening
  | removeFile env gtfs fl =>
    obtain ⟨⟨ret, s'⟩, hcall, rfl⟩ := Option.map_eq_some_iff.mp hstep
    -- the reach starts anew when the removal returns 0
    simp only [reachAfter, hcall, Option.map_some, Option.some.injEq]
    match gtfs, fl with
    | none, _ | some _, none =>
      obtain ⟨rfl, rfl⟩ := Prod.mk.inj (Option.some.inj hcall)
      simpa using h
    | some g, some f =>
      obtain ⟨dirname, file, hdirname, hfile, hremoval⟩ := gtfsRemoveFile_cases hcall
      obtain rfl := honly.gtfs _ (List.mem_of_getElem? hdirname)
      have hname := honly.files file (List.mem_of_getElem? hfile)
      have hhandle : IsHandle name t.process (some f) := hname ▸ isHandle_some hfile
      simpa only [hhandle, true_and] using h.removal hname hl hremoval
  | syncWriteFile env writeId =>
    cases writeId with
    | none =>
      cases step_effect hstep
      exact h
    | some i =>
      -- the guard says that the write ends within the length in the tables
      obtain ⟨w, hwrite, hw, hlength⟩ := hcovers i rfl
      obtain rfl : w.filename = name := (honly.writes _ (List.mem_of_getElem? hwrite)).1
      rw [reachAfter, Option.bind_some, hwrite, Option.elim_some]
      cases step_effect hstep with
      | nothing => exact h.mono hlength
      | syncWriteFile hw' hsyncing =>
        obtain rfl := Option.some.inj (hw'.symm.trans hwrite)
        exact h.syncing hl hw hlength hsyncing
  | closeFile gtfs fl =>
    cases step_effect hstep with
    | nothing => exact h
    | closeFile hfile => exact ⟨h.within, fun length hmem => h.known length
        (tableLength_close hfile ▸ hmem)⟩
  | init | writeFile | abortWriteFile => cases step_effect hstep <;> exact ⟨h.within, h.known⟩
  | clean | others => exact hl.elim

end Covered

/-! ### The lengths of the opens -/

variable {lengths : List ℤ}

theorem LengthsKnown.of_eq (h : LengthsKnown name lengths s)
    (hlength : tableLength name s' = tableLength name s) : LengthsKnown name lengths s' := by
  intro length hmem
  rw [hlength]
  exact h length hmem

theorem LengthsKnown.openFile {g : Option ℕ} {res : Option ℕ} (h : LengthsKnown name lengths s)
    (hcall : gtfsOpenFile env g name fileLength s = some (res, s')) :
    LengthsKnown name (lengthsAfter name s lengths (.openFile env g name fileLength)) s' := by
  simp only [lengthsAfter, hcall, Option.bind_some, true_and]
  cases g with
  | none =>
    obtain ⟨rfl, rfl⟩ := Prod.mk.inj (Option.some.inj hcall)
    exact h
  | some g =>
    obtain ⟨dirname, -, hopening⟩ := gtfsOpenFile_cases hcall
    rcases tableLength_opening hopening with ⟨rfl, hsame⟩ | ⟨hnew, hle⟩
    · exact h.of_eq hsame
    · -- the new length is in the tables, and the old ones are below it
      have hold : ∀ length ∈ lengths, length ≤ fileLength := by
        intro length hmem
        obtain ⟨length', hmem', hlength⟩ := h length hmem
        exact Int.le_trans hlength (hle length' hmem')
      intro length hmem
      refine ⟨fileLength, hnew, ?_⟩
      split at hmem
      · rcases List.mem_append.mp hmem with hmem | hlast
        · exact hold length hmem
        · exact Int.le_of_eq (List.mem_singleton.mp hlast)
      · exact hold length hmem

theorem LengthsKnown.removeFile {g fl : Option ℕ} {ret : ℤ} (h : LengthsKnown name lengths s)
    (honly : OnlyName dir name s) (hcall : gtfsRemoveFile env g fl s = some (ret, s')) :
    LengthsKnown name (lengthsAfter name s lengths (.removeFile env g fl)) s' := by
  simp only [lengthsAfter, hcall, Option.map_some, Option.some.injEq]
  split
  · exact fun length hmem => absurd hmem List.not_mem_nil
  · next hnot =>
    match g, fl with
    | none, _ | some _, none =>
      obtain ⟨rfl, rfl⟩ := Prod.mk.inj (Option.some.inj hcall)
      exact h
    | some g, some f =>
      obtain ⟨dirname, file, -, hfile, hremoval⟩ := gtfsRemoveFile_cases hcall
      have hname := honly.files file (List.mem_of_getElem? hfile)
      rcases tableLength_removal hname hremoval with hsame | ⟨hret, -⟩
      · exact h.of_eq hsame
      · have hhandle : IsHandle name s (some f) := hname ▸ isHandle_some hfile
        exact absurd ⟨hhandle, hret⟩ hnot

theorem LengthsKnown.step {disk : Disk} {l : Label} (h : LengthsKnown name lengths s)
    (honly : OnlyName dir name s) (hl : onlyFile dir root name l)
    (hstep : (system disk).step s l = some s') :
    LengthsKnown name (lengthsAfter name s lengths l) s' := by
  cases l with
  | openFile env gtfs filename fileLength =>
    obtain ⟨⟨res, s'⟩, hcall, rfl⟩ := Option.map_eq_some_iff.mp hstep
    obtain ⟨-, rfl⟩ := hl
    exact h.openFile hcall
  | removeFile env gtfs fl =>
    obtain ⟨⟨ret, s'⟩, hcall, rfl⟩ := Option.map_eq_some_iff.mp hstep
    exact h.removeFile honly hcall
  -- the other calls leave the length of the file in the tables
  | closeFile gtfs fl =>
    cases step_effect hstep with
    | nothing => exact h
    | closeFile hfile => exact h.of_eq (tableLength_close hfile)
  | syncWriteFile env writeId =>
    cases step_effect hstep with
    | nothing => exact h
    | syncWriteFile hw hsyncing => cases hsyncing <;> exact h
  | init | writeFile | abortWriteFile => cases step_effect hstep <;> exact h
  | clean | others => exact hl.elim

/-! ### All runs -/

section Runs

variable {disk : Disk} {t t' : Life}

/-- What holds in every run on the file. -/
theorem known_of_reachable
    (hr : (lifeSystem root name disk).Reachable (onFileOnly dir root name) t) :
    OnlyName dir name t.process ∧ LengthsKnown name t.lengths t.process := by
  have hfresh : ∀ disk, OnlyName dir name (fresh disk) ∧ LengthsKnown name [] (fresh disk) :=
    fun disk => ⟨.fresh disk, fun _ h => absurd h List.not_mem_nil⟩
  induction hr with
  | init => exact hfresh disk
  | @step t t' e hr hG hstep ih =>
    cases e with
    | restart =>
      obtain rfl := Option.some.inj hstep
      exact hfresh t.process.disk
    | call l =>
      obtain ⟨s', hs', rfl⟩ := Option.map_eq_some_iff.mp hstep
      exact ⟨ih.1.step hG hs', ih.2.step ih.1 hG hs'⟩

theorem onFileOnly_of_covering {e : Event} (h : coveringEvents dir root name t e) :
    onFileOnly dir root name t e := by
  cases e with
  | call l => exact h.1
  | restart => trivial

/-- What holds in every run in which the lengths cover the file. -/
theorem covered_of_reachable
    (hdisk : Within root name disk (size disk (fullFilePath root name)))
    (hr : (lifeSystem root name disk).Reachable (coveringEvents dir root name) t) :
    Covered root name t.process t.reach := by
  induction hr with
  | init => exact .fresh hdisk
  | @step t t' e hr hG hstep ih =>
    cases e with
    | restart =>
      obtain rfl := Option.some.inj hstep
      exact .fresh ih.within
    | call l =>
      obtain ⟨s', hs', rfl⟩ := Option.map_eq_some_iff.mp hstep
      have honly := (known_of_reachable (hr.mono fun _ _ => onFileOnly_of_covering)).1
      exact ih.step honly hG.1 hG.2 hs'

/-- In every run on a file, restarts included, an open that succeeds has a length that is not below
those of the opens before it in the same process. -/
theorem open_length_grows (hr : (lifeSystem root name disk).Reachable (onFileOnly dir root name) t)
    {gtfs : Option ℕ} {f : ℕ}
    (hcall : gtfsOpenFile env gtfs name fileLength t.process = some (some f, s')) :
    tableLength name s' = some fileLength ∧ ∀ length ∈ t.lengths, length ≤ fileLength := by
  cases gtfs with
  | none => exact absurd (Prod.mk.inj (Option.some.inj hcall)).1 (by simp)
  | some g =>
    obtain ⟨dirname, -, hopening⟩ := gtfsOpenFile_cases hcall
    obtain ⟨hnew, hle⟩ := (tableLength_opening hopening).resolve_left (by simp)
    refine ⟨hnew, fun length hmem => ?_⟩
    obtain ⟨length', hmem', hlength⟩ := (known_of_reachable hr).2 length hmem
    exact Int.le_trans hlength (hle length' hmem')

/-- In every run on a file, restarts included, in which opens of the file cover what was synced to
it while it is not in the tables and syncs stay within the length in the tables: an open that
succeeds has a length that is neither below the size of the data file afterwards, nor below the
lengths with which the process opened the file before. The disk at the start may have a log of the
file, with writes that end within it. -/
theorem opening_never_shrinks (dir root name : Bytes) (disk : Disk)
    (hdisk : Within root name disk (size disk (fullFilePath root name)))
    (hr : (lifeSystem root name disk).Reachable (coveringEvents dir root name) t) (env : Env)
    (gtfs : Option ℕ) (fileLength : ℤ) (f : ℕ) (s' : Process)
    (hcall : gtfsOpenFile env gtfs name fileLength t.process = some (some f, s'))
    (hroot : env.root dir = root)
    (hcovers : covering dir name t (.openFile env gtfs name fileLength)) :
    (size s'.disk (fullFilePath root name) : ℤ) ≤ fileLength ∧
      ∀ length ∈ t.lengths, length ≤ fileLength := by
  have hrun := hr.mono fun _ _ => onFileOnly_of_covering
  obtain ⟨hnew, hlengths⟩ := open_length_grows hrun hcall
  have hstep : (system disk).step t.process (.openFile env gtfs name fileLength) = some s' := by
    show (gtfsOpenFile env gtfs name fileLength t.process).map Prod.snd = some s'
    rw [hcall, Option.map_some]
  have hcovered := (covered_of_reachable hdisk hr).step (known_of_reachable hrun).1
    (l := Label.openFile env gtfs name fileLength) ⟨hroot, rfl⟩ hcovers hstep
  have hsize := Int.ofNat_le.mpr hcovered.within.data
  exact ⟨Int.le_trans hsize (hcovered.known fileLength hnew), hlengths⟩

/-- Ten bytes of client memory, and the calls of a process in the directory of its files. -/
def tenBytes : Env := .quiet (ascii "/d") fun _ => ascii "0123456789"

/-- A process opens the file `a` with length 100 and syncs ten bytes to it. The next process opens
it with length 10. -/
theorem opening_never_shrinks_restart :
    ∃ t s', (lifeSystem (ascii "/d") (ascii "a") fun _ => none).Reachable
        (coveringEvents (ascii "/d") (ascii "/d") (ascii "a")) t ∧ t.reach = 10 ∧
      gtfsOpenFile tenBytes (some 0) (ascii "a") 10 t.process = some (some 0, s') ∧
      (size s'.disk (fullFilePath (ascii "/d") (ascii "a")) : ℤ) ≤ 10 := by
  have hdisk : Within (ascii "/d") (ascii "a") (fun _ => none) 0 :=
    ⟨le_rfl, fun _ hlog => absurd hlog (by simp)⟩
  have h₀ : (lifeSystem (ascii "/d") (ascii "a") fun _ => none).Reachable
      (coveringEvents (ascii "/d") (ascii "/d") (ascii "a")) ⟨fresh fun _ => none, [], 0⟩ := .init
  have h₁ := h₀.step (l := Event.call (.init tenBytes (ascii "/d"))) ⟨rfl, trivial⟩ rfl
  have h₂ := h₁.step (l := Event.call (.openFile tenBytes (some 0) (ascii "a") 100))
    ⟨⟨rfl, rfl⟩, fun _ => by decide⟩ rfl
  have h₃ := h₂.step (l := Event.call (.writeFile (some 0) (some 0) 0 10 0))
    ⟨trivial, trivial⟩ rfl
  -- the record of the ten bytes can be read back
  have hwrite : Decodable (fun _ => ascii "0123456789")
      ⟨ascii "a", 0, 10, 0, by decide, by decide⟩ := by
    decide
  have hcovers : ∀ length ∈ some (100 : ℤ), ((10 : ℕ) : ℤ) ≤ length := by decide
  have h₄ := h₃.step (l := Event.call (.syncWriteFile tenBytes (some 0)))
    ⟨rfl, fun i hi => Option.some.inj hi ▸ ⟨_, rfl, hwrite, hcovers⟩⟩ rfl
  -- the next process knows nothing of the file
  have h₅ := h₄.step (l := Event.restart) trivial rfl
  have h₆ := h₅.step (l := Event.call (.init tenBytes (ascii "/d"))) ⟨rfl, trivial⟩ rfl
  exact ⟨_, _, h₆, rfl, rfl, (opening_never_shrinks _ _ _ _ hdisk h₆ tenBytes (some 0) 10 0 _ rfl
    (Env.root_of_isAbsolute _ (by decide)) fun _ => Int.le_refl _).1⟩

/-- A process opens the file `a` with length 100 and syncs ten bytes to it. The next process opens
it with length 5, although the file has ten bytes. -/
theorem restart_forgets_length :
    ∃ t s', (lifeSystem (ascii "/d") (ascii "a") fun _ => none).Reachable
        (onFileOnly (ascii "/d") (ascii "/d") (ascii "a")) t ∧
      size t.process.disk (ascii "/d/a") = 10 ∧
      gtfsOpenFile tenBytes (some 0) (ascii "a") 5 t.process = some (some 0, s') ∧
      size s'.disk (ascii "/d/a") = 10 := by
  have hrun : ((lifeSystem (ascii "/d") (ascii "a") fun _ => none).guardedRun
      (onFileOnly (ascii "/d") (ascii "/d") (ascii "a"))
      (lifeSystem (ascii "/d") (ascii "a") fun _ => none).init
      [.call (.init tenBytes (ascii "/d")), .call (.openFile tenBytes (some 0) (ascii "a") 100),
        .call (.writeFile (some 0) (some 0) 0 10 0), .call (.syncWriteFile tenBytes (some 0)),
        .restart, .call (.init tenBytes (ascii "/d"))]).any
      (fun t => decide (size t.process.disk (ascii "/d/a") = 10) &&
        (gtfsOpenFile tenBytes (some 0) (ascii "a") 5 t.process).any fun result =>
          decide (result.1 = some 0 ∧ size result.2.disk (ascii "/d/a") = 10)) = true := by
    decide +kernel
  obtain ⟨t, hr, ht⟩ := System.Reachable.of_any hrun
  obtain ⟨hsize, hopen⟩ := Bool.and_eq_true_iff.mp ht
  obtain ⟨⟨res, s'⟩, hcall, hres⟩ := (Option.any_eq_true _ _).mp hopen
  obtain ⟨rfl, hsize'⟩ := of_decide_eq_true hres
  exact ⟨t, s', hr, of_decide_eq_true hsize, hcall, hsize'⟩

end Runs

end Lengths
end GTFS
end OSLab
