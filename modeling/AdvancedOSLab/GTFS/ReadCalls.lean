import AdvancedOSLab.GTFS.Abort
import AdvancedOSLab.GTFS.Read

/-!
# The reads of a process

The model of the reads keeps the writes themselves in its table, and has nothing of a process but
the one open file. A process has pointers to `write_t` objects, handles, and other files. This
module connects the two: `Shows` says that the pointers of a process lead to the writes of the
model. The four calls of the model are then those of the process (`Shows.step`, `Shows.read`), so
whatever the model reaches is what a process reaches that has opened the file (`exists_process`),
and the reads that the model records are the ones that this process gets.

The directory is given by an absolute path, and no system call fails.
-/

namespace OSLab
namespace GTFS
namespace Reads

open Text Bytes Process

/-- The file is file `f` of the process, in directory `g`. The objects of the process are the writes
that were issued, and the lists of its table point to those of the model. -/
structure Shows (dirname filename : Bytes) (g f : ℕ) (s : Process) (t : State) : Prop where
  gtfs : s.gtfs[g]? = some dirname
  file : ∃ file, s.files[f]? = some file ∧ file.filename = filename
  writes : s.writes = t.issued.map fun e => .ofWrite dirname e.write
  updates : ∀ name, (s.fileLogUpdatesMapping name).map (fun logs => logs.map (s.writes[·]?)) =
    (t.updates name).map fun ws => ws.map fun w => some (.ofWrite dirname w)
  disk : s.disk = t.disk

/-- The call of the process that a call of the model is. A read does not change the process. -/
def call (env : Env) (g f : ℕ) : Label → Option Process.Label
  | .write w => some (.writeFile (some g) (some f) w.offset w.length w.data)
  | .sync i => some (.syncWriteFile env (some i))
  | .abort i => some (.abortWriteFile (some i))
  | .read _ _ => none

variable {mem : ℕ → Bytes} {cwd dirname filename B : Bytes} {g f : ℕ} {s s' : Process}
  {t t' : State}

/-- The address that the search of the read model finds. -/
theorem findSome?_ofWrite (dirname : Bytes) (ws : List Write) (offset length : ℕ) :
    (ws.findSome? fun w => if (WriteT.ofWrite dirname w).offset = offset ∧
        (WriteT.ofWrite dirname w).length = length then some w.data else none) =
      (recordFor ws offset length).map Write.data := by
  induction ws with
  | nil => rfl
  | cons w ws ih =>
    rw [List.findSome?_cons, ih, recordFor, recordFor, List.find?_cons]
    simp only [WriteT.ofWrite_offset, WriteT.ofWrite_length, Int.natCast_inj]
    by_cases hw : w.offset = offset ∧ w.length = length
    · simp [hw]
    · simp [hw]

namespace Shows

/-- The list of a file, where one that is not in the table is empty. -/
theorem pointers (h : Shows dirname filename g f s t) (name : Bytes) :
    ((s.fileLogUpdatesMapping name).getD []).map (s.writes[·]?) =
      ((t.updates name).getD []).map fun w => some (.ofWrite dirname w) := by
  have hlogs := Option.getD_map (fun logs : List ℕ => logs.map (s.writes[·]?)) []
    (s.fileLogUpdatesMapping name)
  have hws := Option.getD_map
    (fun ws : List Write => ws.map fun w => some (WriteT.ofWrite dirname w)) [] (t.updates name)
  exact hlogs.symm.trans ((congrArg (Option.getD · []) (h.updates name)).trans hws)

/-- **Reads.** `gtfs_read_file` of the process is that of the model. -/
theorem read (h : Shows dirname filename g f s t) (hdirname : isAbsolute dirname = true)
    {offset length : ℕ} (hrange : (offset + length : ℤ) ≤ intMax) :
    Process.gtfsReadFile (.quiet cwd mem) (some g) (some f) offset length s =
      some (GTFS.gtfsReadFile mem dirname filename t.updates t.disk offset length) := by
  obtain ⟨file, hfile, rfl⟩ := h.file
  -- the first pointer to a write of the range leads to the record that the model finds
  have hhead : (s.pendingData file.filename offset length).head? =
      (recordFor ((t.updates file.filename).getD []) offset length).map Write.data := by
    have hdata := congrArg (List.findSome? fun log : Option WriteT => log.bind fun log =>
      if log.offset = offset ∧ log.length = length then some log.data else none)
      (h.pointers file.filename)
    rw [List.findSome?_map, List.findSome?_map] at hdata
    rw [pendingData, List.head?_filterMap, ← findSome?_ofWrite dirname]
    exact hdata
  rw [gtfsReadFile_eq (Int.natCast_nonneg length) h.gtfs hfile, hhead,
    Env.root_of_isAbsolute _ hdirname, h.disk]
  unfold GTFS.gtfsReadFile
  cases hrecord : recordFor ((t.updates file.filename).getD []) offset length with
  | some w =>
    have hw := List.find?_some hrecord
    obtain ⟨-, rfl⟩ : w.offset = offset ∧ w.length = length := by simpa using hw
    rfl
  | none =>
    cases hdisk : t.disk (fullFilePath dirname file.filename) with
    | none => rfl
    | some c =>
      have hoffset : (c.length : ℤ) < offset ↔ c.length < offset := Int.ofNat_lt
      have hend : (c.length : ℤ) < offset + length ↔ c.length < offset + length := by omega
      simp only [Option.map_none, Option.elim_none, readDataFile,
        if_neg (Int.not_lt.mpr hrange), if_neg (Int.not_lt.mpr (Int.natCast_nonneg offset)),
        Int.toNat_natCast, hoffset, hend]
      split_ifs <;> rfl

/-- The pointers lead to objects. -/
theorem pendingValid (h : Shows dirname filename g f s t) : PendingValid s := by
  intro name i hi
  have hmem : s.writes[i]? ∈ ((t.updates name).getD []).map fun w => some (.ofWrite dirname w) := by
    rw [← h.pointers name]
    exact List.mem_map_of_mem hi
  obtain ⟨w, -, hw⟩ := List.mem_map.mp hmem
  exact (List.getElem?_eq_some_iff.mp hw.symm).1

/-- **Writes.** The new object is that of the write, and the list of the file gets it. -/
theorem write (h : Shows dirname filename g f s t) {w : Write} (hw : w.filename = filename) :
    ∃ s', Process.gtfsWriteFile (some g) (some f) w.offset w.length w.data s =
        some (some s.writes.length, s') ∧
      Shows dirname filename g f s' { t with
        updates := GTFS.gtfsWriteFile w t.updates
        issued := t.issued ++ [⟨w, false, false⟩] } := by
  obtain ⟨file, hfile, hname⟩ := h.file
  have hfilename : file.filename = w.filename := hname.trans hw.symm
  refine ⟨s.addWrite (.ofWrite dirname w), ?_, h.gtfs, ⟨file, hfile, hname⟩, ?_, fun name => ?_,
    h.disk⟩
  · simp only [Process.gtfsWriteFile, h.gtfs, hfile, Option.bind_eq_bind, Option.bind_some,
      hfilename]
    rfl
  · show s.writes ++ [_] = _
    rw [h.writes, List.map_append, List.map_singleton]
  · show (Function.update s.fileLogUpdatesMapping w.filename
      (some ((s.fileLogUpdatesMapping w.filename).getD [] ++ [s.writes.length])) name).map
        (fun logs => logs.map ((s.writes ++ [WriteT.ofWrite dirname w])[·]?)) =
          (GTFS.gtfsWriteFile w t.updates name).map _
    -- the new object does not move those that the lists point to
    have hsame : ∀ name, ∀ logs ⊆ (s.fileLogUpdatesMapping name).getD [],
        logs.map ((s.writes ++ [WriteT.ofWrite dirname w])[·]?) = logs.map (s.writes[·]?) :=
      fun name logs hsub => List.map_congr_left fun i hi =>
        List.getElem?_append_left (h.pendingValid name i (hsub hi))
    unfold GTFS.gtfsWriteFile
    by_cases hn : name = w.filename
    · subst hn
      rw [Function.update_self, Function.update_self, Option.map_some, Option.map_some,
        List.map_append, List.map_append, ← h.pointers, hsame _ _ (List.Subset.refl _),
        List.map_singleton, List.map_singleton, List.getElem?_concat_length]
    · rw [Function.update_of_ne hn, Function.update_of_ne hn, ← h.updates name]
      cases hlogs : s.fileLogUpdatesMapping name with
      | none => rfl
      | some logs => exact congrArg some (hsame name logs (by rw [hlogs]; exact List.Subset.refl _))

/-- A mark on an issued write does not change its object. -/
theorem writes_set (h : Shows dirname filename g f s t) {i : ℕ} {e e' : Issued}
    (he : t.issued[i]? = some e) (hwrite : e'.write = e.write) :
    s.writes = (t.issued.set i e').map fun e => .ofWrite dirname e.write := by
  obtain ⟨hi, rfl⟩ := List.getElem?_eq_some_iff.mp he
  rw [h.writes, List.map_set, hwrite, ← List.map_set, List.set_getElem_self]

theorem getElem?_writes (h : Shows dirname filename g f s t) {i : ℕ} {e : Issued}
    (he : t.issued[i]? = some e) : s.writes[i]? = some (.ofWrite dirname e.write) := by
  rw [h.writes, List.getElem?_map, he, Option.map_some]

/-- **Syncs.** -/
theorem sync (h : Shows dirname filename g f s t) (hdirname : isAbsolute dirname = true) {i : ℕ}
    {e : Issued} (he : t.issued[i]? = some e) (e' : Issued) (hwrite : e'.write = e.write) :
    ∃ s', Process.gtfsSyncWriteFile (.quiet cwd mem) (some i) s =
        some ((GTFS.gtfsSyncWriteFile mem dirname e.write t.disk).1, s') ∧
      Shows dirname filename g f s' { t with
        disk := (GTFS.gtfsSyncWriteFile mem dirname e.write t.disk).2
        issued := t.issued.set i e'
        synced := t.synced ++ [e.write] } := by
  have hcall : Process.gtfsSyncWriteFile (.quiet cwd mem) (some i) s = _ :=
    gtfsSyncWriteFile_ofWrite hdirname (h.getElem?_writes he)
  rw [h.disk] at hcall
  exact ⟨_, hcall, h.gtfs, h.file, h.writes_set he hwrite, h.updates, rfl⟩

/-- The first pointer to an object like that of the write is at the place of the first write like
it. -/
theorem eraseP_pointers {logs : List ℕ} {ws : List Write} {w : Write}
    (hmap : logs.map (s.writes[·]?) = ws.map fun w => some (.ofWrite dirname w)) :
    (logs.eraseP fun log => (s.writes[log]?).any fun log => log.offset = (w.offset : ℤ) ∧
        log.length = (w.length : ℤ) ∧ log.data = w.data).map (s.writes[·]?) =
      (ws.eraseP fun log => log.offset = w.offset ∧ log.length = w.length ∧
        log.data = w.data).map fun w => some (.ofWrite dirname w) := by
  have herase := congrArg (List.eraseP fun log : Option WriteT => log.any fun log =>
    log.offset = (w.offset : ℤ) ∧ log.length = (w.length : ℤ) ∧ log.data = w.data) hmap
  rw [List.eraseP_map, List.eraseP_map] at herase
  simpa only [Function.comp_def, Option.any_some, WriteT.ofWrite_offset, WriteT.ofWrite_length,
    WriteT.ofWrite_data, Int.natCast_inj] using herase

/-- **Aborts.** The pointer that is taken out leads to the write that the model takes out. -/
theorem abort (h : Shows dirname filename g f s t) {i : ℕ} {e : Issued}
    (he : t.issued[i]? = some e) (e' : Issued) (hwrite : e'.write = e.write) :
    ∃ s', Process.gtfsAbortWriteFile (some i) s =
        some ((GTFS.gtfsAbortWriteFile e.write t.updates).1, s') ∧
      Shows dirname filename g f s' { t with
        updates := (GTFS.gtfsAbortWriteFile e.write t.updates).2
        issued := t.issued.set i e' } := by
  have hw := h.getElem?_writes he
  have hissued := h.writes_set he hwrite
  have hpointers := h.updates e.write.filename
  -- a file without a list of writes: both sides return -1 and change nothing
  cases hws : t.updates e.write.filename with
  | none =>
    rw [hws, Option.map_none, Option.map_eq_none_iff] at hpointers
    refine ⟨s, ?_, h.gtfs, h.file, hissued, ?_, h.disk⟩
    · simp [Process.gtfsAbortWriteFile, GTFS.gtfsAbortWriteFile, hw, hws, hpointers]
    · simp only [GTFS.gtfsAbortWriteFile, hws]
      exact h.updates
  | some ws =>
    rw [hws, Option.map_some] at hpointers
    obtain ⟨logs, hlogs, hmap⟩ := Option.map_eq_some_iff.mp hpointers
    -- the first pointer to a write of the same range and data is taken out
    have hcall : Process.gtfsAbortWriteFile (some i) s = some (0, { s with
        fileLogUpdatesMapping := Function.update s.fileLogUpdatesMapping e.write.filename
          (some (logs.eraseP fun log => (s.writes[log]?).any fun log =>
            log.offset = (e.write.offset : ℤ) ∧ log.length = (e.write.length : ℤ) ∧
              log.data = e.write.data)) }) := by
      simp only [Process.gtfsAbortWriteFile, hw, Option.bind_eq_bind, Option.bind_some,
        WriteT.ofWrite_filename, hlogs, WriteT.ofWrite_offset, WriteT.ofWrite_length,
        WriteT.ofWrite_data]
    simp only [GTFS.gtfsAbortWriteFile, hws]
    refine ⟨_, hcall, h.gtfs, h.file, hissued, fun name => ?_, h.disk⟩
    dsimp only
    -- only the list of this file is written
    by_cases hn : name = e.write.filename
    · subst hn
      rw [Function.update_self, Function.update_self, Option.map_some, Option.map_some]
      exact congrArg some (eraseP_pointers hmap)
    · rw [Function.update_of_ne hn, Function.update_of_ne hn]
      exact h.updates name

/-- Every step of the model is one of the process. -/
theorem step {disk : Disk} {l : Label} (h : Shows dirname filename g f s t) (cwd : Bytes)
    (disk' : Disk) (hdirname : isAbsolute dirname = true)
    (hstep : (readSystem mem dirname filename B disk).step t l = some t') :
    ∃ s', (call (.quiet cwd mem) g f l).elim (some s) ((system disk').step s) = some s' ∧
      Shows dirname filename g f s' t' := by
  cases l with
  | write w =>
    obtain ⟨⟨hw, -⟩, hstep⟩ := Option.ite_none_right_eq_some.mp hstep
    obtain rfl := Option.some.inj hstep
    obtain ⟨s', hcall, hs'⟩ := h.write hw
    exact ⟨s', Option.map_eq_some_iff.mpr ⟨_, hcall, rfl⟩, hs'⟩
  | sync i =>
    obtain ⟨e, he, hstep⟩ := Option.bind_eq_some_iff.mp hstep
    obtain rfl := Option.some.inj hstep
    obtain ⟨s', hcall, hs'⟩ := h.sync hdirname he { e with synced := true } rfl
    exact ⟨s', Option.map_eq_some_iff.mpr ⟨_, hcall, rfl⟩, hs'⟩
  | abort i =>
    obtain ⟨e, he, hstep⟩ := Option.bind_eq_some_iff.mp hstep
    obtain ⟨-, hstep⟩ := Option.ite_none_left_eq_some.mp hstep
    obtain rfl := Option.some.inj hstep
    obtain ⟨s', hcall, hs'⟩ := h.abort he { e with aborted := true } rfl
    exact ⟨s', Option.map_eq_some_iff.mpr ⟨_, hcall, rfl⟩, hs'⟩
  -- a read is no step of the process: it leaves everything as it is
  | read offset length =>
    obtain rfl := Option.some.inj hstep
    exact ⟨s, rfl, h.gtfs, h.file, h.writes, h.updates, h.disk⟩

/-- A process that has not written yet, and has just opened the file. -/
theorem opened {env : Env} {fileLength : ℤ} (hg : s.gtfs[g]? = some dirname)
    (hwrites : s.writes = []) (hlogs : s.fileLogUpdatesMapping = fun _ => none)
    (hnew : s.filenameFileMapping filename = none)
    (hopen : gtfsOpenFile env (some g) filename fileLength s = some (some f, s')) :
    Shows dirname filename g f s' (readSystem mem dirname filename B s'.disk).init := by
  obtain ⟨dirname', hdirname', hopening⟩ := gtfsOpenFile_cases hopen
  cases hopening with
  | known _ hknown => exact absurd (hnew.symm.trans hknown) (by simp)
  | recovered =>
    refine ⟨hg, ⟨_, List.getElem?_concat_length, rfl⟩, hwrites, fun name => ?_, rfl⟩
    have hnone : Function.update s.fileLogUpdatesMapping filename none name = none := by
      rw [hlogs, Function.update_eq_self_iff.mpr rfl]
    exact congrArg (Option.map _) hnone

end Shows

/-- **The model of the reads is that of a process.** Let a process that has not written yet open a
file. Every state that the model of the reads reaches from this disk is then shown by one that the
process reaches by calls of the API. -/
theorem exists_process {env : Env} {fileLength : ℤ} {G : State → Label → Prop}
    (hdirname : isAbsolute dirname = true) (hg : s.gtfs[g]? = some dirname)
    (hwrites : s.writes = []) (hlogs : s.fileLogUpdatesMapping = fun _ => none)
    (hnew : s.filenameFileMapping filename = none)
    (hopen : gtfsOpenFile env (some g) filename fileLength s = some (some f, s'))
    (hr : (readSystem mem dirname filename B s'.disk).Reachable G t) :
    ∃ s₁, ((system s'.disk).startingAt s').Reachable System.anyStep s₁ ∧
      Shows dirname filename g f s₁ t := by
  induction hr with
  | init => exact ⟨s', .init, .opened hg hwrites hlogs hnew hopen⟩
  | @step t t' l _ _ hstep ih =>
    obtain ⟨s₁, hs₁, hshows⟩ := ih
    obtain ⟨s₂, hcall, hshows'⟩ := hshows.step [] s'.disk hdirname hstep
    cases hl : call (.quiet [] mem) g f l with
    | none =>
      rw [hl] at hcall
      exact ⟨s₁, hs₁, Option.some.inj hcall ▸ hshows'⟩
    | some l' =>
      rw [hl] at hcall
      exact ⟨s₂, .step hs₁ trivial hcall, hshows'⟩

end Reads
end GTFS
end OSLab
