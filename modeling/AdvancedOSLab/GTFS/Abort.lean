import AdvancedOSLab.GTFS.Calls

/-!
# Taking a write back

`gtfs_write_file` puts a `write_t` at the end of the list of its file, `gtfs_abort_write_file` takes
one out, and `gtfs_read_file` answers from the first one in the list that has the offset and the
length of the read. The abort does not look for the object it is given: it takes out the *first*
object with the same offset, length and address of the data.

So a write that is aborted at once can leave the list in another order. If the first write of the
range has the address of the new one, that one is taken out instead, and the read is answered by
whatever comes next in the list: by the new write if nothing does, which is the same data, or by a
write of other data (`abort_uncovers_other_data`). `abort_undoes_write_iff` says that nothing else
goes wrong.

A read only sees the addresses `pendingData` of the writes of its range. One write and one abort of
it take this list `l` to `(l ++ [data]).erase data`, and leave the list of every other file and
range as it is.
-/

namespace OSLab
namespace GTFS
namespace Process

open Text Bytes

variable {env : Env} {s s' : Process}

/-- The addresses of the data of the writes of a file with the given offset and length, in the order
of the calls. -/
def pendingData (s : Process) (filename : Bytes) (offset length : ℤ) : List ℕ :=
  ((s.fileLogUpdatesMapping filename).getD []).filterMap (dataAt s.writes offset length)

/-- The lists of writes hold objects. -/
def PendingValid (s : Process) : Prop :=
  ∀ filename, ∀ write ∈ (s.fileLogUpdatesMapping filename).getD [], write < s.writes.length

/-- `gtfs_write_file` and then `gtfs_abort_write_file` on its result. -/
def writeThenAbort (gtfs fl : Option ℕ) (offset length : ℤ) (data : ℕ) (s : Process) :
    Option Process := do
  let (write, s) ← gtfsWriteFile gtfs fl offset length data s
  let (_, s) ← gtfsAbortWriteFile write s
  some s

/-- The two calls leave the result of every read unchanged. -/
def Undoes (env : Env) (gtfs fl : Option ℕ) (offset length : ℤ) (data : ℕ) (s : Process) : Prop :=
  ∃ s', writeThenAbort gtfs fl offset length data s = some s' ∧
    ∀ gtfs fl offset length,
      gtfsReadFile env gtfs fl offset length s' = gtfsReadFile env gtfs fl offset length s

/-! ### What a read sees -/

/-- The answer to a read of a file: the first address of its range, or the data file. -/
theorem gtfsReadFile_eq {g f : ℕ} {offset length : ℤ} {dirname : Bytes} {file : FileT}
    (hlength : 0 ≤ length) (hg : s.gtfs[g]? = some dirname) (hf : s.files[f]? = some file) :
    gtfsReadFile env (some g) (some f) offset length s =
      (s.pendingData file.filename offset length).head?.elim
        (readDataFile (s.disk (fullFilePath (env.root dirname) file.filename)) offset length)
        fun data => some (some ((env.mem data).take length.toNat)) := by
  unfold gtfsReadFile pendingData
  rw [if_neg (Int.not_lt.mpr hlength), List.head?_filterMap]
  dsimp only
  rewrite [hg, hf, Option.bind_eq_bind, Option.bind_some, Option.bind_eq_bind, Option.bind_some]
  cases ((s.fileLogUpdatesMapping file.filename).getD []).findSome?
      (dataAt s.writes offset length) with
  | none => rfl
  | some data => rfl

/-- A read only depends on the name of the file, the first address of its range and the contents of
the data file. -/
theorem gtfsReadFile_congr {gtfs fl : Option ℕ} {offset length : ℤ}
    (hgtfs : s'.gtfs = s.gtfs)
    (hname : ∀ f, fl = some f →
      (s'.files[f]?).map FileT.filename = (s.files[f]?).map FileT.filename)
    (h : ∀ f file, fl = some f → s.files[f]? = some file →
      (((s'.pendingData file.filename offset length).head?.map fun data =>
          (env.mem data).take length.toNat) =
        (s.pendingData file.filename offset length).head?.map fun data =>
          (env.mem data).take length.toNat) ∧
      ∀ dirname ∈ s.gtfs, s'.disk (fullFilePath (env.root dirname) file.filename) =
        s.disk (fullFilePath (env.root dirname) file.filename)) :
    gtfsReadFile env gtfs fl offset length s' = gtfsReadFile env gtfs fl offset length s := by
  by_cases hlength : length < 0
  · unfold gtfsReadFile
    rw [if_pos hlength, if_pos hlength]
  cases gtfs with
  | none => rfl
  | some g =>
    cases fl with
    | none => rfl
    | some f =>
      replace hname := hname f rfl
      cases hg : s.gtfs[g]? with
      | none => simp [gtfsReadFile, hlength, hgtfs, hg]
      | some dirname =>
        cases hf : s.files[f]? with
        | none =>
          rw [hf, Option.map_none, Option.map_eq_none_iff] at hname
          simp [gtfsReadFile, hlength, hgtfs, hg, hf, hname]
        | some file =>
          rw [hf, Option.map_some, Option.map_eq_some_iff] at hname
          obtain ⟨file', hf', hfile'⟩ := hname
          obtain ⟨hhead, hdisk⟩ := h f file rfl hf
          rw [gtfsReadFile_eq (Int.not_lt.mp hlength) hg hf,
            gtfsReadFile_eq (Int.not_lt.mp hlength) (hgtfs ▸ hg) hf', hfile',
            hdisk dirname (List.mem_of_getElem? hg)]
          -- the same bytes, or the data file in both states
          cases hdata : (s.pendingData file.filename offset length).head? with
          | none =>
            rw [hdata, Option.map_none, Option.map_eq_none_iff] at hhead
            rw [hhead]
          | some data =>
            rw [hdata, Option.map_some, Option.map_eq_some_iff] at hhead
            obtain ⟨data', hdata', hbytes⟩ := hhead
            rw [hdata']
            exact congrArg (fun bytes => some (some bytes)) hbytes

/-! ### The effect of the two calls on the list of a range -/

theorem dataAt_append {writes : List WriteT} {i : ℕ} (hi : i < writes.length) (w : WriteT)
    (offset length : ℤ) :
    dataAt (writes ++ [w]) offset length i = dataAt writes offset length i := by
  unfold dataAt
  rw [List.getElem?_append_left hi]

/-- A new write is behind the others of its range, and in no other list. -/
theorem pendingData_addWrite (hs : PendingValid s) (w : WriteT) (filename : Bytes)
    (offset length : ℤ) :
    (s.addWrite w).pendingData filename offset length = s.pendingData filename offset length ++
      if filename = w.filename ∧ w.offset = offset ∧ w.length = length then [w.data] else [] := by
  -- the old pointers lead to the same objects as before
  have hold : ((s.fileLogUpdatesMapping filename).getD []).filterMap
      (dataAt (s.writes ++ [w]) offset length) = s.pendingData filename offset length :=
    List.filterMap_congr fun i hi => dataAt_append (hs filename i hi) w offset length
  unfold pendingData addWrite
  dsimp only
  by_cases hfile : filename = w.filename
  · subst hfile
    have hnew : dataAt (s.writes ++ [w]) offset length s.writes.length =
        if w.offset = offset ∧ w.length = length then some w.data else none := by
      simp [dataAt]
    rw [Function.update_self, Option.getD_some, List.filterMap_append, hold]
    -- the new write counts if it is of the same range
    by_cases hrange : w.offset = offset ∧ w.length = length
    · rw [if_pos hrange] at hnew
      rw [if_pos ⟨rfl, hrange⟩, List.filterMap_cons_some hnew]
      rfl
    · rw [if_neg hrange] at hnew
      rw [if_neg fun h => hrange h.2, List.filterMap_cons_none hnew]
      rfl
  · rw [Function.update_of_ne hfile, hold, if_neg fun h => hfile h.1, List.append_nil]
    rfl

/-- Elements that are not mapped can be taken out of the list before. -/
theorem filterMap_eraseP {α β : Type} {f : α → Option β} {p : α → Bool} {l : List α}
    (h : ∀ a, p a = true → f a = none) : (l.eraseP p).filterMap f = l.filterMap f := by
  rcases List.exists_or_eq_self_of_eraseP p l with heq | ⟨a, l₁, l₂, -, ha, hl, heq⟩
  · rw [heq]
  · rw [heq, hl, List.filterMap_append, List.filterMap_append, List.filterMap_cons_none (h a ha)]

/-- An abort takes the first address that is that of the write out of the list of its range, and
leaves every other list as it is. -/
theorem pendingData_abort {i : ℕ} {ret : ℤ} {w : WriteT} (hw : s.writes[i]? = some w)
    (h : gtfsAbortWriteFile (some i) s = some (ret, s')) (filename : Bytes) (offset length : ℤ) :
    s'.pendingData filename offset length =
      if filename = w.filename ∧ w.offset = offset ∧ w.length = length then
        (s.pendingData filename offset length).erase w.data
      else s.pendingData filename offset length := by
  rcases gtfsAbortWriteFile_cases h with ⟨rfl, hnone⟩ | ⟨j, w', logs, hj, hw', hlogs, rfl⟩
  · split
    · next hfile =>
      rw [pendingData, hfile.1, hnone i w rfl hw]
      rfl
    · rfl
  · obtain rfl := Option.some.inj hj
    obtain rfl := Option.some.inj (hw.symm.trans hw')
    by_cases hfile : filename = w.filename
    · subst hfile
      simp only [pendingData, Function.update_self, Option.getD_some, hlogs, true_and]
      by_cases hrange : w.offset = offset ∧ w.length = length
      · obtain ⟨rfl, rfl⟩ := hrange
        rw [if_pos ⟨rfl, rfl⟩, List.erase_eq_eraseP, List.eraseP_filterMap]
        refine congrArg (List.filterMap _) (congrArg (List.eraseP · logs) ?_)
        -- in the range of the write, the same data is all that is left to compare
        funext log
        unfold dataAt
        cases s.writes[log]? with
        | none => rfl
        | some v =>
          by_cases hv : v.offset = w.offset ∧ v.length = w.length
          · simp [hv, eq_comm, beq_eq_decide]
          · simp [hv, ← and_assoc]
      · -- the record that is taken out is of another range
        rw [if_neg hrange]
        refine filterMap_eraseP fun log hlog => ?_
        obtain ⟨v, hv, hsame⟩ := (Option.any_eq_true _ _).mp hlog
        obtain ⟨hoffset, hlength, -⟩ := of_decide_eq_true hsame
        unfold dataAt
        rw [hv, Option.bind_eq_bind, Option.bind_some, hoffset, hlength, if_neg hrange]
    · rw [if_neg fun h => hfile h.1]
      simp only [pendingData, Function.update_of_ne hfile]

/-! ### The lists hold objects -/

/-- No list of writes has a new element, and no object is made. -/
def Shrinks (s s' : Process) : Prop :=
  s'.writes = s.writes ∧ ∀ filename,
    (s'.fileLogUpdatesMapping filename).getD [] ⊆ (s.fileLogUpdatesMapping filename).getD []

theorem Shrinks.of_eq (hwrites : s'.writes = s.writes)
    (hlogs : s'.fileLogUpdatesMapping = s.fileLogUpdatesMapping) : Shrinks s s' :=
  ⟨hwrites, fun _ => hlogs ▸ List.Subset.refl _⟩

theorem Shrinks.of_update {filename : Bytes} {logs : Option (List ℕ)}
    (hwrites : s'.writes = s.writes)
    (hlogs : s'.fileLogUpdatesMapping = Function.update s.fileLogUpdatesMapping filename logs)
    (hsub : logs.getD [] ⊆ (s.fileLogUpdatesMapping filename).getD []) : Shrinks s s' := by
  refine ⟨hwrites, fun filename' => ?_⟩
  rw [hlogs]
  by_cases hname : filename' = filename
  · subst hname
    rw [Function.update_self]
    exact hsub
  · rw [Function.update_of_ne hname]
    exact List.Subset.refl _

theorem PendingValid.of_shrinks (hs : PendingValid s) (h : Shrinks s s') : PendingValid s' :=
  fun filename i hi => h.1 ▸ hs filename i (h.2 filename hi)

theorem PendingValid.addWrite (hs : PendingValid s) (w : WriteT) :
    PendingValid (s.addWrite w) := by
  intro filename i hi
  have hlt : (s.addWrite w).writes.length = s.writes.length + 1 := List.length_append
  rw [hlt]
  by_cases hname : filename = w.filename
  · subst hname
    have hi' : i ∈ (s.fileLogUpdatesMapping w.filename).getD [] ++ [s.writes.length] := by
      simpa [Process.addWrite] using hi
    rcases List.mem_append.mp hi' with hold | hnew
    · exact Nat.lt_succ_of_lt (hs _ i hold)
    · rw [List.mem_singleton.mp hnew]
      exact Nat.lt_succ_self _
  · have hold : i ∈ (s.fileLogUpdatesMapping filename).getD [] := by
      simpa [Process.addWrite, Function.update_of_ne hname] using hi
    exact Nat.lt_succ_of_lt (hs filename i hold)

/-- A step makes one write at most, and every other step leaves the objects as they are. -/
theorem step_shrinks_or_adds {disk : Disk} {l : Label} (hstep : (system disk).step s l = some s') :
    Shrinks s s' ∨ ∃ dirname ∈ s.gtfs, ∃ file ∈ s.files, ∃ offset length data,
      s' = s.addWrite (newWrite dirname file.filename offset length data) := by
  cases step_effect hstep with
  -- `gtfs_write_file` is the only call that makes an object
  | writeFile hdirname hfile =>
    exact .inr ⟨_, hdirname, _, List.mem_of_getElem? hfile, _, _, _, rfl⟩
  | nothing | init | closeFile | others => exact .inl (.of_eq rfl rfl)
  | openFile hdirname hopening =>
    cases hopening with
    | refused | notLocked | tooShort | known | notRecovered => exact .inl (.of_eq rfl rfl)
    | recovered => exact .inl (.of_update rfl rfl (List.nil_subset _))
  | removeFile hdirname hfile hremoval =>
    cases hremoval with
    | refused | logStays => exact .inl (.of_eq rfl rfl)
    | removed => exact .inl (.of_update rfl rfl (List.nil_subset _))
  | syncWriteFile hw hsyncing =>
    cases hsyncing with
    | refused | notLocked | onlyLogged | synced => exact .inl (.of_eq rfl rfl)
  | abortWriteFile hw hlogs =>
    -- an abort takes one pointer out of the list of its file
    refine .inl (.of_update rfl rfl ?_)
    rw [hlogs]
    exact List.eraseP_subset
  | clean hdirname hloop hlogs =>
    rcases hlogs with rfl | rfl
    · exact .inl (.of_eq rfl rfl)
    · exact .inl ⟨rfl, fun _ => List.nil_subset _⟩

/-- The lists hold objects in every state that a process can reach. -/
theorem pendingValid_of_reachable {disk : Disk} {G : Process → Label → Prop}
    (hr : (system disk).Reachable G s) : PendingValid s := by
  have h₀ : PendingValid (fresh disk) := fun _ _ hi => absurd hi List.not_mem_nil
  refine hr.invariant h₀ fun s l s' _ hs _ hstep => ?_
  rcases step_shrinks_or_adds hstep with h | ⟨dirname, -, file, -, offset, length, data, rfl⟩
  · exact hs.of_shrinks h
  · exact hs.addWrite _

/-! ### A write and its abort -/

/-- When the first element of a list looks the same after an element has been put behind it and its
first occurrence has been taken out. -/
theorem head?_erase_concat_iff {α β : Type} [DecidableEq α] (f : α → β) (l : List α) (a : α) :
    ((l ++ [a]).erase a).head?.map f = l.head?.map f ↔
      ¬ ∃ b rest, l = a :: b :: rest ∧ f b ≠ f a := by
  cases l with
  | nil => simp
  | cons x l =>
    by_cases hx : x = a
    · subst hx
      rw [List.cons_append, List.erase_cons_head]
      cases l with
      | nil => simp
      | cons b rest => simp
    · have htail : ((x :: l) ++ [a]).erase a = x :: (l ++ [a]).erase a :=
        List.erase_cons_tail (by simpa using hx)
      rw [htail]
      simp [hx]

theorem writeThenAbort_eq {g f : ℕ} {dirname : Bytes} {file : FileT} (offset length : ℤ)
    (data : ℕ) (hg : s.gtfs[g]? = some dirname) (hf : s.files[f]? = some file) :
    ∃ s', writeThenAbort (some g) (some f) offset length data s = some s' ∧
      gtfsAbortWriteFile (some s.writes.length)
        (s.addWrite (newWrite dirname file.filename offset length data)) = some (0, s') := by
  have hwrite : gtfsWriteFile (some g) (some f) offset length data s =
      some (some s.writes.length,
        s.addWrite (newWrite dirname file.filename offset length data)) := by
    simp only [gtfsWriteFile, hg, hf, Option.bind_eq_bind, Option.bind_some]
    rfl
  have hnew : (s.addWrite (newWrite dirname file.filename offset length data)).writes[
      s.writes.length]? = some (newWrite dirname file.filename offset length data) :=
    List.getElem?_concat_length
  -- the write is in the list of its file, so the abort finds a list
  obtain ⟨logs, hlogs⟩ : ∃ logs,
      (s.addWrite (newWrite dirname file.filename offset length data)).fileLogUpdatesMapping
        (newWrite dirname file.filename offset length data).filename = some logs :=
    ⟨_, Function.update_self ..⟩
  have habort : ∃ s', gtfsAbortWriteFile (some s.writes.length)
      (s.addWrite (newWrite dirname file.filename offset length data)) = some (0, s') := by
    simp only [gtfsAbortWriteFile, hnew, hlogs, Option.bind_eq_bind, Option.bind_some]
    exact ⟨_, rfl⟩
  obtain ⟨s', hs'⟩ := habort
  refine ⟨s', ?_, hs'⟩
  simp only [writeThenAbort, hwrite, Option.bind_eq_bind, Option.bind_some, hs']

/-- **When an abort undoes the write.** For every list of writes of the file, whatever offsets,
lengths and addresses they have: after a write and its abort every read of every file gives what it
gave before, except if the first write of the range has the address of the aborted one and the next
one of the range has other data. -/
theorem abort_undoes_write_iff (env : Env) (s : Process) (g f : ℕ) (offset length : ℤ) (data : ℕ)
    (dirname : Bytes) (file : FileT) (hs : PendingValid s) (hg : s.gtfs[g]? = some dirname)
    (hf : s.files[f]? = some file) :
    Undoes env (some g) (some f) offset length data s ↔
      ¬ ∃ next rest, s.pendingData file.filename offset length = data :: next :: rest ∧
        (env.mem next).take length.toNat ≠ (env.mem data).take length.toNat := by
  obtain ⟨s', hcalls, habort⟩ := writeThenAbort_eq offset length data hg hf
  obtain ⟨hgtfs, hfiles, hdisk⟩ : s'.gtfs = s.gtfs ∧ s'.files = s.files ∧ s'.disk = s.disk := by
    rcases gtfsAbortWriteFile_cases habort with ⟨rfl, -⟩ | ⟨i, w, logs, -, -, -, rfl⟩
    · exact ⟨rfl, rfl, rfl⟩
    · exact ⟨rfl, rfl, rfl⟩
  -- of all lists that a read can see, the calls change that of the range of the write
  have hsame : s'.pendingData file.filename offset length =
      (s.pendingData file.filename offset length ++ [data]).erase data := by
    rw [pendingData_abort List.getElem?_concat_length habort, if_pos ⟨rfl, rfl, rfl⟩,
      pendingData_addWrite hs, if_pos ⟨rfl, rfl, rfl⟩]
    rfl
  have hother : ∀ filename offset' length',
      ¬ (filename = file.filename ∧ offset = offset' ∧ length = length') →
      s'.pendingData filename offset' length' = s.pendingData filename offset' length' := by
    intro filename offset' length' hne
    rw [pendingData_abort List.getElem?_concat_length habort, pendingData_addWrite hs]
    simp only [newWrite_filename, newWrite_offset, newWrite_length, if_neg hne, List.append_nil]
  have hiff := head?_erase_concat_iff (fun data => (env.mem data).take length.toNat)
    (s.pendingData file.filename offset length) data
  rw [← hsame] at hiff
  constructor
  · rintro ⟨s'', hcalls', hreads⟩ ⟨next, rest, hlist, hne⟩
    obtain rfl := Option.some.inj (hcalls.symm.trans hcalls')
    -- a negative length has no bytes to differ in
    have hlength : 0 ≤ length := by
      by_contra hneg
      rw [Int.toNat_of_nonpos (by omega), List.take_zero, List.take_zero] at hne
      exact hne rfl
    -- the read of the range answered from the first write, and does from the next one now
    have hread := hreads (some g) (some f) offset length
    rw [gtfsReadFile_eq hlength hg hf,
      gtfsReadFile_eq hlength (hgtfs ▸ hg) (hfiles ▸ hf), hsame, hlist, List.cons_append,
      List.erase_cons_head] at hread
    exact hne (Option.some.inj (Option.some.inj hread))
  · intro hcond
    have hhead := hiff.mpr hcond
    refine ⟨s', hcalls, fun gtfs fl offset' length' => ?_⟩
    refine gtfsReadFile_congr hgtfs (fun f' _ => by rw [hfiles])
      fun f' file' _ _ => ⟨?_, fun _ _ => ?_⟩
    · by_cases hrange : file'.filename = file.filename ∧ offset = offset' ∧ length = length'
      · obtain ⟨hname, rfl, rfl⟩ := hrange
        rw [hname]
        exact hhead
      · rw [hother _ _ _ hrange]
    · rw [hdisk]

/-- The environment of the runs below: client memory has an `A` at the address 0 and a `B` at every
other one. -/
def lettersEnv : Env := .quiet [] fun data => if data = 0 then ascii "A" else ascii "B"

/-- A process that has opened `a` and written `A` to its first byte. -/
def oneWrite : List Label :=
  [.init lettersEnv (ascii "/d"), .openFile lettersEnv (some 0) (ascii "a") 10,
    .writeFile (some 0) (some 0) 0 1 0]

/-- A second write of the same data is undone. -/
theorem abort_undoes_write_again :
    ∃ s, (system fun _ => none).Reachable System.anyStep s ∧
      s.pendingData (ascii "a") 0 1 = [0] ∧ Undoes lettersEnv (some 0) (some 0) 0 1 0 s := by
  have hrun : ((system fun _ => none).guardedRun System.anyStep (system fun _ => none).init
      oneWrite).any (fun s => decide (s.pendingData (ascii "a") 0 1 = [0] ∧
        s.gtfs[0]? = some (ascii "/d") ∧ s.files[0]? = some ⟨ascii "a", 10, true⟩)) = true := by
    decide +kernel
  obtain ⟨s, hr, hs⟩ := System.Reachable.of_any hrun
  obtain ⟨hpending, hg, hf⟩ := of_decide_eq_true hs
  refine ⟨s, hr, hpending, (abort_undoes_write_iff lettersEnv s 0 0 0 1 0 (ascii "/d")
    ⟨ascii "a", 10, true⟩ (pendingValid_of_reachable hr) hg hf).mpr ?_⟩
  rintro ⟨next, rest, hlist, -⟩
  have hlen := congrArg List.length (hpending.symm.trans hlist)
  simp at hlen

/-- After `A` and `B` have been written to the first byte, a write of `A` and its abort change the
byte that is read from `A` to `B`. -/
theorem abort_uncovers_other_data :
    ∃ s, (system fun _ => none).Reachable System.anyStep s ∧
      gtfsReadFile lettersEnv (some 0) (some 0) 0 1 s = some (some (ascii "A")) ∧
      (writeThenAbort (some 0) (some 0) 0 1 0 s).bind
        (gtfsReadFile lettersEnv (some 0) (some 0) 0 1) = some (some (ascii "B")) ∧
      ¬ Undoes lettersEnv (some 0) (some 0) 0 1 0 s := by
  have hrun : ((system fun _ => none).guardedRun System.anyStep (system fun _ => none).init
      (oneWrite ++ [.writeFile (some 0) (some 0) 0 1 1])).any (fun s => decide (
        gtfsReadFile lettersEnv (some 0) (some 0) 0 1 s = some (some (ascii "A")) ∧
        (writeThenAbort (some 0) (some 0) 0 1 0 s).bind
          (gtfsReadFile lettersEnv (some 0) (some 0) 0 1) = some (some (ascii "B")))) = true := by
    decide +kernel
  obtain ⟨s, hr, hs⟩ := System.Reachable.of_any hrun
  obtain ⟨hbefore, hafter⟩ := of_decide_eq_true hs
  refine ⟨s, hr, hbefore, hafter, ?_⟩
  rintro ⟨s', hcalls, hreads⟩
  rw [hcalls, Option.bind_some, hreads, hbefore] at hafter
  exact absurd hafter (by decide)

end Process
end GTFS
end OSLab
