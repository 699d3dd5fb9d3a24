import AdvancedOSLab.GTFS.Recovery

/-!
# The order of the log and the order of the data

Several processes run `gtfs_sync_write_file` on writes to the same file. A call has two
critical sections: it appends its record under the lock of the log, releases that lock,
and then writes its bytes under the lock of the data file. Between the two sections other
processes may enter either of them.

The redo log is only good if replaying it after everything has returned changes nothing,
that is, if of two overlapping writes the one that is later in the log is the one that is
visible in the file. `inverted_sections_are_redone` shows that this fails: the second of
two records may have its bytes written first.

`log_order_is_data_order` says when it holds: a call writes its bytes only while no record
behind its own, with the bytes already in the file, disagrees with it. The invariant
(`Ordered`) is that the data file is the overlay of the records already written, *in the
order of the log*. A new write is inserted at its place in the log by moving it past the
later ones, which is what agreement allows (`Patch.apply_applyAll`).
-/

namespace OSLab
namespace GTFS
namespace LogOrder

open Text Bytes

/-! ### The system -/

/-- A call of `gtfs_sync_write_file` that has appended its record. -/
structure Call where
  process : ℕ
  write : Write
  /-- The bytes are in the data file, and the call has returned. -/
  written : Bool

/-- The disk, and the calls in the order of their records. -/
structure State where
  disk : Disk
  calls : List Call

inductive Label where
  /-- A call of the process appends its record under the lock of the log. -/
  | append (process : ℕ) (w : Write)
  /-- The call of the process writes its bytes under the lock of the data file. -/
  | finish (process : ℕ)

/-- The call that the process is in the middle of. -/
def Call.underWay (process : ℕ) (c : Call) : Bool := c.process = process && !c.written

section

variable (mem : ℕ → Bytes) (dirname filename : Bytes)

/-- Any number of processes, on one file of one directory. -/
def syncSystem (disk : Disk) : System State Label where
  init := ⟨disk, []⟩
  step s
    | .append process w =>
      -- a process runs one call at a time
      if w.filename = filename ∧ s.calls.all fun c => !c.underWay process then
        some
          { disk := appendLog mem dirname w s.disk
            calls := s.calls ++ [⟨process, w, false⟩] }
      else none
    | .finish process => do
      let i ← s.calls.findIdx? (Call.underWay process)
      let c ← s.calls[i]?
      some
        { disk := writeData mem dirname c.write c.write.length s.disk
          calls := s.calls.set i { c with written := true } }

/-- All calls have returned. -/
def State.Returned (s : State) : Prop := ∀ c ∈ s.calls, c.written = true

/-- The bytes of a call as a patch of the data file. -/
def Call.patch (c : Call) : Patch UInt8 := c.write.patch mem

/-- Replaying the log changes nothing, and every byte that is covered by a record shows
the last of them. -/
structure LogDecides (s : State) : Prop where
  unchanged : syncLogToFile dirname (fullFilePath dirname filename)
    (fullLogPath dirname filename) s.disk = some (0, s.disk)
  visible : ∀ content, s.disk (fullFilePath dirname filename) = some content →
    ∀ i p, Patch.lastCover (s.calls.map (Call.patch mem)) i = some p →
      content.getD i 0 = p.entry 0 i

/-- The writes can be decoded. -/
def decodable (_ : State) : Label → Prop
  | .append _ w => Decodable mem w
  | .finish _ => True

/-- The writes can be decoded, and a call writes its bytes only while no later record whose
bytes are in the file disagrees with it. -/
def notOvertaken (s : State) : Label → Prop
  | .append _ w => Decodable mem w
  | .finish process =>
    ∀ i ∈ s.calls.findIdx? (Call.underWay process), ∀ c ∈ s.calls[i]?,
      ∀ c' ∈ s.calls.drop (i + 1), c'.written = true →
        (c.patch mem).AgreesWith 0 (c'.patch mem)

end

/-! ### The invariant -/

section Invariant

variable {mem : ℕ → Bytes} {dirname filename B : Bytes} {s s' : State} {process i : ℕ}
  {c : Call} {w : Write}

/-- The patches already in the data file, in the order of the log. -/
def inFile (mem : ℕ → Bytes) (calls : List Call) : List (Patch UInt8) :=
  (calls.filter Call.written).map (Call.patch mem)

/-- The log holds the records of all calls, and the data file is the overlay, in the order of
the log, of those that have written their bytes. -/
structure Ordered (mem : ℕ → Bytes) (dirname filename B : Bytes) (s : State) : Prop where
  log : s.disk (fullLogPath dirname filename) = some (logOf mem (s.calls.map Call.write))
  data : s.disk (fullFilePath dirname filename) = some (Patch.applyAll 0 (inFile mem s.calls) B)
  dec : ∀ c ∈ s.calls, Decodable mem c.write
  file : ∀ c ∈ s.calls, c.write.filename = filename

/-- The call of a process that is in the middle of one splits the list of calls. -/
theorem calls_eq_of_underWay (hi : s.calls.findIdx? (Call.underWay process) = some i)
    (hc : s.calls[i]? = some c) :
    c.written = false ∧ s.calls = s.calls.take i ++ c :: s.calls.drop (i + 1) ∧
      ∀ c', s.calls.set i c' = s.calls.take i ++ c' :: s.calls.drop (i + 1) := by
  obtain ⟨hlt, hget⟩ := List.getElem?_eq_some_iff.mp hc
  obtain ⟨hlt', hunder, -⟩ := List.findIdx?_eq_some_iff_getElem.mp hi
  refine ⟨?_, ?_, fun c' => ?_⟩
  · rw [hget, Call.underWay, Bool.and_eq_true, Bool.not_eq_true'] at hunder
    exact hunder.2
  · rw [← hget, ← List.drop_eq_getElem_cons hlt, List.take_append_drop]
  · rw [List.set_eq_take_append_cons_drop, if_pos hlt]

namespace Ordered

theorem append (h : Ordered mem dirname filename B s) (hdec : Decodable mem w)
    (hfile : w.filename = filename) (process : ℕ) :
    Ordered mem dirname filename B
      { disk := appendLog mem dirname w s.disk
        calls := s.calls ++ [⟨process, w, false⟩] } where
  log := by
    change Function.update s.disk _ _ _ = _
    rw [hfile, Function.update_self, h.log]
    simp [logOf]
  data := by
    -- the new call has written nothing, and the data file is not touched
    change Function.update s.disk _ _ _ = _
    rw [hfile, Function.update_of_ne (fullLogPath_ne dirname filename).symm, h.data]
    simp [inFile]
  dec := by
    intro c hc
    rcases List.mem_append.mp hc with hc | hc
    · exact h.dec c hc
    · obtain rfl := List.mem_singleton.mp hc
      exact hdec
  file := by
    intro c hc
    rcases List.mem_append.mp hc with hc | hc
    · exact h.file c hc
    · obtain rfl := List.mem_singleton.mp hc
      exact hfile

/-- A call that agrees with the later records already in the file takes its place in the
log order. -/
theorem finish (h : Ordered mem dirname filename B s)
    (hi : s.calls.findIdx? (Call.underWay process) = some i) (hc : s.calls[i]? = some c)
    (hagree : ∀ c' ∈ s.calls.drop (i + 1), c'.written = true →
      (c.patch mem).AgreesWith 0 (c'.patch mem)) :
    Ordered mem dirname filename B
      { disk := writeData mem dirname c.write c.write.length s.disk
        calls := s.calls.set i { c with written := true } } := by
  obtain ⟨hwritten, hcalls, hset⟩ := calls_eq_of_underWay hi hc
  have hmem : c ∈ s.calls := List.mem_of_getElem? hc
  -- the writes of the calls are what they were
  have hwrites : (s.calls.set i { c with written := true }).map Call.write
      = s.calls.map Call.write := by
    rw [hset]
    nth_rewrite 3 [hcalls]
    simp
  have hold : ∀ c' ∈ s.calls.set i { c with written := true },
      ∃ d ∈ s.calls, d.write = c'.write := by
    intro c' hc'
    have hw : c'.write ∈ s.calls.map Call.write := hwrites ▸ List.mem_map_of_mem hc'
    exact List.mem_map.mp hw
  have hdisk : writeData mem dirname c.write c.write.length s.disk
      = Function.update s.disk (fullFilePath dirname filename)
          (some ((c.patch mem).apply 0 (Patch.applyAll 0 (inFile mem s.calls) B))) := by
    have hbytes : (c.write.bytes mem).take c.write.length = c.write.bytes mem := by
      simp [Write.bytes, List.take_take]
    rw [writeData, h.file c hmem, Recovery.writeFile_eq_update h.data, hbytes]
    rfl
  refine ⟨?_, ?_, fun c' hc' => ?_, fun c' hc' => ?_⟩
  · change writeData mem dirname c.write c.write.length s.disk _ = _
    rw [hdisk, Function.update_of_ne (fullLogPath_ne dirname filename), h.log, hwrites]
  · change writeData mem dirname c.write c.write.length s.disk _ = _
    rw [hdisk, Function.update_self]
    -- the patch moves past the later ones to its place
    have hbefore : inFile mem s.calls
        = ((s.calls.take i).filter Call.written).map (Call.patch mem)
          ++ ((s.calls.drop (i + 1)).filter Call.written).map (Call.patch mem) := by
      rw [inFile]
      nth_rewrite 1 [hcalls]
      simp [hwritten]
    have hafter : inFile mem (s.calls.set i { c with written := true })
        = ((s.calls.take i).filter Call.written).map (Call.patch mem) ++ c.patch mem
          :: ((s.calls.drop (i + 1)).filter Call.written).map (Call.patch mem) := by
      rw [inFile, hset]
      simp [Call.patch]
    rw [hbefore, hafter, Patch.applyAll_append, Patch.applyAll_append, Patch.applyAll_cons,
      Patch.apply_applyAll]
    intro q hq
    obtain ⟨c', hc', rfl⟩ := List.mem_map.mp hq
    obtain ⟨hc', hin⟩ := List.mem_filter.mp hc'
    exact hagree c' hc' hin
  · obtain ⟨d, hd, heq⟩ := hold c' hc'
    exact heq ▸ h.dec d hd
  · obtain ⟨d, hd, heq⟩ := hold c' hc'
    exact heq ▸ h.file d hd

theorem step {disk : Disk} {l : Label} (h : Ordered mem dirname filename B s)
    (hl : notOvertaken mem s l)
    (hstep : (syncSystem mem dirname filename disk).step s l = some s') :
    Ordered mem dirname filename B s' := by
  cases l with
  | append process w =>
    replace hstep : (if _ then _ else none) = some s' := hstep
    split at hstep
    · next hcan =>
      obtain rfl := Option.some.inj hstep
      exact h.append hl hcan.1 process
    · exact absurd hstep (by simp)
  | finish process =>
    obtain ⟨i, hi, hstep⟩ := Option.bind_eq_some_iff.mp hstep
    obtain ⟨c, hc, hstep⟩ := Option.bind_eq_some_iff.mp hstep
    obtain rfl := Option.some.inj hstep
    exact h.finish hi hc (hl i hi c hc)

/-- When all calls have returned, the file is the overlay of the whole log. -/
theorem inFile_of_returned (hall : s.Returned) :
    inFile mem s.calls = (s.calls.map Call.write).map (Write.patch mem) := by
  rw [inFile, List.filter_eq_self.mpr hall, List.map_map]
  rfl

theorem logDecides (h : Ordered mem dirname filename B s) (hall : s.Returned) :
    LogDecides mem dirname filename s := by
  have hdata := h.data
  rw [inFile_of_returned hall] at hdata
  have hwrites : ∀ w ∈ s.calls.map Call.write, ∃ c ∈ s.calls, c.write = w :=
    fun w hw => List.mem_map.mp hw
  refine ⟨?_, fun content hcontent j p hp => ?_⟩
  · have hdec : ∀ w ∈ s.calls.map Call.write, Decodable mem w := by
      intro w hw
      obtain ⟨c, hc, rfl⟩ := hwrites w hw
      exact h.dec c hc
    have hfile : ∀ w ∈ s.calls.map Call.write, w.filename = filename := by
      intro w hw
      obtain ⟨c, hc, rfl⟩ := hwrites w hw
      exact h.file c hc
    have hsync := Recovery.syncLogToFile_records hdec hfile hdata h.log
    -- the replay overlays the log on itself
    rw [Patch.applyAll_absorb 0 fun q hq => ⟨q, hq, Patch.PrefixOf.refl q⟩, ← hdata,
      Function.update_eq_self] at hsync
    exact hsync
  · obtain rfl := Option.some.inj (hcontent.symm.trans hdata)
    have hmap : s.calls.map (Call.patch mem)
        = (s.calls.map Call.write).map (Write.patch mem) := by
      rw [List.map_map]
      rfl
    rw [Patch.getD_applyAll, ← hmap, hp]
    rfl

end Ordered

/-- **The log decides.** Start from any disk on which the log of the file is empty. In every
run of any number of processes in which the writes can be decoded and no call writes its
bytes after a later record that disagrees with it, once all calls have returned, replaying
the log changes nothing, and every byte shows the last record that covers it. -/
theorem log_order_is_data_order (mem : ℕ → Bytes) (dirname filename B : Bytes) (disk : Disk)
    (hdata : disk (fullFilePath dirname filename) = some B)
    (hlog : disk (fullLogPath dirname filename) = some []) (s : State)
    (hr : (syncSystem mem dirname filename disk).Reachable (notOvertaken mem) s)
    (hall : s.Returned) : LogDecides mem dirname filename s := by
  have h₀ : Ordered mem dirname filename B (syncSystem mem dirname filename disk).init :=
    { log := hlog
      data := hdata
      dec := fun c hc => absurd hc List.not_mem_nil
      file := fun c hc => absurd hc List.not_mem_nil }
  have h : Ordered mem dirname filename B s :=
    hr.invariant h₀ fun s l s' _ h hl hstep => h.step hl hstep
  exact h.logDecides hall

end Invariant

/-! ### Two processes -/

/-- Memory with the text `ab` at address 0 and `cde` everywhere else. -/
def pairMem : ℕ → Bytes
  | 0 => ascii "ab"
  | _ => ascii "cde"

/-- The system for one file `f` in the directory `d`, which is empty at first. -/
def pairSystem : System State Label :=
  syncSystem pairMem (ascii "d") (ascii "f") (Recovery.smallDisk (ascii "f") [])

/-- `ab` at offset 1. -/
def firstWrite : Write := ⟨ascii "f", 1, 2, 0, by decide, by decide⟩

/-- `cde` at offset 0. -/
def secondWrite : Write := ⟨ascii "f", 0, 3, 1, by decide, by decide⟩

instance (s : State) : Decidable s.Returned :=
  inferInstanceAs (Decidable (∀ c ∈ s.calls, c.written = true))

instance (s : State) (l : Label) : Decidable (decodable pairMem s l) :=
  match l with
  | .append _ w => inferInstanceAs (Decidable (Decodable pairMem w))
  | .finish _ => inferInstanceAs (Decidable True)

instance (s : State) (l : Label) : Decidable (notOvertaken pairMem s l) :=
  match l with
  | .append _ w => inferInstanceAs (Decidable (Decodable pairMem w))
  | .finish process =>
    inferInstanceAs (Decidable (∀ i ∈ s.calls.findIdx? (Call.underWay process),
      ∀ c ∈ s.calls[i]?, ∀ c' ∈ s.calls.drop (i + 1), c'.written = true →
        (c.patch pairMem).AgreesWith 0 (c'.patch pairMem)))

/-- The sections of two overlapping writes interleave, and the bytes go to the file in the order
of the records. -/
theorem log_order_is_data_order_pair :
    ∃ s, pairSystem.Reachable (notOvertaken pairMem) s ∧ s.calls.length = 2 ∧
      LogDecides pairMem (ascii "d") (ascii "f") s := by
  have hrun : (pairSystem.guardedRun (notOvertaken pairMem) pairSystem.init
      [.append 0 firstWrite, .append 1 secondWrite, .finish 0, .finish 1]).any
        (fun s => decide (s.Returned ∧ s.calls.length = 2)) = true := by decide +kernel
  obtain ⟨s, hr, hs⟩ := System.Reachable.of_any hrun
  obtain ⟨hall, hlen⟩ : s.Returned ∧ s.calls.length = 2 := of_decide_eq_true hs
  exact ⟨s, hr, hlen, log_order_is_data_order pairMem (ascii "d") (ascii "f") [] _
    (by decide) (by decide) s hr hall⟩

/-- **Inverted sections are redone.** Process 1 appends its record behind that of process 0, but
writes its bytes first. The file then shows `cab`, and replaying the log turns it into `cde`. -/
theorem inverted_sections_are_redone :
    ¬ ∀ s, pairSystem.Reachable (decodable pairMem) s → s.Returned →
      LogDecides pairMem (ascii "d") (ascii "f") s := by
  intro h
  have hrun : (pairSystem.guardedRun (decodable pairMem) pairSystem.init
      [.append 0 firstWrite, .append 1 secondWrite, .finish 1, .finish 0]).any
        (fun s => decide (s.Returned ∧
          s.disk (fullFilePath (ascii "d") (ascii "f")) = some (ascii "cab") ∧
          (syncLogToFile (ascii "d") (fullFilePath (ascii "d") (ascii "f"))
            (fullLogPath (ascii "d") (ascii "f")) s.disk).map
              (fun r => r.2 (fullFilePath (ascii "d") (ascii "f"))) = some (some (ascii "cde"))))
      = true := by decide +kernel
  obtain ⟨s, hr, hs⟩ := System.Reachable.of_any hrun
  obtain ⟨hall, hbefore, hafter⟩ := of_decide_eq_true hs
  rw [(h s hr hall).unchanged, Option.map_some] at hafter
  exact absurd (hbefore.symm.trans (Option.some.inj hafter)) (by decide)

end LogOrder
end GTFS
end OSLab
