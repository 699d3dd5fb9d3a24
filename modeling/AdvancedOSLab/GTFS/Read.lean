import Mathlib.Data.List.Find
import AdvancedOSLab.Framework.System
import AdvancedOSLab.GTFS.Log

/-!
# Reads of a GTFS file

`gtfs_read_file` has two sources. If the list of writes in memory has a record with
exactly the offset and the length of the read, the *first* such record answers.
Otherwise the data file on disk does, and a range that goes beyond its end is
answered by the empty string. `gtfs_sync_write_file` leaves the list as it is, and
`gtfs_abort_write_file` takes the first record with the same offset, length and
address out of it.

The documented result is the most recent data: the range of the initial file with
all writes that were not aborted applied in issue order (`State.content`). Neither
source gives that in general: `unsynced_write_is_not_read` reads two of three bytes
that have been written but not synced, and gets nothing.

A record is the address of its data, and the bytes are those that the buffer holds
when they are read or synced. The model has one memory for the whole run: the client
does not change a buffer while a write points to it. `ReadCalls` connects the model to
that of a process, in which the table has pointers to the records.

`Current` is the condition on the state under which a read is right, byte by byte:
either the first record for the range, or the last synced write, is where the
current byte comes from. `reads_most_recent` is the result for runs in which every
read meets it.
-/

namespace OSLab
namespace GTFS

open Text Bytes

/-! ### The calls -/

/-- `file_log_updates_mapping`: the writes of each file, in the order of the calls. -/
abbrev LogUpdates := Bytes → Option (List Write)

/-- `gtfs_write_file`, for the record it makes. -/
def gtfsWriteFile (w : Write) (updates : LogUpdates) : LogUpdates :=
  Function.update updates w.filename (some ((updates w.filename).getD [] ++ [w]))

/-- `gtfs_abort_write_file`: the result and the writes that stay. -/
def gtfsAbortWriteFile (w : Write) (updates : LogUpdates) : ℤ × LogUpdates :=
  match updates w.filename with
  | none => (-1, updates)
  | some logs =>
    (0, Function.update updates w.filename (some (logs.eraseP fun log =>
      log.offset = w.offset ∧ log.length = w.length ∧ log.data = w.data)))

/-- The record that answers a read from memory. -/
def recordFor (logs : List Write) (offset length : ℕ) : Option Write :=
  logs.find? fun log => log.offset = offset ∧ log.length = length

/-- `gtfs_read_file`: the bytes behind the pointer it returns (as many as were asked
for, or none for the empty string), or `none` for `NULL`. -/
def gtfsReadFile (mem : ℕ → Bytes) (dirname filename : Bytes) (updates : LogUpdates)
    (disk : Disk) (offset length : ℕ) : Option Bytes :=
  match recordFor ((updates filename).getD []) offset length with
  | some log => some (log.bytes mem)
  | none =>
    match disk (fullFilePath dirname filename) with
    | none => none
    | some c =>
      -- both error paths return the empty string, not `NULL`
      if c.length < offset then some []
      else if c.length < offset + length then some []
      else some ((c.drop offset).take length)

/-! ### Where a byte comes from -/

namespace Write

/-- The write covers position `i` of the file. -/
def covers (w : Write) (i : ℕ) : Bool := w.offset ≤ i && i < w.offset + w.length

/-- The offset and the address of a write, which determine the bytes it writes. -/
def source (w : Write) : ℕ × ℕ := (w.offset, w.data)

end Write

/-- The source of the last write of a list that covers a position. -/
def lastSource (ws : List Write) (i : ℕ) : Option (ℕ × ℕ) :=
  (ws.reverse.find? fun w => w.covers i).map Write.source

/-- The byte at position `i` that comes from a source, or from the initial file. -/
def byteFrom (mem : ℕ → Bytes) (B : Bytes) (i : ℕ) : Option (ℕ × ℕ) → UInt8
  | some (offset, data) => (mem data).getD (i - offset) 0
  | none => B.getD i 0

section Sources

variable {mem : ℕ → Bytes} {w : Write} {ws : List Write} {i : ℕ}

/-- The buffer of a write is as long as the write says. -/
def Write.InBuffer (mem : ℕ → Bytes) (w : Write) : Prop := w.length ≤ (mem w.data).length

theorem length_bytes (h : w.InBuffer mem) : (w.bytes mem).length = w.length := by
  unfold Write.bytes
  rw [List.length_take]
  exact Nat.min_eq_left h

theorem covers_patch (h : w.InBuffer mem) (i : ℕ) :
    (w.patch mem).Covers i ↔ w.covers i = true := by
  change w.offset ≤ i ∧ i < w.offset + (w.bytes mem).length ↔ _
  rw [length_bytes h]
  simp [Write.covers]

/-- A byte of a write is the one at its place in the buffer. -/
theorem getD_bytes {j : ℕ} (hj : j < w.length) :
    (w.bytes mem).getD j 0 = (mem w.data).getD j 0 := by
  unfold Write.bytes
  rw [List.getD_eq_getElem?_getD, List.getElem?_take, if_pos hj, List.getD_eq_getElem?_getD]

theorem entry_patch (hi : w.covers i = true) :
    (w.patch mem).entry 0 i = (mem w.data).getD (i - w.offset) 0 := by
  have hcov : w.offset ≤ i ∧ i < w.offset + w.length := by simpa [Write.covers] using hi
  exact getD_bytes (show i - w.offset < w.length by omega)

/-- The last patch that covers a position is that of the last write that does. -/
theorem lastCover_map_patch (h : ∀ w ∈ ws, w.InBuffer mem) (i : ℕ) :
    Patch.lastCover (ws.map (Write.patch mem)) i
      = (ws.reverse.find? fun w => w.covers i).map (Write.patch mem) := by
  unfold Patch.lastCover
  rw [← List.map_reverse, List.find?_map]
  refine congrArg (Option.map (Write.patch mem)) (List.find?_congr fun w hw => ?_)
  have hcov := covers_patch (h w (List.mem_reverse.mp hw)) i
  simp only [Function.comp, hcov, Bool.decide_eq_true]

/-- **Bytes of an overlay of writes.** The last write that covers a position is where
its byte comes from. -/
theorem getD_applyAll_patch (h : ∀ w ∈ ws, w.InBuffer mem) (B : Bytes) (i : ℕ) :
    (Patch.applyAll 0 (ws.map (Write.patch mem)) B).getD i 0
      = byteFrom mem B i (lastSource ws i) := by
  rw [Patch.getD_applyAll, lastCover_map_patch h]
  unfold lastSource
  cases hw : ws.reverse.find? fun w => w.covers i with
  | none => rfl
  | some w =>
    have hcov := List.find?_some hw
    exact entry_patch hcov

/-- Two ranges with the same bytes. -/
theorem range_congr {c c' : Bytes} {offset length : ℕ} (hc : offset + length ≤ c.length)
    (hc' : offset + length ≤ c'.length)
    (h : ∀ i, offset ≤ i → i < offset + length → c.getD i 0 = c'.getD i 0) :
    (c.drop offset).take length = (c'.drop offset).take length := by
  -- entry by entry; position `j` of the range is position `offset + j` of the file
  refine List.ext_getElem (by simp; omega) fun j hj hj' => ?_
  rw [List.length_take, List.length_drop] at hj
  have hi := h (offset + j) (by omega) (by omega)
  rw [List.getD_eq_getElem _ 0 (by omega), List.getD_eq_getElem _ 0 (by omega)] at hi
  simpa using hi

end Sources

/-! ### Runs on one open file -/

namespace Reads

/-- A write that has been issued, and what became of it. -/
structure Issued where
  write : Write
  synced : Bool
  aborted : Bool

/-- A read: the most recent data of its range, and what the call returned. -/
structure ReadEvent where
  expected : Bytes
  result : Option Bytes

/-- The table of writes and the disk, and three records of the run: the writes in
issue order, the writes in the order in which they were synced, and the reads. -/
structure State where
  updates : LogUpdates
  disk : Disk
  issued : List Issued
  synced : List Write
  reads : List ReadEvent

/-- The writes that were not aborted, in issue order. -/
def State.live (s : State) : List Write :=
  (s.issued.filter fun e => !e.aborted).map Issued.write

inductive Label where
  | write (w : Write)
  | sync (i : ℕ)
  | abort (i : ℕ)
  | read (offset length : ℕ)

section System

variable (mem : ℕ → Bytes) (dirname filename B : Bytes)

/-- The most recent data: all writes that were not aborted, on the initial file. -/
def State.content (s : State) : Bytes := Patch.applyAll 0 (s.live.map (Write.patch mem)) B

/-- The calls of one process on one open file. A write is aborted only while it has
not been synced. -/
def readSystem (disk : Disk) : System State Label where
  init := ⟨fun _ => none, disk, [], [], []⟩
  step s
    | .write w =>
      if w.filename = filename ∧ w.length ≤ (mem w.data).length then
        some { s with
          updates := gtfsWriteFile w s.updates
          issued := s.issued ++ [⟨w, false, false⟩] }
      else none
    | .sync i => do
      let e ← s.issued[i]?
      some { s with
        disk := (gtfsSyncWriteFile mem dirname e.write s.disk).2
        issued := s.issued.set i { e with synced := true }
        synced := s.synced ++ [e.write] }
    | .abort i => do
      let e ← s.issued[i]?
      if e.synced then none
      else
        some { s with
          updates := (gtfsAbortWriteFile e.write s.updates).2
          issued := s.issued.set i { e with aborted := true } }
    | .read offset length =>
      some { s with
        reads := s.reads ++ [⟨((s.content mem B).drop offset).take length,
          gtfsReadFile mem dirname filename s.updates s.disk offset length⟩] }

/-- The reads are inside the current content. -/
def inside (s : State) : Label → Prop
  | .read offset length => offset + length ≤ (s.content mem B).length
  | _ => True

/-- The source of a read has the most recent data, byte by byte: the first record for
the range if there is one, and the data file otherwise, which must then reach to the
end of the range. -/
def Current (s : State) (offset length : ℕ) : Prop :=
  match recordFor ((s.updates filename).getD []) offset length with
  | some log => ∀ i < length, lastSource s.live (offset + i) = some log.source
  | none =>
    (s.disk (fullFilePath dirname filename)).any (fun c => offset + length ≤ c.length) = true ∧
      ∀ i < length, lastSource s.synced (offset + i) = lastSource s.live (offset + i)

/-- Every read so far returned the most recent data. -/
def ReadsRight (s : State) : Prop := ∀ e ∈ s.reads, e.result = some e.expected

/-- The reads are inside the current content, and their source is current. -/
def currentReads (s : State) : Label → Prop
  | .read offset length =>
    offset + length ≤ (s.content mem B).length ∧ Current dirname filename s offset length
  | _ => True

end System

/-! ### The invariant -/

section Invariant

variable {mem : ℕ → Bytes} {dirname filename B : Bytes} {s s' : State}

/-- The data file is the initial file with the synced writes applied in the order of
the calls, and every write is within its buffer. -/
structure OnDisk (mem : ℕ → Bytes) (dirname filename B : Bytes) (s : State) : Prop where
  data : s.disk (fullFilePath dirname filename)
    = some (Patch.applyAll 0 (s.synced.map (Write.patch mem)) B)
  issued : ∀ e ∈ s.issued, e.write.filename = filename ∧ e.write.InBuffer mem
  synced : ∀ w ∈ s.synced, w.InBuffer mem
  pending : ∀ w ∈ (s.updates filename).getD [], w.InBuffer mem

/-- What `gtfs_sync_write_file` does to the data file. -/
theorem gtfsSyncWriteFile_data {disk : Disk} {w : Write} {c : Bytes}
    (hw : w.filename = filename) (hc : disk (fullFilePath dirname filename) = some c) :
    (gtfsSyncWriteFile mem dirname w disk).2 (fullFilePath dirname filename)
      = some ((w.patch mem).apply 0 c) := by
  subst hw
  -- the record goes to another file
  have hlog : appendLog mem dirname w disk (fullFilePath dirname w.filename) = some c := by
    change Function.update disk _ _ _ = _
    rw [Function.update_of_ne (fullLogPath_ne dirname w.filename).symm]
    exact hc
  have htake : (w.bytes mem).take w.length = w.bytes mem := by
    unfold Write.bytes
    rw [List.take_take, Nat.min_self]
  unfold gtfsSyncWriteFile
  dsimp only
  rw [hlog]
  change writeData mem dirname w w.length _ _ = _
  unfold writeData
  rw [writeFile_self hlog, htake]
  rfl

/-- Setting a mark does not change the writes that were issued. -/
theorem OnDisk.issued_set (h : OnDisk mem dirname filename B s) {i : ℕ} {e : Issued}
    (he : s.issued[i]? = some e) (e' : Issued) (hwrite : e'.write = e.write) :
    ∀ d ∈ s.issued.set i e', d.write.filename = filename ∧ d.write.InBuffer mem := by
  intro d hd
  rcases List.mem_or_eq_of_mem_set hd with hd | rfl
  · exact h.issued d hd
  · rw [hwrite]
    exact h.issued e (List.mem_of_getElem? he)

theorem OnDisk.step {disk : Disk} {l : Label} (h : OnDisk mem dirname filename B s)
    (hstep : (readSystem mem dirname filename B disk).step s l = some s') :
    OnDisk mem dirname filename B s' := by
  cases l with
  | write w =>
    replace hstep : (if _ then _ else none) = some s' := hstep
    split at hstep
    · next hcan =>
      obtain ⟨hfile, hbuf⟩ := hcan
      obtain rfl := Option.some.inj hstep
      refine ⟨h.data, ?_, h.synced, ?_⟩
      · intro e he
        rcases List.mem_append.mp he with he | he
        · exact h.issued e he
        · obtain rfl := List.mem_singleton.mp he
          exact ⟨hfile, hbuf⟩
      · -- the list of the file grows by this write
        intro v hv
        change v ∈ (gtfsWriteFile w s.updates filename).getD [] at hv
        unfold gtfsWriteFile at hv
        rw [hfile, Function.update_self, Option.getD_some] at hv
        rcases List.mem_append.mp hv with hv | hv
        · exact h.pending v hv
        · obtain rfl := List.mem_singleton.mp hv
          exact hbuf
    · exact absurd hstep (by simp)
  | sync i =>
    obtain ⟨e, he, hstep⟩ := Option.bind_eq_some_iff.mp hstep
    obtain rfl := Option.some.inj hstep
    obtain ⟨hfile, hbuf⟩ := h.issued e (List.mem_of_getElem? he)
    refine ⟨?_, h.issued_set he _ rfl, ?_, h.pending⟩
    · change (gtfsSyncWriteFile mem dirname e.write s.disk).2 _ = _
      rw [gtfsSyncWriteFile_data hfile h.data, List.map_append, Patch.applyAll_append]
      rfl
    · intro w hw
      rcases List.mem_append.mp hw with hw | hw
      · exact h.synced w hw
      · obtain rfl := List.mem_singleton.mp hw
        exact hbuf
  | abort i =>
    obtain ⟨e, he, hstep⟩ := Option.bind_eq_some_iff.mp hstep
    split at hstep
    · exact absurd hstep (by simp)
    · obtain rfl := Option.some.inj hstep
      refine ⟨h.data, h.issued_set he _ rfl, h.synced, ?_⟩
      obtain ⟨hfile, -⟩ := h.issued e (List.mem_of_getElem? he)
      intro w hw
      change w ∈ ((gtfsAbortWriteFile e.write s.updates).2 filename).getD [] at hw
      unfold gtfsAbortWriteFile at hw
      rw [hfile] at hw
      cases hlogs : s.updates filename with
      | none =>
        rw [hlogs] at hw
        exact absurd hw (by simp [hlogs])
      | some logs =>
        -- a record is taken out, and what stays was there before
        rw [hlogs] at hw
        refine h.pending w ?_
        rw [hlogs]
        simp only [Function.update_self, Option.getD_some] at hw
        exact List.mem_of_mem_eraseP hw
  | read offset length =>
    obtain rfl := Option.some.inj hstep
    exact ⟨h.data, h.issued, h.synced, h.pending⟩

theorem OnDisk.live (h : OnDisk mem dirname filename B s) : ∀ w ∈ s.live, w.InBuffer mem := by
  intro w hw
  obtain ⟨e, he, rfl⟩ := List.mem_map.mp hw
  exact (h.issued e (List.mem_filter.mp he).1).2

/-! ### Reads -/

/-- A read from a current source returns the most recent data. -/
theorem read_of_current (h : OnDisk mem dirname filename B s) {offset length : ℕ}
    (hin : offset + length ≤ (s.content mem B).length)
    (hcur : Current dirname filename s offset length) :
    gtfsReadFile mem dirname filename s.updates s.disk offset length
      = some (((s.content mem B).drop offset).take length) := by
  have hbyte : ∀ i, (s.content mem B).getD i 0 = byteFrom mem B i (lastSource s.live i) :=
    getD_applyAll_patch h.live B
  unfold Current at hcur
  unfold gtfsReadFile
  cases hrec : recordFor ((s.updates filename).getD []) offset length with
  | some log =>
    -- the record answers, and every byte of the range comes from its source
    rw [hrec] at hcur
    have hmem := List.mem_of_find?_eq_some hrec
    have hlog : log.offset = offset ∧ log.length = length := by
      have := List.find?_some hrec
      simpa using this
    have hlen := length_bytes (h.pending log hmem)
    refine congrArg some (Patch.ext_getD 0 ?_ fun j => ?_)
    · rw [hlen, List.length_take, List.length_drop]
      omega
    · by_cases hj : j < length
      · have hsrc := hbyte (offset + j)
        rw [hcur j hj] at hsrc
        calc (log.bytes mem).getD j 0
            = (mem log.data).getD (offset + j - log.offset) 0 := by
              rw [getD_bytes (by omega)]
              congr 1
              omega
          _ = (s.content mem B).getD (offset + j) 0 := hsrc.symm
          _ = (((s.content mem B).drop offset).take length).getD j 0 := by
              simp only [List.getD_eq_getElem?_getD, List.getElem?_take, if_pos hj,
                List.getElem?_drop]
      · -- both sides end there
        rw [List.getD_eq_default _ _ (by omega), List.getD_eq_default]
        rw [List.length_take, List.length_drop]
        omega
  | none =>
    -- the data file answers, and reaches to the end of the range
    rw [hrec] at hcur
    obtain ⟨hsize, hsrc⟩ := hcur
    rw [h.data, Option.any_some, decide_eq_true_eq] at hsize
    dsimp only
    rw [h.data]
    dsimp only
    rw [if_neg (by omega), if_neg (by omega)]
    refine congrArg some (range_congr hsize hin fun i hi hi' => ?_)
    obtain ⟨j, rfl⟩ := Nat.exists_eq_add_of_le hi
    rw [getD_applyAll_patch h.synced, hbyte, hsrc j (by omega)]

/-- A read that meets the condition adds a right answer; the other calls add none. -/
theorem ReadsRight.step {disk : Disk} {l : Label} (ih : ReadsRight s)
    (h : OnDisk mem dirname filename B s) (hl : currentReads mem dirname filename B s l)
    (hstep : (readSystem mem dirname filename B disk).step s l = some s') : ReadsRight s' := by
  cases l with
  | read offset length =>
    obtain rfl := Option.some.inj hstep
    intro e he
    -- the answers given before stay, and the new one meets the condition
    rcases List.mem_append.mp he with he | he
    · exact ih e he
    · obtain rfl := List.mem_singleton.mp he
      exact read_of_current h hl.1 hl.2
  | write w =>
    replace hstep : (if _ then _ else none) = some s' := hstep
    split at hstep
    · obtain rfl := Option.some.inj hstep
      exact ih
    · exact absurd hstep (by simp)
  | sync i =>
    obtain ⟨e, he, hstep⟩ := Option.bind_eq_some_iff.mp hstep
    obtain rfl := Option.some.inj hstep
    exact ih
  | abort i =>
    obtain ⟨e, he, hstep⟩ := Option.bind_eq_some_iff.mp hstep
    split at hstep
    · exact absurd hstep (by simp)
    · obtain rfl := Option.some.inj hstep
      exact ih

/-- **Reads return the most recent data**, in every run on one open file in which each
read is inside the current content and its source is current. -/
theorem reads_most_recent (mem : ℕ → Bytes) (dirname filename B : Bytes) (disk : Disk)
    (hdata : disk (fullFilePath dirname filename) = some B) (s : State)
    (hr : (readSystem mem dirname filename B disk).Reachable
      (currentReads mem dirname filename B) s) : ReadsRight s := by
  have hdisk : ∀ {s}, (readSystem mem dirname filename B disk).Reachable
      (currentReads mem dirname filename B) s → OnDisk mem dirname filename B s :=
    fun hr => hr.invariant
      ⟨hdata, fun e he => absurd he List.not_mem_nil, fun w hw => absurd hw List.not_mem_nil,
        fun w hw => absurd hw List.not_mem_nil⟩
      fun s l s' _ h _ hstep => h.step hstep
  exact hr.invariant (fun e he => absurd he List.not_mem_nil)
    fun s l s' hr ih hl hstep => ih.step (hdisk hr) hl hstep

end Invariant

/-! ### Two runs -/

/-- A disk on which the file `f` of the directory `d` is empty. -/
def emptyDisk : Disk := fun path =>
  if path = fullFilePath (ascii "d") (ascii "f") then some [] else none

/-- Memory with the text `abc` at address 0 and `x` everywhere else. -/
def textMem : ℕ → Bytes
  | 0 => ascii "abc"
  | _ => ascii "x"

instance (s : State) (offset length : ℕ) :
    Decidable (Current (ascii "d") (ascii "f") s offset length) := by
  unfold Current
  split <;> infer_instance

instance (s : State) (l : Label) :
    Decidable (currentReads textMem (ascii "d") (ascii "f") [] s l) :=
  match l with
  | .read _ _ => inferInstanceAs (Decidable (_ ∧ _))
  | .write _ | .sync _ | .abort _ => inferInstanceAs (Decidable True)

instance (s : State) (l : Label) : Decidable (inside textMem [] s l) :=
  match l with
  | .read offset length =>
    inferInstanceAs (Decidable (offset + length ≤ (s.content textMem []).length))
  | .write _ | .sync _ | .abort _ => inferInstanceAs (Decidable True)

/-- A write that is read back from memory, then synced and overwritten in the middle;
a range that nobody wrote as such is then read from the file. -/
theorem reads_most_recent_small :
    ∃ s, (readSystem textMem (ascii "d") (ascii "f") [] emptyDisk).Reachable
        (currentReads textMem (ascii "d") (ascii "f") []) s ∧
      s.reads.map ReadEvent.result = [some (ascii "abc"), some (ascii "ax")] ∧
      ReadsRight s := by
  have hrun : (((readSystem textMem (ascii "d") (ascii "f") [] emptyDisk).guardedRun
      (currentReads textMem (ascii "d") (ascii "f") []) ⟨fun _ => none, emptyDisk, [], [], []⟩
      [.write ⟨ascii "f", 0, 3, 0, by decide, by decide⟩, .read 0 3, .sync 0,
        .write ⟨ascii "f", 1, 1, 1, by decide, by decide⟩, .sync 1, .read 0 2]).any
        fun s => s.reads.map ReadEvent.result = [some (ascii "abc"), some (ascii "ax")])
      = true := by decide +kernel
  obtain ⟨s, hr, hreads⟩ := System.Reachable.of_any hrun
  exact ⟨s, hr, of_decide_eq_true hreads,
    reads_most_recent textMem (ascii "d") (ascii "f") [] emptyDisk (by decide) s hr⟩

/-- **An unsynced write is not read.** Two of three bytes that have been written but
not synced: there is no record for the range, and the file is too short. -/
theorem unsynced_write_is_not_read :
    ∃ s, (readSystem textMem (ascii "d") (ascii "f") [] emptyDisk).Reachable
        (inside textMem []) s ∧ ¬ ReadsRight s := by
  have hrun : (((readSystem textMem (ascii "d") (ascii "f") [] emptyDisk).guardedRun
      (inside textMem []) ⟨fun _ => none, emptyDisk, [], [], []⟩
      [.write ⟨ascii "f", 0, 3, 0, by decide, by decide⟩, .read 0 2]).any
        fun s => s.reads.any fun e => e.expected = ascii "ab" ∧ e.result = some [])
      = true := by decide +kernel
  obtain ⟨s, hr, hreads⟩ := System.Reachable.of_any hrun
  refine ⟨s, hr, fun hright => ?_⟩
  obtain ⟨e, he, hends⟩ := List.any_eq_true.mp hreads
  obtain ⟨hexpected, hresult⟩ := of_decide_eq_true hends
  have h := hright e he
  rw [hexpected, hresult] at h
  exact absurd h (by decide)

end Reads

end GTFS
end OSLab
