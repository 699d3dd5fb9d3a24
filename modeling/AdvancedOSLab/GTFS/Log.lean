import AdvancedOSLab.Framework.Overlay
import AdvancedOSLab.Framework.Bytes

/-!
# The GTFS redo log

`gtfs_sync_write_file` appends a text record to the log of the file and then writes
the bytes to the data file. `sync_log_to_file` reads the log back line by line and
writes every record again.

The disk is a map from paths to the contents of regular files. Client memory is a
map `mem` from addresses to the bytes of the buffer there; a `write_t` holds the
address of its data, and the text of a record is that buffer up to its first NUL.

* `logRecord` is the text of one record, `decodeLine` its decoder. The decoder
  works on *lines*, splits them at `|` and puts one newline behind the data field.
* `LogRecord.writes` is what `seekp` and `write` then do. A negative offset fails
  the stream, and nothing is written; a length beyond the string (with its
  terminator) reads foreign memory, which the source leaves undefined.
* `syncLogToFile` is a complete run, `syncLogToFileUntil` one that stops in the
  middle of a record.

`Loggable.lineWrite` says for which writes the two texts agree, and
`logLines_logOf` that a whole log is then read back record by record.
-/

namespace OSLab
namespace GTFS

open Text Bytes

/-! ### Files -/

/-- The field separator of a log record. -/
def pipe : UInt8 := 124

/-- The line separator. -/
def newline : UInt8 := 10

/-- The regular files by their paths. -/
abbrev Disk := Bytes → Option Bytes

/-- `gtfs->dirname + "/" + filename`. -/
def fullFilePath (dirname filename : Bytes) : Bytes := dirname ++ ascii "/" ++ filename

/-- `gtfs->dirname + "/" + filename + ".log"`. -/
def fullLogPath (dirname filename : Bytes) : Bytes :=
  dirname ++ ascii "/" ++ filename ++ ascii ".log"

/-- Write into an existing file; a file that does not exist is not opened. -/
def writeFile (path : Bytes) (p : Patch UInt8) (disk : Disk) : Disk :=
  match disk path with
  | none => disk
  | some c => Function.update disk path (some (p.apply 0 c))

theorem writeFile_self {path : Bytes} {p : Patch UInt8} {disk : Disk} {c : Bytes}
    (h : disk path = some c) : writeFile path p disk path = some (p.apply 0 c) := by
  unfold writeFile
  rw [h]
  exact Function.update_self _ _ _

theorem writeFile_of_ne {path path' : Bytes} (h : path' ≠ path) (p : Patch UInt8) (disk : Disk) :
    writeFile path p disk path' = disk path' := by
  unfold writeFile
  cases disk path with
  | none => rfl
  | some c => exact Function.update_of_ne h _ _

/-- Writing does not create files and does not remove any. -/
theorem isSome_writeFile (path path' : Bytes) (p : Patch UInt8) (disk : Disk) :
    (writeFile path p disk path').isSome = (disk path').isSome := by
  by_cases hpath : path' = path
  · subst hpath
    cases hc : disk path' with
    | none =>
      unfold writeFile
      rw [hc]
      exact congrArg Option.isSome hc
    | some c =>
      rw [writeFile_self hc]
      rfl
  · rw [writeFile_of_ne hpath]

/-- Files that are there stay there when one is written anew. -/
theorem isSome_update {disk : Disk} {path' : Bytes} (h : (disk path').isSome) (path c : Bytes) :
    (Function.update disk path (some c) path').isSome := by
  by_cases heq : path' = path
  · rw [heq, Function.update_self]
    rfl
  · rw [Function.update_of_ne heq]
    exact h

/-- The name of a file of a directory: it is no path, and it is a C string. -/
def IsFileName (name : Bytes) : Prop := 47 ∉ name ∧ 0 ∉ name

instance (name : Bytes) : Decidable (IsFileName name) := inferInstanceAs (Decidable (_ ∧ _))

/-- The names of files of a directory. -/
abbrev FileName : Type := { name : Bytes // IsFileName name }

theorem fullFilePath_inj {dirname a b : Bytes} :
    fullFilePath dirname a = fullFilePath dirname b ↔ a = b := by
  unfold fullFilePath
  exact List.append_right_inj _

/-- The log of a file is the file whose name ends in `.log`. -/
theorem fullLogPath_eq (dirname filename : Bytes) :
    fullLogPath dirname filename = fullFilePath dirname (filename ++ ascii ".log") := by
  unfold fullLogPath fullFilePath
  rw [List.append_assoc]

theorem fullLogPath_inj {dirname a b : Bytes} :
    fullLogPath dirname a = fullLogPath dirname b ↔ a = b := by
  rw [fullLogPath_eq, fullLogPath_eq, fullFilePath_inj]
  exact List.append_left_inj _

/-- The log of a file is another file. -/
theorem fullLogPath_ne (dirname filename : Bytes) :
    fullLogPath dirname filename ≠ fullFilePath dirname filename := by
  intro h
  have hlen := congrArg List.length h
  have hlog : (ascii ".log").length = 4 := by decide
  simp only [fullLogPath, fullFilePath, List.length_append, hlog] at hlen
  omega

/-! ### Writes and their records -/

/-- `write_t`, with the address of its data. The offset and the length are those
of an `int` that is not negative. -/
structure Write where
  filename : Bytes
  offset : ℕ
  length : ℕ
  data : ℕ
  offset_le : offset ≤ intMax
  length_le : length ≤ intMax

section Memory

variable (mem : ℕ → Bytes)

namespace Write

variable (w : Write)

/-- The data as a C string. -/
def text : Bytes := cstr (mem w.data)

/-- The bytes that are written to the data file. -/
def bytes : Bytes := (mem w.data).take w.length

/-- The write as a patch of the data file. -/
def patch : Patch UInt8 := ⟨w.offset, w.bytes mem⟩

end Write

/-- `filename|offset|length|data`, and the newline of `endl`. -/
def logRecord (w : Write) : Bytes :=
  w.filename ++ [pipe] ++ decimal w.offset ++ [pipe] ++ decimal w.length ++ [pipe]
    ++ w.text mem ++ [newline]

/-- The first half of `gtfs_sync_write_file`: append the record to the log, which is
created if it is not there. -/
def appendLog (dirname : Bytes) (w : Write) (disk : Disk) : Disk :=
  let path := fullLogPath dirname w.filename
  Function.update disk path (some ((disk path).getD [] ++ logRecord mem w))

/-- The second half up to the first `k` bytes: `lseek` and `write`. -/
def writeData (dirname : Bytes) (w : Write) (k : ℕ) (disk : Disk) : Disk :=
  writeFile (fullFilePath dirname w.filename) ⟨w.offset, (w.bytes mem).take k⟩ disk

/-- `gtfs_sync_write_file`: the result and the disk. -/
def gtfsSyncWriteFile (dirname : Bytes) (w : Write) (disk : Disk) : ℤ × Disk :=
  let disk := appendLog mem dirname w disk
  match disk (fullFilePath dirname w.filename) with
  -- the record stays in the log
  | none => (-1, disk)
  | some _ => (w.length, writeData mem dirname w w.length disk)

end Memory

/-! ### Replay -/

/-- The fields of a line of the log. -/
structure LogRecord where
  filename : Bytes
  offset : ℤ
  length : ℤ
  data : Bytes

/-- A line, split at `|`. A missing field is read out of bounds and a field that is
not a number is an exception: both have no result. -/
def decodeLine (line : Bytes) : Option LogRecord :=
  match split pipe line with
  | filename :: offset :: length :: data :: _ => do
    -- a data field with a `|` in it is cut there, and the rest of the line is ignored
    let offset ← stoi offset
    let length ← stoi length
    some { filename, offset, length, data := data ++ [newline] }
  | _ => none

/-- What `fs.seekp(offset)` and `fs.write(data.c_str(), length)` do. -/
def LogRecord.writes (r : LogRecord) : Option (Patch UInt8) :=
  if r.length < 0 ∨ r.data.length + 1 < r.length then none
  -- `seekp` to a negative offset sets `failbit`, and `write` then does nothing
  else if r.offset < 0 then some ⟨0, []⟩
  else some ⟨r.offset.toNat, (r.data ++ [0]).take r.length.toNat⟩

/-- The file a line is about and what is written to it. -/
def lineWrite (dirname line : Bytes) : Option (Bytes × Patch UInt8) := do
  let r ← decodeLine line
  let p ← r.writes
  some (fullFilePath dirname r.filename, p)

/-- The lines that the loop over `getline` does not skip. -/
def logLines (log : Bytes) : List Bytes := splitWith (fun line => line ≠ []) newline log

/-- The loop over the lines. -/
def replay (dirname : Bytes) : List Bytes → Disk → Option Disk
  | [], disk => some disk
  | line :: lines, disk => do
    let w ← lineWrite dirname line
    replay dirname lines (writeFile w.1 w.2 disk)

/-- The loop, stopped after `j` lines and `k` bytes of the next one. -/
def replayUntil (dirname : Bytes) (lines : List Bytes) (j k : ℕ) (disk : Disk) :
    Option Disk := do
  let disk ← replay dirname (lines.take j) disk
  match lines[j]? with
  | none => some disk
  | some line => do
    let w ← lineWrite dirname line
    some (writeFile w.1 ⟨w.2.offset, w.2.bytes.take k⟩ disk)

/-- `sync_log_to_file`: the result and the disk. -/
def syncLogToFile (dirname filePath logfilePath : Bytes) (disk : Disk) : Option (ℤ × Disk) :=
  match disk filePath, disk logfilePath with
  | some _, some log => (replay dirname (logLines log) disk).map fun disk => (0, disk)
  | _, _ => some (-1, disk)

/-- `sync_log_to_file` fails if one of the files is missing, and otherwise replays the log. -/
theorem syncLogToFile_cases {dirname filePath logfilePath : Bytes} {disk disk' : Disk} {res : ℤ}
    (h : syncLogToFile dirname filePath logfilePath disk = some (res, disk')) :
    (res = -1 ∧ disk' = disk ∧ (disk filePath = none ∨ disk logfilePath = none)) ∨
      (res = 0 ∧ (disk filePath).isSome ∧ ∃ log, disk logfilePath = some log ∧
        replay dirname (logLines log) disk = some disk') := by
  unfold syncLogToFile at h
  split at h
  · next c log hfile hlog =>
    obtain ⟨disk₁, hreplay, heq⟩ := Option.map_eq_some_iff.mp h
    obtain ⟨rfl, rfl⟩ := Prod.mk.inj heq
    exact .inr ⟨rfl, by rw [hfile]; rfl, log, hlog, hreplay⟩
  · next hmissing =>
    obtain ⟨rfl, rfl⟩ := Prod.mk.inj (Option.some.inj h)
    refine .inl ⟨rfl, rfl, ?_⟩
    cases hfile : disk filePath with
    | none => exact .inl rfl
    | some c =>
      cases hlog : disk logfilePath with
      | none => exact .inr rfl
      | some log => exact absurd hlog (hmissing c log hfile)

/-- A run of `sync_log_to_file` that is stopped. -/
def syncLogToFileUntil (dirname filePath logfilePath : Bytes) (j k : ℕ) (disk : Disk) :
    Option Disk :=
  match disk filePath, disk logfilePath with
  | some _, some log => replayUntil dirname (logLines log) j k disk
  | _, _ => some disk

/-- A replay leaves the files alone that none of its lines is about. -/
theorem replay_frame {dirname path : Bytes} {lines : List Bytes} {disk disk' : Disk}
    (h : ∀ line ∈ lines, ∀ w, lineWrite dirname line = some w → path ≠ w.1)
    (hreplay : replay dirname lines disk = some disk') : disk' path = disk path := by
  induction lines generalizing disk with
  | nil =>
    obtain rfl := Option.some.inj hreplay
    rfl
  | cons line lines ih =>
    obtain ⟨w, hw, hreplay⟩ := Option.bind_eq_some_iff.mp hreplay
    rw [ih (fun line' hline' => h line' (List.mem_cons_of_mem line hline')) hreplay]
    exact writeFile_of_ne (h line List.mem_cons_self w hw) w.2 disk

theorem isSome_replay {dirname : Bytes} (path : Bytes) {lines : List Bytes} {disk disk' : Disk}
    (hreplay : replay dirname lines disk = some disk') :
    (disk' path).isSome = (disk path).isSome := by
  induction lines generalizing disk with
  | nil =>
    obtain rfl := Option.some.inj hreplay
    rfl
  | cons line lines ih =>
    obtain ⟨w, -, hreplay⟩ := Option.bind_eq_some_iff.mp hreplay
    rw [ih hreplay, isSome_writeFile]

/-- The file that a line is about is the one it names. -/
theorem lineWrite_eq_some {dirname line : Bytes} {w : Bytes × Patch UInt8}
    (h : lineWrite dirname line = some w) :
    ∃ r, decodeLine line = some r ∧ r.writes = some w.2 ∧
      w.1 = fullFilePath dirname r.filename := by
  obtain ⟨r, hr, h⟩ := Option.bind_eq_some_iff.mp h
  obtain ⟨p, hp, h⟩ := Option.bind_eq_some_iff.mp h
  obtain rfl := Option.some.inj h
  exact ⟨r, hr, hp, rfl⟩

/-! ### Logs of whole lines -/

/-- The log is empty or ends with a newline. -/
def WholeLines (log : Bytes) : Prop := log = [] ∨ ∃ front, log = front ++ [newline]

theorem WholeLines.append {log rest : Bytes} (hlog : WholeLines log) (hrest : WholeLines rest) :
    WholeLines (log ++ rest) := by
  rcases hrest with rfl | ⟨front, rfl⟩
  · rwa [List.append_nil]
  · exact .inr ⟨log ++ front, (List.append_assoc _ _ _).symm⟩

/-- What is appended to a log of whole lines is read on its own. -/
theorem WholeLines.logLines_append {log : Bytes} (h : WholeLines log) (rest : Bytes) :
    logLines (log ++ rest) = logLines log ++ logLines rest := by
  rcases h with rfl | ⟨front, rfl⟩
  · rfl
  · rw [List.append_assoc]
    exact splitWith_concat_append _ newline front rest

/-! ### Records that are read back -/

section Memory

variable (mem : ℕ → Bytes)

/-- Data that one line of the log can hold: a non-empty line without `|`, possibly
with its newline. The length stays within it, and the file name contains no `|`. -/
structure Loggable (w : Write) : Prop where
  filename_noPipe : pipe ∉ w.filename
  text_noPipe : pipe ∉ w.text mem
  text_oneLine : newline ∉ (w.text mem).dropLast
  firstLine_ne : (w.text mem).head?.any (· ≠ newline) = true
  length_le_text : w.length ≤ (w.text mem).length

instance (w : Write) : Decidable (Loggable mem w) :=
  decidable_of_iff (pipe ∉ w.filename ∧ pipe ∉ w.text mem ∧ newline ∉ (w.text mem).dropLast ∧
      (w.text mem).head?.any (· ≠ newline) = true ∧ w.length ≤ (w.text mem).length)
    ⟨fun ⟨h₁, h₂, h₃, h₄, h₅⟩ => ⟨h₁, h₂, h₃, h₄, h₅⟩,
      fun ⟨h₁, h₂, h₃, h₄, h₅⟩ => ⟨h₁, h₂, h₃, h₄, h₅⟩⟩

/-- A write whose record is read back as the same write: its file name contains no
newline either, and no NUL, as every file name. -/
structure Decodable (w : Write) : Prop extends Loggable mem w where
  filename_noNewline : newline ∉ w.filename
  filename_noNul : 0 ∉ w.filename

instance (w : Write) : Decidable (Decodable mem w) :=
  decidable_of_iff (Loggable mem w ∧ newline ∉ w.filename ∧ 0 ∉ w.filename)
    ⟨fun ⟨h₁, h₂, h₃⟩ => ⟨h₁, h₂, h₃⟩, fun ⟨h₁, h₂, h₃⟩ => ⟨h₁, h₂, h₃⟩⟩

/-- The data in front of its first newline. -/
def Write.firstLine (w : Write) : Bytes := (w.text mem).takeWhile (· ≠ newline)

/-- The line of the log that holds the record. -/
def recordLine (w : Write) : Bytes :=
  w.filename ++ [pipe] ++ decimal w.offset ++ [pipe] ++ decimal w.length ++ [pipe]
    ++ w.firstLine mem

/-- The log after the records of a list of writes. -/
def logOf (ws : List Write) : Bytes := ws.flatMap (logRecord mem)

variable {mem} {w : Write}

theorem newline_notMem_firstLine : newline ∉ w.firstLine mem := by
  intro h
  have := List.mem_takeWhile_imp h
  simp at this

/-- The data is its first line, with or without the newline. -/
theorem Loggable.text_eq (h : Loggable mem w) :
    w.text mem = w.firstLine mem ∨ w.text mem = w.firstLine mem ++ [newline] := by
  -- the first line ends where the newline is, or where the text ends
  have hfirst : ∀ t rest, w.text mem = t ++ rest → newline ∉ t →
      (rest = [] ∨ rest = [newline]) → w.firstLine mem = t := by
    intro t rest heq ht hrest
    unfold Write.firstLine
    rw [heq, List.takeWhile_append_of_pos fun c hc => by
      have : c ≠ newline := fun hcn => ht (hcn ▸ hc)
      simpa using this]
    rcases hrest with rfl | rfl <;> simp
  have hne : w.text mem ≠ [] := by
    intro hnil
    have := h.firstLine_ne
    rw [hnil] at this
    exact absurd this (by simp)
  -- only the last byte can be a newline
  have hsplit := List.dropLast_append_getLast hne
  by_cases hlast : (w.text mem).getLast hne = newline
  · right
    rw [hlast] at hsplit
    rw [hfirst _ _ hsplit.symm h.text_oneLine (.inr rfl)]
    exact hsplit.symm
  · left
    have hno : newline ∉ w.text mem := by
      intro hmem
      rw [← hsplit, List.mem_append, List.mem_singleton] at hmem
      rcases hmem with hmem | hmem
      · exact h.text_oneLine hmem
      · exact hlast hmem.symm
    exact (hfirst _ [] (List.append_nil _).symm hno (.inl rfl)).symm

theorem Loggable.firstLine_ne_nil (h : Loggable mem w) : w.firstLine mem ≠ [] := by
  intro hnil
  have hfirst := h.firstLine_ne
  rcases h.text_eq with heq | heq <;> rw [heq, hnil] at hfirst
  · exact absurd hfirst (by simp)
  · exact absurd hfirst (by decide)

theorem newline_notMem_recordLine (h : newline ∉ w.filename) : newline ∉ recordLine mem w := by
  have hp : newline ∉ [pipe] := by decide
  have ho : newline ∉ decimal w.offset := notMem_decimal (by decide) _
  have hl : newline ∉ decimal w.length := notMem_decimal (by decide) _
  unfold recordLine
  simp only [List.mem_append, not_or]
  exact ⟨⟨⟨⟨⟨⟨h, hp⟩, ho⟩, hp⟩, hl⟩, hp⟩, newline_notMem_firstLine⟩

theorem recordLine_ne_nil : recordLine mem w ≠ [] := by
  unfold recordLine
  simp

/-- The decoder gives the four fields back, with a newline behind the data. -/
theorem Loggable.decodeLine (h : Loggable mem w) :
    decodeLine (recordLine mem w)
      = some ⟨w.filename, w.offset, w.length, w.firstLine mem ++ [newline]⟩ := by
  have ht : pipe ∉ w.firstLine mem :=
    fun hp => h.text_noPipe ((List.takeWhile_sublist _).subset hp)
  have hshape : recordLine mem w = w.filename ++ pipe :: (decimal w.offset
      ++ pipe :: (decimal w.length ++ pipe :: w.firstLine mem)) := by
    simp [recordLine]
  -- three pipes and no field that holds one, so four fields; the last one is not empty
  have hsplit : split pipe (recordLine mem w)
      = [w.filename, decimal w.offset, decimal w.length, w.firstLine mem] := by
    rw [hshape]
    unfold split
    rw [splitWith_append _ h.filename_noPipe, splitWith_append _ (notMem_decimal (by decide) _),
      splitWith_append _ (notMem_decimal (by decide) _), splitWith_of_notMem _ ht,
      if_neg h.firstLine_ne_nil]
    rfl
  unfold GTFS.decodeLine
  rw [hsplit]
  dsimp only
  rw [stoi_decimal w.offset_le, stoi_decimal w.length_le]
  rfl

/-- A write within its text writes bytes of the text. -/
theorem bytes_eq_take_text (h : w.length ≤ (w.text mem).length) :
    w.bytes mem = (w.text mem).take w.length := by
  obtain ⟨rest, hrest⟩ : w.text mem <+: mem w.data := List.takeWhile_prefix _
  unfold Write.bytes
  rw [← hrest, List.take_append_of_le_length h]

/-- **Round trip.** The line of a loggable write is replayed as that write. -/
theorem Loggable.lineWrite (h : Loggable mem w) (dirname : Bytes) :
    lineWrite dirname (recordLine mem w)
      = some (fullFilePath dirname w.filename, w.patch mem) := by
  -- the replayed string starts with the data, whether or not that has its newline
  have hlen : w.length ≤ (w.firstLine mem ++ [newline]).length := by
    have hle := h.length_le_text
    rcases h.text_eq with heq | heq
    · rw [heq] at hle
      rw [List.length_append]
      omega
    · rw [heq] at hle
      exact hle
  have htake : ((w.firstLine mem ++ [newline]) ++ [0]).take w.length = w.bytes mem := by
    rw [List.take_append_of_le_length hlen, bytes_eq_take_text h.length_le_text]
    have hle := h.length_le_text
    rcases h.text_eq with heq | heq
    · rw [heq] at hle ⊢
      exact List.take_append_of_le_length hle
    · rw [heq]
  -- the length stays within the string, so nothing behind it is read
  have hwrites : (⟨w.filename, w.offset, w.length, w.firstLine mem ++ [newline]⟩ :
      LogRecord).writes = some (w.patch mem) := by
    unfold LogRecord.writes
    rw [if_neg, if_neg]
    · simp only [Int.toNat_natCast]
      rw [htake]
      rfl
    · exact Int.not_lt.mpr (Int.natCast_nonneg _)
    · rintro (hneg | hlong)
      · exact absurd hneg (Int.not_lt.mpr (Int.natCast_nonneg _))
      · simp only at hlong
        omega
  unfold GTFS.lineWrite
  rw [h.decodeLine, Option.bind_eq_bind, Option.bind_some, hwrites]
  rfl

/-- The first line of the log is the line of the first record. -/
theorem logLines_recordLine_append (h : newline ∉ w.filename) (rest : Bytes) :
    logLines (recordLine mem w ++ newline :: rest) = recordLine mem w :: logLines rest := by
  have hkeep : decide (recordLine mem w ≠ []) = true := decide_eq_true recordLine_ne_nil
  unfold logLines
  rw [splitWith_append _ (newline_notMem_recordLine h), if_pos hkeep]
  rfl

/-- The record of a loggable write is one line. The newline that the data may end
with only adds an empty line, which is skipped. -/
theorem Loggable.logLines_append (h : Loggable mem w) (hfile : newline ∉ w.filename)
    (rest : Bytes) :
    logLines (logRecord mem w ++ rest) = recordLine mem w :: logLines rest := by
  rcases h.text_eq with heq | heq
  · have hshape : logRecord mem w ++ rest = recordLine mem w ++ newline :: rest := by
      simp [logRecord, recordLine, heq]
    rw [hshape, logLines_recordLine_append hfile]
  · have hshape : logRecord mem w ++ rest
        = recordLine mem w ++ newline :: ([] ++ newline :: rest) := by
      simp [logRecord, recordLine, heq]
    rw [hshape, logLines_recordLine_append hfile]
    unfold logLines
    rw [splitWith_append _ List.not_mem_nil]
    rfl

/-- A record is appended to a log of writes to its file. -/
theorem WholeLines.map_lineWrite_append {root log : Bytes} {ps : List (Patch UInt8)}
    (hlog : WholeLines log) (hlines : (logLines log).map (lineWrite root) =
      ps.map fun p => some (fullFilePath root w.filename, p)) (hw : Decodable mem w) :
    (logLines (log ++ logRecord mem w)).map (lineWrite root) =
      (ps ++ [w.patch mem]).map fun p => some (fullFilePath root w.filename, p) := by
  -- the record is one line, which decodes to the write
  have hrecord : logLines (logRecord mem w) = [recordLine mem w] := by
    have happend := hw.toLoggable.logLines_append hw.filename_noNewline []
    rwa [List.append_nil] at happend
  rw [hlog.logLines_append, List.map_append, hlines, hrecord, List.map_append, List.map_singleton,
    hw.toLoggable.lineWrite root]
  rfl

/-- **The log is read back record by record.** -/
theorem logLines_logOf {ws : List Write} (h : ∀ w ∈ ws, Decodable mem w) :
    logLines (logOf mem ws) = ws.map (recordLine mem) := by
  induction ws with
  | nil => rfl
  | cons w ws ih =>
    have hw := h w List.mem_cons_self
    have hws := ih fun v hv => h v (List.mem_cons_of_mem w hv)
    unfold logOf at hws ⊢
    rw [List.flatMap_cons, List.map_cons,
      hw.toLoggable.logLines_append hw.filename_noNewline, hws]

end Memory

end GTFS
end OSLab
