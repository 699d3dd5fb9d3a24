import AdvancedOSLab.GTFS.Log

/-!
# What a log record is read back as

`gtfs_sync_write_file` appends `filename|offset|length|data` and a newline, and `sync_log_to_file`
cuts the log into lines, the lines at `|`, and puts a newline behind the data field. Nothing is
escaped. `readBack` is the list of writes that comes out, and `syncLogToFile_eq_readBack` says that
they are all that `sync_log_to_file` does.

`readBack_logRecord_iff` says for which data a record is read back as the write that made it: one
line without `|` that is not empty, with or without its newline. The other data is lost in one of
three ways.

* A `|` ends the data field, and the rest of the line is ignored (`readBack_of_pipe`).
* A newline inside the data ends the line, and what is behind it is a line of its own.
* Without a byte in front of its first newline there is no data field to be read.

The argument compares the data with the field that is read. The field is a beginning of the data
(`decodeLine_recordLine_eq_some`), and what is written is the field, a newline and the terminator,
up to the length of the data.
-/

namespace OSLab
namespace GTFS

open Text Bytes

/-- The writes of the lines of a log, each with the file it goes to. -/
def readBack (dirname log : Bytes) : Option (List (Bytes × Patch UInt8)) :=
  (logLines log).mapM (lineWrite dirname)

theorem replay_eq_mapM (dirname : Bytes) (lines : List Bytes) (disk : Disk) :
    replay dirname lines disk =
      (lines.mapM (lineWrite dirname)).map fun ws =>
        ws.foldl (fun disk w => writeFile w.1 w.2 disk) disk := by
  induction lines generalizing disk with
  | nil => rfl
  | cons line lines ih =>
    rw [replay, List.mapM_cons]
    cases lineWrite dirname line with
    | none => rfl
    | some w =>
      simp only [Option.bind_eq_bind, Option.bind_some]
      rw [ih]
      cases lines.mapM (lineWrite dirname) with
      | none => rfl
      | some ws => rfl

/-- The writes that are read back are what `sync_log_to_file` does to the disk. -/
theorem syncLogToFile_eq_readBack {dirname filePath logfilePath log : Bytes} {disk : Disk}
    (hfile : (disk filePath).isSome) (hlog : disk logfilePath = some log) :
    syncLogToFile dirname filePath logfilePath disk =
      (readBack dirname log).map fun ws =>
        (0, ws.foldl (fun disk w => writeFile w.1 w.2 disk) disk) := by
  obtain ⟨c, hc⟩ := Option.isSome_iff_exists.mp hfile
  unfold syncLogToFile
  rw [hc, hlog]
  dsimp only
  rw [replay_eq_mapM, Option.map_map]
  rfl

section Record

variable {mem : ℕ → Bytes} {w : Write}

/-- The first line that the record puts into the log, and what comes behind it. -/
theorem logLines_logRecord (mem : ℕ → Bytes) (h : newline ∉ w.filename) :
    ∃ rest, logLines (logRecord mem w) = recordLine mem w :: logLines rest := by
  -- the record up to the first newline of the data, or up to the one of `endl`
  obtain ⟨behind, hbehind⟩ : w.firstLine mem <+: w.text mem := List.takeWhile_prefix _
  have hrecord : logRecord mem w = recordLine mem w ++ (behind ++ [newline]) := by
    simp only [logRecord, recordLine, ← hbehind, List.append_assoc]
  cases hcases : behind with
  | nil =>
    rw [hcases, List.nil_append] at hrecord
    exact ⟨[], hrecord ▸ logLines_recordLine_append h []⟩
  | cons c behind' =>
    -- the first line stops at a newline only
    have hc : c = newline := by
      by_contra hne
      have hdrop : behind = (w.text mem).dropWhile (· ≠ newline) := by
        rw [← List.takeWhile_append_dropWhile (p := (· ≠ newline)) (l := w.text mem)] at hbehind
        exact List.append_cancel_left hbehind
      have hhead := List.head?_dropWhile_not (· ≠ newline) (w.text mem)
      rw [← hdrop, hcases] at hhead
      simp [hne] at hhead
    rw [hcases, hc] at hrecord
    exact ⟨behind' ++ [newline], hrecord ▸ logLines_recordLine_append h (behind' ++ [newline])⟩

/-- The data field of a line is a beginning of the data up to its first newline. -/
theorem decodeLine_recordLine_eq_some (hfile : pipe ∉ w.filename) {r : LogRecord}
    (h : decodeLine (recordLine mem w) = some r) :
    w.firstLine mem ≠ [] ∧ ∃ field, pipe ∉ field ∧ field <+: w.firstLine mem ∧
      r = ⟨w.filename, w.offset, w.length, field ++ [newline]⟩ := by
  have hshape : recordLine mem w = w.filename ++ pipe :: (decimal w.offset
      ++ pipe :: (decimal w.length ++ pipe :: w.firstLine mem)) := by
    simp [recordLine]
  -- the first three fields have no separator, so all that is cut is the data
  have hsplit : split pipe (recordLine mem w)
      = w.filename :: decimal w.offset :: decimal w.length :: split pipe (w.firstLine mem) := by
    rw [hshape]
    unfold split
    rw [splitWith_append _ hfile, splitWith_append _ (notMem_decimal (by decide) _),
      splitWith_append _ (notMem_decimal (by decide) _)]
    rfl
  unfold decodeLine at h
  rw [hsplit] at h
  cases hdata : split pipe (w.firstLine mem) with
  -- a line without a fourth field is not a record
  | nil =>
    rw [hdata] at h
    exact absurd h (by simp)
  | cons field fields =>
    obtain ⟨hne, hpipe, hfield⟩ := split_eq_cons hdata
    rw [hdata] at h
    dsimp only at h
    rw [stoi_decimal w.offset_le, stoi_decimal w.length_le] at h
    exact ⟨hne, field, hpipe, hfield, (Option.some.inj h).symm⟩

/-- Data with a first line starts with a byte of it. -/
theorem head?_of_firstLine_ne_nil (h : w.firstLine mem ≠ []) :
    (w.text mem).head?.any (· ≠ newline) = true := by
  unfold Write.firstLine at h
  cases htext : w.text mem with
  | nil =>
    rw [htext] at h
    exact absurd rfl h
  | cons c text =>
    rw [htext, List.takeWhile_cons] at h
    split at h
    · next hc => exact hc
    · exact absurd rfl h

/-- What is written is the field, a newline and the terminator, up to the length. -/
theorem LogRecord.writes_eq_some {filename field : Bytes} {offset length : ℕ} {p : Patch UInt8}
    (h : LogRecord.writes ⟨filename, offset, length, field ++ [newline]⟩ = some p) :
    p = ⟨offset, (field ++ [newline, 0]).take length⟩ := by
  unfold LogRecord.writes at h
  split at h
  · exact absurd h (by simp)
  · rw [if_neg (Int.not_lt.mpr (Int.natCast_nonneg _))] at h
    simpa using h.symm

/-- A NUL-free text that starts with the field, and comes out of what is written for the field, is
the field, or the field and the newline. -/
theorem eq_of_take_field_eq {field text : Bytes} (hfield : field <+: text) (hnul : 0 ∉ text)
    (h : (field ++ [newline, 0]).take text.length = text) :
    text = field ∨ text = field ++ [newline] := by
  obtain ⟨behind, rfl⟩ := hfield
  have hbehind : behind = [newline, 0].take behind.length := by
    rw [List.length_append, List.take_length_add_append] at h
    exact (List.append_cancel_left h).symm
  match behind, hbehind with
  | [], _ => exact .inl (List.append_nil field)
  | [b], hb =>
    rw [hb]
    exact .inr rfl
  | b :: c :: rest, hb =>
    -- two bytes behind the field would have to be the newline and the terminator
    have hzero : 0 ∈ b :: c :: rest := by
      rw [hb]
      simp
    exact absurd (List.mem_append_right field hzero) hnul

/-- **Which records are read back.** The record of a write of a whole NUL-free text is read back as
that write and no other, exactly when the text is one line without `|` that is not empty. -/
theorem readBack_logRecord_iff (mem : ℕ → Bytes) (dirname : Bytes) (w : Write)
    (hpipe : pipe ∉ w.filename) (hnewline : newline ∉ w.filename)
    (hlength : w.length = (w.text mem).length) :
    readBack dirname (logRecord mem w) = some [(fullFilePath dirname w.filename, w.patch mem)] ↔
      pipe ∉ w.text mem ∧ newline ∉ (w.text mem).dropLast ∧
        (w.text mem).head?.any (· ≠ newline) = true := by
  constructor
  · intro h
    obtain ⟨rest, hlines⟩ := logLines_logRecord mem hnewline
    unfold readBack at h
    rw [hlines, List.mapM_cons] at h
    -- the first line gives the write
    obtain ⟨write, hwrite, htail⟩ := Option.bind_eq_some_iff.mp h
    obtain rfl : write = (fullFilePath dirname w.filename, w.patch mem) := by
      obtain ⟨writes, -, heq⟩ := Option.bind_eq_some_iff.mp htail
      exact (List.cons.inj (Option.some.inj heq)).1
    obtain ⟨r, hr, hwrite⟩ := Option.bind_eq_some_iff.mp hwrite
    obtain ⟨p, hp, hwrite⟩ := Option.bind_eq_some_iff.mp hwrite
    obtain rfl : p = w.patch mem := congrArg Prod.snd (Option.some.inj hwrite)
    obtain ⟨hne, field, hfieldPipe, hfield, rfl⟩ := decodeLine_recordLine_eq_some hpipe hr
    -- the write has the whole text, so the field is the text, but for a newline at the end
    have hbytes : w.bytes mem = w.text mem := by
      rw [bytes_eq_take_text hlength.le, hlength, List.take_length]
    have htake : (field ++ [newline, 0]).take (w.text mem).length = w.text mem := by
      rw [← hlength, ← hbytes]
      exact (congrArg Patch.bytes (LogRecord.writes_eq_some hp)).symm
    have hfieldNewline : newline ∉ field :=
      fun hmem => newline_notMem_firstLine (hfield.subset hmem)
    have hfieldText : field <+: w.text mem := hfield.trans (List.takeWhile_prefix _)
    have hhead := head?_of_firstLine_ne_nil hne
    rcases eq_of_take_field_eq hfieldText (zero_notMem_cstr _) htake with htext | htext
    · rw [htext] at hhead ⊢
      exact ⟨hfieldPipe, fun hmem => hfieldNewline (List.mem_of_mem_dropLast hmem), hhead⟩
    · rw [htext] at hhead ⊢
      refine ⟨?_, ?_, hhead⟩
      · rw [List.mem_append, not_or]
        exact ⟨hfieldPipe, by decide⟩
      · rw [List.dropLast_concat]
        exact hfieldNewline
  · rintro ⟨htext, honeLine, hfirst⟩
    have hloggable : Loggable mem w := ⟨hpipe, htext, honeLine, hfirst, hlength.le⟩
    have hlines : logLines (logRecord mem w) = [recordLine mem w] := by
      have happend := hloggable.logLines_append hnewline []
      rwa [List.append_nil] at happend
    unfold readBack
    rw [hlines, List.mapM_cons, hloggable.lineWrite]
    rfl

/-- The line `ab` with its newline, written behind three bytes of `f.txt`. -/
theorem readBack_logRecord_line :
    readBack (ascii "d") (logRecord (fun _ => ascii "ab\n")
        ⟨ascii "f.txt", 3, 3, 0, by decide, by decide⟩) =
      some [(fullFilePath (ascii "d") (ascii "f.txt"), ⟨3, ascii "ab\n"⟩)] :=
  (readBack_logRecord_iff (fun _ => ascii "ab\n") (ascii "d")
    ⟨ascii "f.txt", 3, 3, 0, by decide, by decide⟩ (by decide) (by decide) (by decide)).mpr
      ⟨by decide, by decide, by decide⟩

/-- The text `a|b`, written to the front of `f.txt`, is read back as an `a`, a newline and a NUL. -/
theorem readBack_of_pipe :
    Write.patch (fun _ => ascii "a|b") ⟨ascii "f.txt", 0, 3, 0, by decide, by decide⟩ =
        ⟨0, ascii "a|b"⟩ ∧
      readBack (ascii "d") (logRecord (fun _ => ascii "a|b")
          ⟨ascii "f.txt", 0, 3, 0, by decide, by decide⟩) =
        some [(fullFilePath (ascii "d") (ascii "f.txt"), ⟨0, [97, newline, 0]⟩)] := by
  decide +kernel

end Record

end GTFS
end OSLab
