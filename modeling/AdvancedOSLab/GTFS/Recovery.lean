import AdvancedOSLab.Framework.System
import AdvancedOSLab.GTFS.Log

/-!
# Redo recovery of a GTFS file

One process runs `gtfs_sync_write_file` calls on a file and is stopped at some
point: between two calls, between the two halves of a call, or in the middle of the
data write. Runs of `sync_log_to_file` over the same log may come at any time, and
they may be stopped as well.

`recovery` says that from every state reached in this way a complete run of
`sync_log_to_file` leaves the data file equal to its content at the moment the log
was emptied, overlaid with all logged writes in log order, and that a second run
changes nothing. The invariant is one equation: overlaying the logged writes on the
data file *as it is now* gives the same as overlaying them on the old content. An
appended record extends both sides, and everything that is ever written to the data
file is the beginning of a logged write, which the overlay absorbs
(`Patch.applyAll_absorb`).

`newline_in_filename_is_lost` shows why the file name must not contain a newline:
the log is read line by line, so the record falls apart.
-/

namespace OSLab
namespace GTFS
namespace Recovery

open Text Bytes

section

variable (mem : ℕ → Bytes) (dirname filename : Bytes)

/-! ### The system -/

/-- The disk, the writes whose records have been appended since the log was
emptied, the call that has appended its record but not written its data, and
whether the process has been stopped. -/
structure State where
  disk : Disk
  logged : List Write
  current : Option Write
  stopped : Bool

inductive Label where
  /-- A call of `gtfs_sync_write_file` appends its record. -/
  | append (w : Write)
  /-- It writes its data and returns. -/
  | finish
  /-- The process is stopped, a call under way after `k` bytes of its data. -/
  | stop (k : ℕ)
  /-- A run of `sync_log_to_file` that is stopped. -/
  | replayStopped (j k : ℕ)
  /-- A complete run of `sync_log_to_file`. -/
  | replayFinished

/-- One file of one directory, from a disk on. -/
def recoverySystem (disk : Disk) : System State Label where
  init := ⟨disk, [], none, false⟩
  step s
    | .append w =>
      -- calls do not overlap: the next one starts after the last one has returned
      if s.stopped = false ∧ s.current.isNone ∧ w.filename = filename then
        some { s with
          disk := appendLog mem dirname w s.disk
          logged := s.logged ++ [w]
          current := some w }
      else none
    | .finish =>
      match s.stopped, s.current with
      | false, some w =>
        some { s with disk := writeData mem dirname w w.length s.disk, current := none }
      | _, _ => none
    | .stop k =>
      match s.stopped, s.current with
      | false, some w =>
        -- what is on disk of an interrupted data write is a beginning of it
        some { s with disk := writeData mem dirname w k s.disk, current := none, stopped := true }
      | false, none => some { s with stopped := true }
      | true, _ => none
    | .replayStopped j k =>
      (syncLogToFileUntil dirname (fullFilePath dirname filename)
        (fullLogPath dirname filename) j k s.disk).map fun disk => { s with disk }
    | .replayFinished =>
      (syncLogToFile dirname (fullFilePath dirname filename)
        (fullLogPath dirname filename) s.disk).map fun r => { s with disk := r.2 }

/-- The calls write what one line of the log can hold. -/
def loggable (_ : State) : Label → Prop
  | .append w => Loggable mem w
  | _ => True

/-- The calls write what can be decoded. -/
def decodable (_ : State) : Label → Prop
  | .append w => Decodable mem w
  | _ => True

/-- A complete run of `sync_log_to_file` leaves the data file equal to `B` with all
logged writes applied in log order, and a second run changes nothing. -/
def Recovers (B : Bytes) (s : State) : Prop :=
  ∃ disk, syncLogToFile dirname (fullFilePath dirname filename) (fullLogPath dirname filename)
      s.disk = some (0, disk) ∧
    disk (fullFilePath dirname filename)
      = some (Patch.applyAll 0 (s.logged.map (Write.patch mem)) B) ∧
    syncLogToFile dirname (fullFilePath dirname filename) (fullLogPath dirname filename)
      disk = some (0, disk)

end

/-! ### Replaying decodable records -/

section Replay

variable {mem : ℕ → Bytes} {dirname filename : Bytes} {ws : List Write}

/-- Writes to an existing file, as an update of the disk. -/
theorem writeFile_eq_update {path : Bytes} {disk : Disk} {c : Bytes} (h : disk path = some c)
    (p : Patch UInt8) : writeFile path p disk = Function.update disk path (some (p.apply 0 c)) := by
  unfold writeFile
  rw [h]

/-- A replay of lines that are all decoded to writes to one file overlays these on it. -/
theorem replay_of_map {path : Bytes} {lines : List Bytes} {ps : List (Patch UInt8)} {disk : Disk}
    {c : Bytes} (hlines : lines.map (lineWrite dirname) = ps.map fun p => some (path, p))
    (hc : disk path = some c) :
    replay dirname lines disk
      = some (Function.update disk path (some (Patch.applyAll 0 ps c))) := by
  induction lines generalizing ps disk c with
  | nil =>
    obtain rfl := List.map_eq_nil_iff.mp hlines.symm
    change some disk = some (Function.update disk _ (some c))
    rw [← hc, Function.update_eq_self]
  | cons line lines ih =>
    obtain ⟨p, ps, rfl, hp, hps⟩ := List.map_eq_cons_iff.mp hlines.symm
    rw [replay, ← hp, Option.bind_eq_bind, Option.bind_some]
    dsimp only
    rw [writeFile_eq_update hc, ih hps.symm (Function.update_self _ _ _), Function.update_idem]
    rfl

/-- A complete replay overlays the writes on the data file. -/
theorem replay_records (hdec : ∀ w ∈ ws, Decodable mem w)
    (hfile : ∀ w ∈ ws, w.filename = filename) {disk : Disk} {c : Bytes}
    (hc : disk (fullFilePath dirname filename) = some c) :
    replay dirname (ws.map (recordLine mem)) disk
      = some (Function.update disk (fullFilePath dirname filename)
          (some (Patch.applyAll 0 (ws.map (Write.patch mem)) c))) := by
  refine replay_of_map ?_ hc
  rw [List.map_map, List.map_map]
  refine List.map_congr_left fun w hw => ?_
  show lineWrite dirname (recordLine mem w) = some (fullFilePath dirname filename, w.patch mem)
  rw [(hdec w hw).lineWrite dirname, hfile w hw]

/-- A complete run of `sync_log_to_file` over a log of decodable records. -/
theorem syncLogToFile_records (hdec : ∀ w ∈ ws, Decodable mem w)
    (hfile : ∀ w ∈ ws, w.filename = filename) {disk : Disk} {c : Bytes}
    (hc : disk (fullFilePath dirname filename) = some c)
    (hlog : disk (fullLogPath dirname filename) = some (logOf mem ws)) :
    syncLogToFile dirname (fullFilePath dirname filename) (fullLogPath dirname filename) disk
      = some (0, Function.update disk (fullFilePath dirname filename)
          (some (Patch.applyAll 0 (ws.map (Write.patch mem)) c))) := by
  unfold syncLogToFile
  rw [hc, hlog]
  dsimp only
  rw [logLines_logOf hdec, replay_records hdec hfile hc]
  rfl

/-- A stopped replay overlays beginnings of the writes. -/
theorem replayUntil_records (hdec : ∀ w ∈ ws, Decodable mem w)
    (hfile : ∀ w ∈ ws, w.filename = filename) {disk : Disk} {c : Bytes}
    (hc : disk (fullFilePath dirname filename) = some c) (j k : ℕ) :
    ∃ qs, (∀ q ∈ qs, ∃ p ∈ ws.map (Write.patch mem), Patch.PrefixOf q p) ∧
      replayUntil dirname (ws.map (recordLine mem)) j k disk
        = some (Function.update disk (fullFilePath dirname filename)
            (some (Patch.applyAll 0 qs c))) := by
  have htake : ∀ w ∈ ws.take j, w ∈ ws := fun w hw => List.mem_of_mem_take hw
  have hrun := replay_records (fun w hw => hdec w (htake w hw))
    (fun w hw => hfile w (htake w hw)) hc
  -- the first `j` writes are replayed whole
  have hwhole : ∀ q ∈ (ws.take j).map (Write.patch mem),
      ∃ p ∈ ws.map (Write.patch mem), Patch.PrefixOf q p := by
    intro q hq
    obtain ⟨w, hw, rfl⟩ := List.mem_map.mp hq
    exact ⟨w.patch mem, List.mem_map_of_mem (htake w hw), Patch.PrefixOf.refl _⟩
  unfold replayUntil
  rw [← List.map_take, hrun, Option.bind_eq_bind, Option.bind_some, List.getElem?_map]
  cases hj : ws[j]? with
  | none => exact ⟨_, hwhole, rfl⟩
  | some w =>
    -- and `k` bytes of the next one
    have hw : w ∈ ws := List.mem_of_getElem? hj
    refine ⟨(ws.take j).map (Write.patch mem) ++ [⟨w.offset, (w.bytes mem).take k⟩], ?_, ?_⟩
    · intro q hq
      rcases List.mem_append.mp hq with hq | hq
      · exact hwhole q hq
      · obtain rfl := List.mem_singleton.mp hq
        exact ⟨w.patch mem, List.mem_map_of_mem hw, rfl, List.take_prefix _ _⟩
    · change (lineWrite dirname (recordLine mem w)).bind _ = _
      rw [(hdec w hw).lineWrite dirname, hfile w hw, Option.bind_some]
      dsimp only
      rw [writeFile_eq_update (Function.update_self _ _ _), Function.update_idem,
        Patch.applyAll_snoc]
      rfl

end Replay

/-! ### The invariant -/

section Invariant

variable {mem : ℕ → Bytes} {dirname filename B : Bytes} {s s' : State}

/-- The log holds the records of the logged writes, and overlaying them on the data
file gives what overlaying them on the old content `B` gives. -/
structure Consistent (mem : ℕ → Bytes) (dirname filename B : Bytes) (s : State) : Prop where
  log : s.disk (fullLogPath dirname filename) = some (logOf mem s.logged)
  data : ∃ c, s.disk (fullFilePath dirname filename) = some c ∧
    Patch.applyAll 0 (s.logged.map (Write.patch mem)) c
      = Patch.applyAll 0 (s.logged.map (Write.patch mem)) B
  dec : ∀ w ∈ s.logged, Decodable mem w
  file : ∀ w ∈ s.logged, w.filename = filename
  current : ∀ w, s.current = some w → w ∈ s.logged

namespace Consistent

/-- Overlaying beginnings of logged writes keeps the invariant. -/
theorem overlay (h : Consistent mem dirname filename B s) {c : Bytes}
    (hc : s.disk (fullFilePath dirname filename) = some c) {qs : List (Patch UInt8)}
    (hqs : ∀ q ∈ qs, ∃ p ∈ s.logged.map (Write.patch mem), Patch.PrefixOf q p)
    (hdisk : s'.disk = Function.update s.disk (fullFilePath dirname filename)
      (some (Patch.applyAll 0 qs c)))
    (hlogged : s'.logged = s.logged) (hcurrent : ∀ w, s'.current = some w → w ∈ s'.logged) :
    Consistent mem dirname filename B s' where
  log := by
    -- only the data file changes
    rw [hdisk, hlogged, Function.update_of_ne (fullLogPath_ne dirname filename)]
    exact h.log
  data := by
    obtain ⟨c', hc', heq⟩ := h.data
    obtain rfl : c = c' := Option.some.inj (hc.symm.trans hc')
    refine ⟨Patch.applyAll 0 qs c, by rw [hdisk, Function.update_self], ?_⟩
    rw [hlogged, Patch.applyAll_absorb 0 hqs]
    exact heq
  dec := by
    rw [hlogged]
    exact h.dec
  file := by
    rw [hlogged]
    exact h.file
  current := hcurrent

/-- The data write of the call under way, up to any number of bytes. -/
theorem writeData (h : Consistent mem dirname filename B s) {w : Write}
    (hw : s.current = some w) (k : ℕ)
    (hdisk : s'.disk = GTFS.writeData mem dirname w k s.disk) (hlogged : s'.logged = s.logged)
    (hcurrent : s'.current = none) : Consistent mem dirname filename B s' := by
  have hmem := h.current w hw
  obtain ⟨c, hc, -⟩ := h.data
  have hqs : ∀ q ∈ [(⟨w.offset, (w.bytes mem).take k⟩ : Patch UInt8)],
      ∃ p ∈ s.logged.map (Write.patch mem), Patch.PrefixOf q p := by
    intro q hq
    obtain rfl := List.mem_singleton.mp hq
    exact ⟨w.patch mem, List.mem_map_of_mem hmem, rfl, List.take_prefix _ _⟩
  refine h.overlay hc hqs ?_ hlogged ?_
  · rw [hdisk, GTFS.writeData, h.file w hmem, writeFile_eq_update hc]
    rfl
  · intro v hv
    rw [hcurrent] at hv
    exact absurd hv (by simp)

/-- A new record extends both sides of the equation. -/
theorem append (h : Consistent mem dirname filename B s) {w : Write} (hdec : Decodable mem w)
    (hfile : w.filename = filename) :
    Consistent mem dirname filename B
      { s with
        disk := appendLog mem dirname w s.disk
        logged := s.logged ++ [w]
        current := some w } where
  log := by
    change Function.update s.disk _ _ _ = _
    rw [hfile, Function.update_self, h.log]
    simp [logOf]
  data := by
    obtain ⟨c, hc, heq⟩ := h.data
    refine ⟨c, ?_, ?_⟩
    · -- the data file is not touched yet
      change Function.update s.disk _ _ _ = _
      rw [hfile, Function.update_of_ne (fullLogPath_ne dirname filename).symm]
      exact hc
    · change Patch.applyAll 0 ((s.logged ++ [w]).map _) c
        = Patch.applyAll 0 ((s.logged ++ [w]).map _) B
      rw [List.map_append, Patch.applyAll_append, Patch.applyAll_append, heq]
  dec := by
    intro v hv
    rcases List.mem_append.mp hv with hv | hv
    · exact h.dec v hv
    · obtain rfl := List.mem_singleton.mp hv
      exact hdec
  file := by
    intro v hv
    rcases List.mem_append.mp hv with hv | hv
    · exact h.file v hv
    · obtain rfl := List.mem_singleton.mp hv
      exact hfile
  current := by
    intro v hv
    obtain rfl := Option.some.inj hv
    exact List.mem_append_right _ List.mem_cons_self

/-- What a complete run of `sync_log_to_file` does in a consistent state. -/
theorem syncLogToFile (h : Consistent mem dirname filename B s) {c : Bytes}
    (hc : s.disk (fullFilePath dirname filename) = some c) :
    syncLogToFile dirname (fullFilePath dirname filename) (fullLogPath dirname filename) s.disk
      = some (0, Function.update s.disk (fullFilePath dirname filename)
          (some (Patch.applyAll 0 (s.logged.map (Write.patch mem)) c))) :=
  syncLogToFile_records h.dec h.file hc h.log

/-- What a stopped run does. -/
theorem syncLogToFileUntil (h : Consistent mem dirname filename B s) {c : Bytes}
    (hc : s.disk (fullFilePath dirname filename) = some c) (j k : ℕ) :
    ∃ qs, (∀ q ∈ qs, ∃ p ∈ s.logged.map (Write.patch mem), Patch.PrefixOf q p) ∧
      syncLogToFileUntil dirname (fullFilePath dirname filename) (fullLogPath dirname filename)
        j k s.disk
        = some (Function.update s.disk (fullFilePath dirname filename)
            (some (Patch.applyAll 0 qs c))) := by
  unfold GTFS.syncLogToFileUntil
  rw [hc, h.log]
  dsimp only
  rw [logLines_logOf h.dec]
  exact replayUntil_records h.dec h.file hc j k

/-- A whole overlay is an overlay of beginnings. -/
theorem whole (s : State) : ∀ q ∈ s.logged.map (Write.patch mem),
    ∃ p ∈ s.logged.map (Write.patch mem), Patch.PrefixOf q p :=
  fun q hq => ⟨q, hq, Patch.PrefixOf.refl q⟩

/-- From a consistent state, recovery succeeds and is idempotent. -/
theorem recovers (h : Consistent mem dirname filename B s) :
    Recovers mem dirname filename B s := by
  obtain ⟨c, hc, heq⟩ := h.data
  have hfirst := h.syncLogToFile hc
  refine ⟨_, hfirst, ?_, ?_⟩
  · rw [Function.update_self, heq]
  · -- the second run starts from a consistent state again
    have h' : Consistent mem dirname filename B { s with
        disk := Function.update s.disk (fullFilePath dirname filename)
          (some (Patch.applyAll 0 (s.logged.map (Write.patch mem)) c)) } :=
      h.overlay hc (whole s) rfl rfl h.current
    have hsecond := h'.syncLogToFile (Function.update_self _ _ _)
    rw [Patch.applyAll_absorb 0 (whole s), Function.update_idem] at hsecond
    exact hsecond

end Consistent

/-- Every step keeps the invariant. -/
theorem Consistent.step {disk : Disk} {l : Label} (h : Consistent mem dirname filename B s)
    (hl : decodable mem s l)
    (hstep : (recoverySystem mem dirname filename disk).step s l = some s') :
    Consistent mem dirname filename B s' := by
  obtain ⟨c, hc, -⟩ := h.data
  cases l with
  | append w =>
    replace hstep : (if _ then _ else none) = some s' := hstep
    split at hstep
    · next hcan =>
      obtain rfl := Option.some.inj hstep
      exact h.append hl hcan.2.2
    · exact absurd hstep (by simp)
  | finish =>
    change (match s.stopped, s.current with
      | false, some w => some _
      | _, _ => none) = some s' at hstep
    split at hstep
    · next w _ hw =>
      obtain rfl := Option.some.inj hstep
      exact h.writeData hw w.length rfl rfl rfl
    · exact absurd hstep (by simp)
  | stop k =>
    change (match s.stopped, s.current with
      | false, some w => some _
      | false, none => some _
      | true, _ => none) = some s' at hstep
    split at hstep
    · next w _ hw =>
      obtain rfl := Option.some.inj hstep
      exact h.writeData hw k rfl rfl rfl
    · -- stopped between two calls
      obtain rfl := Option.some.inj hstep
      exact ⟨h.log, h.data, h.dec, h.file, h.current⟩
    · exact absurd hstep (by simp)
  | replayStopped j k =>
    obtain ⟨qs, hqs, hrun⟩ := h.syncLogToFileUntil hc j k
    obtain ⟨disk', hdisk', rfl⟩ := Option.map_eq_some_iff.mp hstep
    obtain rfl := Option.some.inj (hrun.symm.trans hdisk')
    exact h.overlay hc hqs rfl rfl h.current
  | replayFinished =>
    have hrun := h.syncLogToFile hc
    obtain ⟨r, hr, rfl⟩ := Option.map_eq_some_iff.mp hstep
    obtain rfl := Option.some.inj (hrun.symm.trans hr)
    exact h.overlay hc (Consistent.whole s) rfl rfl h.current

/-- **Redo recovery.** Start from any disk on which the log of the file is empty and
the data file has content `B`. After any run of calls with decodable writes, of stops
and of stopped or complete runs of `sync_log_to_file`, a complete run leaves the data
file equal to `B` with all logged writes applied in log order, and a second one
changes nothing. -/
theorem recovery (mem : ℕ → Bytes) (dirname filename B : Bytes) (disk : Disk)
    (hdata : disk (fullFilePath dirname filename) = some B)
    (hlog : disk (fullLogPath dirname filename) = some []) (s : State)
    (hr : (recoverySystem mem dirname filename disk).Reachable (decodable mem) s) :
    Recovers mem dirname filename B s := by
  -- with an empty log both sides of the invariant are the data file itself
  refine Consistent.recovers (hr.invariant ?_ fun s l s' _ h hl hstep => h.step hl hstep)
  exact
    { log := hlog
      data := ⟨B, hdata, rfl⟩
      dec := fun w hw => absurd hw List.not_mem_nil
      file := fun w hw => absurd hw List.not_mem_nil
      current := fun w hw => absurd hw (by simp [recoverySystem]) }

end Invariant

/-! ### Two runs -/

/-- A disk with one file and its empty log, in the directory `d`. -/
def smallDisk (filename B : Bytes) : Disk := fun path =>
  if path = fullFilePath (ascii "d") filename then some B
  else if path = fullLogPath (ascii "d") filename then some []
  else none

/-- Memory in which every address holds the text `xyz`. -/
def smallMem : ℕ → Bytes := fun _ => ascii "xyz"

instance (s : State) (l : Label) : Decidable (decodable smallMem s l) :=
  match l with
  | .append w => inferInstanceAs (Decidable (Decodable smallMem w))
  | .finish | .stop _ | .replayStopped _ _ | .replayFinished => inferInstanceAs (Decidable True)

instance (s : State) (l : Label) : Decidable (loggable smallMem s l) :=
  match l with
  | .append w => inferInstanceAs (Decidable (Loggable smallMem w))
  | .finish | .stop _ | .replayStopped _ _ | .replayFinished => inferInstanceAs (Decidable True)

/-- Two overlapping writes behind the end of the file, the second stopped after one
byte, and a replay stopped inside the first record. -/
theorem recovery_small :
    ∃ s, (recoverySystem smallMem (ascii "d") (ascii "f") (smallDisk (ascii "f") [])).Reachable
        (decodable smallMem) s ∧
      s.logged.length = 2 ∧ Recovers smallMem (ascii "d") (ascii "f") [] s := by
  have hrun : (((recoverySystem smallMem (ascii "d") (ascii "f")
      (smallDisk (ascii "f") [])).guardedRun (decodable smallMem)
      ⟨smallDisk (ascii "f") [], [], none, false⟩
      [.append ⟨ascii "f", 2, 3, 0, by decide, by decide⟩, .finish,
        .append ⟨ascii "f", 1, 2, 0, by decide, by decide⟩, .stop 1, .replayStopped 0 2]).any
        fun s => s.logged.length = 2) = true := by decide +kernel
  obtain ⟨s, hr, hlen⟩ := System.Reachable.of_any hrun
  exact ⟨s, hr, of_decide_eq_true hlen,
    recovery smallMem (ascii "d") (ascii "f") [] _ (by decide) (by decide) s hr⟩

/-- **A newline in the file name is lost.** The record of a write to the file `\nf`
is read as an empty line and a record for the file `f`; the data file is not
recovered. -/
theorem newline_in_filename_is_lost :
    ∃ s, (recoverySystem smallMem (ascii "d") (ascii "\nf") (smallDisk (ascii "\nf") [])).Reachable
        (loggable smallMem) s ∧ ¬ Recovers smallMem (ascii "d") (ascii "\nf") [] s := by
  have hrun : (((recoverySystem smallMem (ascii "d") (ascii "\nf")
      (smallDisk (ascii "\nf") [])).guardedRun (loggable smallMem)
      ⟨smallDisk (ascii "\nf") [], [], none, false⟩
      [.append ⟨ascii "\nf", 0, 1, 0, by decide, by decide⟩, .stop 0]).any fun s =>
        (syncLogToFile (ascii "d") (fullFilePath (ascii "d") (ascii "\nf"))
          (fullLogPath (ascii "d") (ascii "\nf")) s.disk).map
            (fun r => r.2 (fullFilePath (ascii "d") (ascii "\nf"))) = some (some []) ∧
        Patch.applyAll 0 (s.logged.map (Write.patch smallMem)) [] = ascii "x") = true := by
    decide +kernel
  obtain ⟨s, hr, hend⟩ := System.Reachable.of_any hrun
  obtain ⟨hreplayed, hexpected⟩ := of_decide_eq_true hend
  refine ⟨s, hr, ?_⟩
  -- the replay leaves the file empty, and the write should have put an `x` there
  rintro ⟨disk, hdisk, hdata, -⟩
  rw [hdisk, Option.map_some] at hreplayed
  have hempty : disk (fullFilePath (ascii "d") (ascii "\nf")) = some [] :=
    Option.some.inj hreplayed
  rw [hempty, hexpected] at hdata
  exact absurd hdata (by decide)

end Recovery
end GTFS
end OSLab
