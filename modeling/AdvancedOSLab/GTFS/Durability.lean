import AdvancedOSLab.Framework.Durability
import AdvancedOSLab.GTFS.Settled

/-!
# Synced writes survive crashes

Processes work in one directory one after the other. Each of them makes calls of the API, and is
killed at some point: between two calls, or inside one. A call that is killed leaves the disk as the
system calls behind it have made it (`stopped`): a sync that has appended its record but written
only some bytes of its data, a clean that has gone through some of the files and is in the middle of
the replay of the next, an open in the middle of its recovery. A record that fits into the buffer of
the stream is appended by one system call, and of a longer one the log may have got a part only
(`appended`). `stoppedSync_last` and `cleanEntriesUntil_last` connect the stopped calls with those
that return.

What survives is not what the data files hold, but what a replay of their logs makes of them:
`recoverable`. It is a map from names to contents, and of everything that is ever done to the disk
only three things change it (`Change`): a file is created, a record is appended, a file is removed
together with its log. The rest are the beginnings of logged writes, which the replay absorbs, and
the truncation of logs that have been replayed. So the calls are atomic, and
`acknowledged_calls_survive` says what that means for a run with any number of crashes.
`clean_recovers` and `read_after_open` say that `gtfs_clean` and the first `gtfs_open_file` of a
process bring the recoverable contents back into the data file.

Two kinds of kills are left out. One is inside a sync whose record does not fit into the buffer. The
other is inside `gtfs_remove_file`, between the removal of the file and that of its log. The log
stays behind, and when the file is created anew its old writes come back
(`removed_file_comes_back`).
-/

namespace OSLab
namespace GTFS
namespace Durability

open Text Bytes Process Clean Settled

/-! ### What a replay would restore -/

/-- The lines of the log are writes to the file. -/
structure OwnLog (root name log : Bytes) : Prop where
  wholeLines : WholeLines log
  patches : ∃ ps : List (Patch UInt8), (logLines log).map (lineWrite root) =
    ps.map fun p => some (fullFilePath root name, p)

/-- Every log belongs to a file that is there, and holds writes to this file. -/
def Sound (root : Bytes) (disk : Disk) : Prop :=
  ∀ name, ¬ IsLogName name → ∀ log, disk (fullLogPath root name) = some log →
    (disk (fullFilePath root name)).isSome ∧ OwnLog root name log

/-- The files of a directory, with their contents. -/
abbrev Files := Bytes → Option Bytes

/-- What a replay of its log makes of each file. Logs have no contents of their own. -/
def recoverable (root : Bytes) (disk : Disk) : Files := fun name =>
  if IsLogName name then none
  else
    match disk (fullLogPath root name) with
    | none => disk (fullFilePath root name)
    | some log =>
      (replay root (logLines log) disk).bind fun disk' => disk' (fullFilePath root name)

section Recoverable

variable {root name log content : Bytes} {disk disk' : Disk} {ps qs : List (Patch UInt8)}

theorem recoverable_of_isLogName (hname : IsLogName name) : recoverable root disk name = none :=
  if_pos hname

theorem recoverable_of_no_log (hname : ¬ IsLogName name)
    (hlog : disk (fullLogPath root name) = none) :
    recoverable root disk name = disk (fullFilePath root name) := by
  unfold recoverable
  rw [if_neg hname, hlog]

theorem recoverable_of_log (hname : ¬ IsLogName name)
    (hlog : disk (fullLogPath root name) = some log)
    (hcontent : disk (fullFilePath root name) = some content)
    (hlines : (logLines log).map (lineWrite root) =
      ps.map fun p => some (fullFilePath root name, p)) :
    recoverable root disk name = some (Patch.applyAll 0 ps content) := by
  unfold recoverable
  rw [if_neg hname, hlog]
  dsimp only
  rw [Recovery.replay_of_map hlines hcontent, Option.bind_some, Function.update_self]

theorem recoverable_of_empty_log (hname : ¬ IsLogName name)
    (hlog : disk (fullLogPath root name) = some [])
    (hdata : (disk (fullFilePath root name)).isSome) :
    recoverable root disk name = disk (fullFilePath root name) := by
  obtain ⟨content, hcontent⟩ := Option.isSome_iff_exists.mp hdata
  have hnothing : (logLines []).map (lineWrite root) =
      ([] : List (Patch UInt8)).map fun p => some (fullFilePath root name, p) := rfl
  rw [recoverable_of_log hname hlog hcontent hnothing, hcontent]
  rfl

theorem OwnLog.nil (root name : Bytes) : OwnLog root name [] :=
  ⟨.inl rfl, [], rfl⟩

theorem touches_data (h : Touches root name disk disk') {name' : Bytes}
    (hname' : ¬ IsLogName name') (hne : name' ≠ name) :
    disk' (fullFilePath root name') = disk (fullFilePath root name') :=
  h _ (fun heq => hne (fullFilePath_inj.mp heq)) (fullFilePath_ne_log hname' name)

theorem touches_log (h : Touches root name disk disk') (hname : ¬ IsLogName name)
    {name' : Bytes} (hne : name' ≠ name) :
    disk' (fullLogPath root name') = disk (fullLogPath root name') :=
  h _ (fullFilePath_ne_log hname name').symm fun heq => hne (fullLogPath_inj.mp heq)

/-- A change of one file and its log, after which the log is one of that file. -/
theorem Sound.touch (h : Sound root disk) (hname : ¬ IsLogName name)
    (htouch : Touches root name disk disk')
    (hown : ∀ log, disk' (fullLogPath root name) = some log →
      (disk' (fullFilePath root name)).isSome ∧ OwnLog root name log) :
    Sound root disk' := by
  intro name' hname' log hlog
  by_cases hne : name' = name
  · subst hne
    exact hown log hlog
  · rw [touches_data htouch hname' hne]
    exact h name' hname' log (touches_log htouch hname hne ▸ hlog)

/-- It changes what can be recovered of that file only. -/
theorem Sound.recoverable_touch (h : Sound root disk) (hname : ¬ IsLogName name)
    (htouch : Touches root name disk disk') :
    recoverable root disk' =
      Function.update (recoverable root disk) name (recoverable root disk' name) := by
  funext name'
  by_cases hne : name' = name
  · subst hne
    rw [Function.update_self]
  · rw [Function.update_of_ne hne]
    by_cases hname' : IsLogName name'
    · rw [recoverable_of_isLogName hname', recoverable_of_isLogName hname']
    have hdata := touches_data htouch hname' hne
    have hlogs := touches_log htouch hname hne
    cases hlog : disk (fullLogPath root name') with
    | none =>
      rw [recoverable_of_no_log hname' hlog, recoverable_of_no_log hname' (hlogs.trans hlog), hdata]
    | some log =>
      -- the log is one of `name'`, so its replay looks at no other file
      obtain ⟨hsome, -, ps, hlines⟩ := h name' hname' log hlog
      obtain ⟨content, hcontent⟩ := Option.isSome_iff_exists.mp hsome
      rw [recoverable_of_log hname' hlog hcontent hlines,
        recoverable_of_log hname' (hlogs.trans hlog) (hdata.trans hcontent) hlines]

/-- A file can be recovered if and only if it is there. -/
theorem Sound.isSome_recoverable (h : Sound root disk) (hname : ¬ IsLogName name) :
    (recoverable root disk name).isSome = (disk (fullFilePath root name)).isSome := by
  cases hlog : disk (fullLogPath root name) with
  | none => rw [recoverable_of_no_log hname hlog]
  | some log =>
    obtain ⟨hsome, -, ps, hlines⟩ := h name hname log hlog
    obtain ⟨content, hcontent⟩ := Option.isSome_iff_exists.mp hsome
    rw [recoverable_of_log hname hlog hcontent hlines, hcontent]
    rfl

end Recoverable

/-! ### What can happen to the disk -/

/-- The operations on the files that cannot be interrupted. -/
inductive Op where
  | create (name : Bytes)
  | write (name : Bytes) (p : Patch UInt8)
  | remove (name : Bytes)
deriving DecidableEq

/-- A file that is there is not created anew, and one that is not there is not written to. -/
def Op.apply : Op → Files → Files
  | .create name, files => Function.update files name (some ((files name).getD []))
  | .write name p, files => Function.update files name ((files name).map (p.apply 0))
  | .remove name, files => Function.update files name none

/-- The changes of the disk that the calls are made of. The data file is only ever overlaid with
beginnings of writes that are in its log, and a log is only truncated when its writes have been
made. -/
inductive Change (root : Bytes) (disk : Disk) : Option Op → Disk → Prop
  | created {name : Bytes} (hname : ¬ IsLogName name) :
      Change root disk (some (.create name)) (create (fullFilePath root name) disk)
  | logCreated {name : Bytes} (hname : ¬ IsLogName name)
      (hdata : (disk (fullFilePath root name)).isSome)
      (hlog : disk (fullLogPath root name) = none) :
      Change root disk none (Function.update disk (fullLogPath root name) (some []))
  | logged {mem : ℕ → Bytes} {w : Write} {log : Bytes} (hname : ¬ IsLogName w.filename)
      (hlog : disk (fullLogPath root w.filename) = some log) (hw : Decodable mem w) :
      Change root disk (some (.write w.filename (w.patch mem)))
        (Function.update disk (fullLogPath root w.filename) (some (log ++ logRecord mem w)))
  | redone {name log content : Bytes} {ps qs : List (Patch UInt8)} (hname : ¬ IsLogName name)
      (hlog : disk (fullLogPath root name) = some log)
      (hcontent : disk (fullFilePath root name) = some content)
      (hlines : (logLines log).map (lineWrite root) =
        ps.map fun p => some (fullFilePath root name, p))
      (hqs : ∀ q ∈ qs, ∃ p ∈ ps, Patch.PrefixOf q p) :
      Change root disk none
        (Function.update disk (fullFilePath root name) (some (Patch.applyAll 0 qs content)))
  | trimmed {name log content : Bytes} {ps : List (Patch UInt8)} (hname : ¬ IsLogName name)
      (hlog : disk (fullLogPath root name) = some log)
      (hcontent : disk (fullFilePath root name) = some content)
      (hlines : (logLines log).map (lineWrite root) =
        ps.map fun p => some (fullFilePath root name, p))
      (hdone : Patch.applyAll 0 ps content = content) :
      Change root disk none (Function.update disk (fullLogPath root name) (some []))
  | removed {name : Bytes} (hname : ¬ IsLogName name) :
      Change root disk (some (.remove name))
        (Function.update (Function.update disk (fullFilePath root name) none)
          (fullLogPath root name) none)

section Change

variable {root name : Bytes} {disk disk' : Disk} {op : Option Op}

theorem touches_update_data (name : Bytes) (disk : Disk) (c : Option Bytes) :
    Touches root name disk (Function.update disk (fullFilePath root name) c) :=
  fun _ hpath _ => Function.update_of_ne hpath _ _

theorem touches_update_log (name : Bytes) (disk : Disk) (c : Option Bytes) :
    Touches root name disk (Function.update disk (fullLogPath root name) c) :=
  fun _ _ hpath => Function.update_of_ne hpath _ _

theorem touches_update_both (name : Bytes) (disk : Disk) (c c' : Option Bytes) :
    Touches root name disk (Function.update
      (Function.update disk (fullFilePath root name) c) (fullLogPath root name) c') :=
  fun _ hpath hlogPath =>
    (Function.update_of_ne hlogPath _ _).trans (Function.update_of_ne hpath _ _)

/-- The data file, after a change of the log. -/
theorem data_update_log (name : Bytes) (disk : Disk) (c : Option Bytes) :
    Function.update disk (fullLogPath root name) c (fullFilePath root name) =
      disk (fullFilePath root name) :=
  Function.update_of_ne (fullLogPath_ne root name).symm _ _

/-- The log, after a change of the data file. -/
theorem log_update_data (name : Bytes) (disk : Disk) (c : Option Bytes) :
    Function.update disk (fullFilePath root name) c (fullLogPath root name) =
      disk (fullLogPath root name) :=
  Function.update_of_ne (fullLogPath_ne root name) _ _

/-- The logs stay logs of files that are there. -/
theorem Change.sound (h : Sound root disk) (hchange : Change root disk op disk') :
    Sound root disk' := by
  cases hchange with
  -- a change touches one file and its log, so one log has to be looked at
  | @created name hname =>
    rw [create_eq_update]
    refine h.touch hname (touches_update_data name disk _) fun log hlog => ?_
    rw [log_update_data] at hlog
    rw [Function.update_self]
    exact ⟨rfl, (h name hname log hlog).2⟩
  | @logCreated name hname hdata hlog =>
    refine h.touch hname (touches_update_log name disk _) fun log hlog => ?_
    rw [Function.update_self] at hlog
    rw [data_update_log]
    exact ⟨hdata, Option.some.inj hlog ▸ OwnLog.nil root name⟩
  | @logged mem w log hname hlog hw =>
    -- the new record makes the log longer by a whole line for the same file
    obtain ⟨hdata, hwhole, ps, hlines⟩ := h w.filename hname log hlog
    refine h.touch hname (touches_update_log w.filename disk _) fun log' hlog' => ?_
    rw [Function.update_self] at hlog'
    obtain rfl := Option.some.inj hlog'
    rw [data_update_log]
    exact ⟨hdata, hwhole.append (.inr ⟨_, rfl⟩), _, hwhole.map_lineWrite_append hlines hw⟩
  | @redone name log content ps qs hname hlog hcontent hlines hqs =>
    refine h.touch hname (touches_update_data name disk _) fun log' hlog' => ?_
    rw [log_update_data] at hlog'
    rw [Function.update_self]
    exact ⟨rfl, (h name hname log' hlog').2⟩
  | @trimmed name log content ps hname hlog hcontent hlines hdone =>
    refine h.touch hname (touches_update_log name disk _) fun log' hlog' => ?_
    rw [Function.update_self] at hlog'
    rw [data_update_log, hcontent]
    exact ⟨rfl, Option.some.inj hlog' ▸ OwnLog.nil root name⟩
  | @removed name hname =>
    refine h.touch hname (touches_update_both name disk none none) fun log hlog => ?_
    rw [Function.update_self] at hlog
    exact absurd hlog (by simp)

/-- A change of one file that leaves what can be recovered of it. -/
theorem Sound.recoverable_eq (h : Sound root disk) (hname : ¬ IsLogName name)
    (htouch : Touches root name disk disk')
    (hsame : recoverable root disk' name = recoverable root disk name) :
    recoverable root disk' = recoverable root disk := by
  rw [h.recoverable_touch hname htouch, hsame, Function.update_eq_self]

/-- What can be recovered changes by the operation, and not at all where there is none. -/
theorem Change.recoverable (h : Sound root disk) (hchange : Change root disk op disk') :
    recoverable root disk' =
      op.toList.foldl (fun files op => op.apply files) (recoverable root disk) := by
  have hsound := hchange.sound h
  cases hchange with
  | @created name hname =>
    show _ = Function.update _ name _
    have htouch : Touches root name disk (create (fullFilePath root name) disk) := by
      rw [create_eq_update]
      exact touches_update_data name disk _
    rw [h.recoverable_touch hname htouch]
    congr 1
    cases hlog : disk (fullLogPath root name) with
    | none =>
      have hlog' : create (fullFilePath root name) disk (fullLogPath root name) = none := by
        rw [create_of_ne (fullLogPath_ne root name), hlog]
      rw [recoverable_of_no_log hname hlog', recoverable_of_no_log hname hlog, create_self]
    | some log =>
      -- the log belongs to a file, which is therefore there already
      obtain ⟨hdata, -⟩ := h name hname log hlog
      obtain ⟨content, hcontent⟩ := Option.isSome_iff_exists.mp hdata
      have hcreate : create (fullFilePath root name) disk = disk := by
        rw [create_eq_update, hcontent, Option.getD_some, ← hcontent, Function.update_eq_self]
      have hsome : (GTFS.Durability.recoverable root disk name).isSome := by
        rw [h.isSome_recoverable hname, hdata]
      obtain ⟨content', hcontent'⟩ := Option.isSome_iff_exists.mp hsome
      rw [hcreate, hcontent', Option.getD_some]
  | @logCreated name hname hdata hlog =>
    refine h.recoverable_eq hname (touches_update_log name disk _) ?_
    have hdata' : (Function.update disk (fullLogPath root name) (some [])
        (fullFilePath root name)).isSome := (data_update_log name disk _).symm ▸ hdata
    rw [recoverable_of_no_log hname hlog,
      recoverable_of_empty_log hname (Function.update_self ..) hdata', data_update_log]
  | @logged mem w log hname hlog hw =>
    show _ = Function.update _ w.filename _
    rw [h.recoverable_touch hname (touches_update_log w.filename disk _)]
    congr 1
    obtain ⟨hdata, hwhole, ps, hlines⟩ := h w.filename hname log hlog
    obtain ⟨content, hcontent⟩ := Option.isSome_iff_exists.mp hdata
    have hcontent' :=
      (data_update_log w.filename disk (some (log ++ logRecord mem w))).trans hcontent
    rw [recoverable_of_log hname hlog hcontent hlines,
      recoverable_of_log hname (Function.update_self ..) hcontent'
        (hwhole.map_lineWrite_append hlines hw), Patch.applyAll_snoc]
    rfl
  | @redone name log content ps qs hname hlog hcontent hlines hqs =>
    refine h.recoverable_eq hname (touches_update_data name disk _) ?_
    rw [recoverable_of_log hname hlog hcontent hlines,
      recoverable_of_log hname ((log_update_data name disk _).trans hlog)
        (Function.update_self ..) hlines, Patch.applyAll_absorb 0 hqs]
  | @trimmed name log content ps hname hlog hcontent hlines hdone =>
    refine h.recoverable_eq hname (touches_update_log name disk _) ?_
    have hcontent' := (data_update_log name disk (some [])).trans hcontent
    have hempty := recoverable_of_empty_log hname (Function.update_self ..)
      (Option.isSome_iff_exists.mpr ⟨content, hcontent'⟩)
    rw [recoverable_of_log hname hlog hcontent hlines, hdone, hempty, hcontent']
  | @removed name hname =>
    show _ = Function.update (GTFS.Durability.recoverable root disk) name none
    rw [h.recoverable_touch hname (touches_update_both name disk none none)]
    congr 1
    rw [recoverable_of_no_log hname (Function.update_self ..), data_update_log,
      Function.update_self]

/-- Changes one after the other, with their operations. -/
inductive Changes (root : Bytes) : Disk → List Op → Disk → Prop
  | refl (disk : Disk) : Changes root disk [] disk
  | step {disk disk' disk'' : Disk} {op : Option Op} {ops : List Op}
      (hchange : Change root disk op disk') (hrest : Changes root disk' ops disk'') :
      Changes root disk (op.toList ++ ops) disk''

namespace Changes

variable {disk'' : Disk} {ops ops' : List Op}

theorem single {op : Op} (hchange : Change root disk (some op) disk') :
    Changes root disk [op] disk' :=
  .step hchange (.refl disk')

theorem silent (hchange : Change root disk none disk') : Changes root disk [] disk' :=
  .step hchange (.refl disk')

theorem trans (h : Changes root disk ops disk') (h' : Changes root disk' ops' disk'') :
    Changes root disk (ops ++ ops') disk'' := by
  induction h with
  | refl => exact h'
  | step hchange _ ih =>
    rw [List.append_assoc]
    exact .step hchange (ih h')

theorem sound (h : Changes root disk ops disk') (hsound : Sound root disk) :
    Sound root disk' := by
  induction h with
  | refl => exact hsound
  | step hchange _ ih => exact ih (hchange.sound hsound)

theorem recoverable (h : Changes root disk ops disk') (hsound : Sound root disk) :
    recoverable root disk' =
      ops.foldl (fun files op => op.apply files) (recoverable root disk) := by
  induction h with
  | refl => rfl
  | step hchange _ ih =>
    rw [ih (hchange.sound hsound), hchange.recoverable hsound, List.foldl_append]

end Changes
end Change

/-! ### Replays -/

section Replay

variable {root name log content : Bytes} {disk disk' : Disk} {ps : List (Patch UInt8)}

/-- A replay that is stopped overlays beginnings of the writes. -/
theorem replayUntil_of_map {path : Bytes} {lines : List Bytes}
    (hlines : lines.map (lineWrite root) = ps.map fun p => some (path, p))
    (hcontent : disk path = some content) (j k : ℕ) :
    ∃ qs, (∀ q ∈ qs, ∃ p ∈ ps, Patch.PrefixOf q p) ∧ replayUntil root lines j k disk =
      some (Function.update disk path (some (Patch.applyAll 0 qs content))) := by
  -- the first `j` lines are replayed whole
  have htake : (lines.take j).map (lineWrite root) = (ps.take j).map fun p => some (path, p) := by
    rw [List.map_take, hlines, List.map_take]
  have hwhole : ∀ q ∈ ps.take j, ∃ p ∈ ps, Patch.PrefixOf q p := fun q hq =>
    ⟨q, List.mem_of_mem_take hq, Patch.PrefixOf.refl q⟩
  have hline : lines[j]?.map (lineWrite root) = ps[j]?.map fun p => some (path, p) := by
    rw [← List.getElem?_map, hlines, List.getElem?_map]
  unfold replayUntil
  rw [Recovery.replay_of_map htake hcontent, Option.bind_eq_bind, Option.bind_some]
  cases hj : ps[j]? with
  | none =>
    have hnone : lines[j]? = none := by
      rw [hj] at hline
      exact Option.map_eq_none_iff.mp hline
    rw [hnone]
    exact ⟨ps.take j, hwhole, rfl⟩
  | some p =>
    -- and `k` bytes of the next one
    rw [hj] at hline
    obtain ⟨line, hsome, hwrite⟩ := Option.map_eq_some_iff.mp hline
    rw [hsome]
    refine ⟨ps.take j ++ [⟨p.offset, p.bytes.take k⟩], fun q hq => ?_, ?_⟩
    · rcases List.mem_append.mp hq with hq | hq
      · exact hwhole q hq
      · obtain rfl := List.mem_singleton.mp hq
        exact ⟨p, List.mem_of_getElem? hj, rfl, List.take_prefix _ _⟩
    · show (lineWrite root line).bind _ = _
      rw [hwrite, Option.bind_some]
      dsimp only
      rw [Recovery.writeFile_eq_update (Function.update_self _ _ _), Function.update_idem,
        Patch.applyAll_snoc]

/-- `sync_log_to_file`, stopped somewhere, changes nothing that can be recovered. -/
theorem Sound.syncLogToFileUntil (h : Sound root disk) (hname : ¬ IsLogName name) {path : Bytes}
    {j k : ℕ} (hrun : syncLogToFileUntil root path (fullLogPath root name) j k disk = some disk') :
    Changes root disk [] disk' := by
  unfold GTFS.syncLogToFileUntil at hrun
  split at hrun
  · next log hpath hlog =>
    obtain ⟨hdata, -, ps, hlines⟩ := h name hname log hlog
    obtain ⟨content, hcontent⟩ := Option.isSome_iff_exists.mp hdata
    obtain ⟨qs, hqs, hreplay⟩ := replayUntil_of_map hlines hcontent j k
    obtain rfl := Option.some.inj (hreplay.symm.trans hrun)
    exact .silent (.redone hname hlog hcontent hlines hqs)
  · obtain rfl := Option.some.inj hrun
    exact .refl disk

/-- A complete replay, behind which the log is truncated. -/
theorem Sound.replay (h : Sound root disk) (hname : ¬ IsLogName name)
    (hlog : disk (fullLogPath root name) = some log)
    (hreplay : replay root (logLines log) disk = some disk') :
    Changes root disk [] (Function.update disk' (fullLogPath root name) (some [])) := by
  obtain ⟨hdata, -, ps, hlines⟩ := h name hname log hlog
  obtain ⟨content, hcontent⟩ := Option.isSome_iff_exists.mp hdata
  have hself : ∀ q ∈ ps, ∃ p ∈ ps, Patch.PrefixOf q p := fun q hq => ⟨q, hq, .refl q⟩
  rw [Recovery.replay_of_map hlines hcontent] at hreplay
  obtain rfl := Option.some.inj hreplay
  refine (Changes.silent (.redone hname hlog hcontent hlines hself)).trans (.silent ?_)
  exact .trimmed hname ((log_update_data name disk _).trans hlog) (Function.update_self ..) hlines
    (Patch.applyAll_absorb 0 hself content)

end Replay

/-! ### Processes that are killed -/

/-- How far a call has come: the system calls that are behind it, or the files of the directory, and
the lines of the replay and the bytes of the write that is under way. -/
structure Point where
  behind : ℕ
  lines : ℕ
  bytes : ℕ

/-- The loop of `gtfs_clean`, stopped at one of the files. -/
def cleanEntriesUntil (root : Bytes) (lines bytes : ℕ) : List Bytes → ℕ → Disk → Option Disk
  | [], _, disk => some disk
  | filename :: _, 0, disk =>
    if (find (ascii ".txt") filename).isNone ∨ (find (ascii ".log") filename).isSome then some disk
    else
      syncLogToFileUntil root (fullFilePath root filename) (fullLogPath root filename) lines bytes
        disk
  | filename :: entries, n + 1, disk =>
    if (find (ascii ".txt") filename).isNone ∨ (find (ascii ".log") filename).isSome then
      cleanEntriesUntil root lines bytes entries n disk
    else do
      let logPath := fullLogPath root filename
      let (res, disk) ← syncLogToFile root (fullFilePath root filename) logPath disk
      if res = -1 then some disk
      else cleanEntriesUntil root lines bytes entries n (Function.update disk logPath (some []))

instance (env : Env) (dirname filename : Bytes) (s : Process) :
    Decidable (Refused env dirname filename s) :=
  inferInstanceAs (Decidable (_ ∨ _ ∨ _))

instance (env : Env) (path : Bytes) (file : FileT) (s : Process) :
    Decidable (NotRemoved env path file s) :=
  inferInstanceAs (Decidable (_ ∨ (_ ∨ _) ∨ _ ∨ _))

instance (env : Env) (w : WriteT) (disk : Disk) : Decidable (NotWritten env w disk) :=
  inferInstanceAs (Decidable ((_ ∨ _) ∨ _ ∨ _ ∨ _))

/-- The disk that `gtfs_open_file` leaves when it is stopped: in front of `open`, behind it, or in
the recovery of a file that was not in the tables. -/
def stoppedOpen (env : Env) (dirname filename : Bytes) (p : Point) (s : Process) : Option Disk :=
  if p.behind = 0 ∨ Refused env dirname filename s then some s.disk
  else
    let logPath := fullLogPath (env.root dirname) filename
    let disk := create (fullFilePath (env.root dirname) filename) s.disk
    if p.behind = 1 ∨ env.lockFails ∨ (s.filenameFileMapping filename).isSome ∨
      (disk logPath).isNone then some disk
    else
      syncLogToFileUntil (env.root dirname) (env.resolve filename) logPath p.lines p.bytes disk

/-- The disk that `gtfs_remove_file` leaves: with the file, or with the log only. -/
def stoppedRemove (env : Env) (dirname : Bytes) (file : FileT) (p : Point) (s : Process) : Disk :=
  let path := fullFilePath (env.root dirname) file.filename
  if p.behind = 0 ∨ NotRemoved env path file s then s.disk
  else Function.update s.disk path none

/-- The bytes that a file stream collects before it passes them on, `BUFSIZ - 1`. -/
def streamBuffer : ℕ := 8191

/-- What has got to the log of a record that is under way. A long one is passed on in pieces. -/
def appended (record : Bytes) (bytes : ℕ) : Bytes :=
  if record.length ≤ streamBuffer then record else record.take bytes

/-- The disk that `gtfs_sync_write_file` leaves: in front of `open`, behind it, with the record in
the log, or with some bytes of the data written. -/
def stoppedSync (env : Env) (w : WriteT) (p : Point) (s : Process) : Disk :=
  let logPath := env.resolve w.fullLogPath
  if p.behind = 0 ∨ env.openFails then s.disk
  else if p.behind = 1 ∨ env.lockFails then create logPath s.disk
  else
    let log := (s.disk logPath).getD []
    if p.behind = 2 then
      Function.update s.disk logPath (some (log ++ appended (w.logData env.mem) p.bytes))
    else
      let disk := Function.update s.disk logPath (some (log ++ w.logData env.mem))
      if NotWritten env w disk then disk
      else
        let q := syncPatch env.mem w
        writeFile (env.resolve w.fullFilePath) ⟨q.offset, q.bytes.take p.bytes⟩ disk

/-- The disk that a call leaves when the process is killed inside it. -/
def stopped (s : Process) (p : Point) : Label → Option Disk
  | .openFile env (some g) filename _ => do
    let dirname ← s.gtfs[g]?
    stoppedOpen env dirname filename p s
  | .removeFile env (some g) (some f) => do
    let dirname ← s.gtfs[g]?
    let file ← s.files[f]?
    some (stoppedRemove env dirname file p s)
  | .syncWriteFile env (some i) => do
    let w ← s.writes[i]?
    some (stoppedSync env w p s)
  | .clean env (some g) => do
    let dirname ← s.gtfs[g]?
    if env.opendirFails then some s.disk
    else cleanEntriesUntil (env.root dirname) p.lines p.bytes env.entries p.behind s.disk
  -- the other calls do not write to the disk
  | _ => some s.disk

/-- A sync that is killed behind its last byte leaves the disk of one that returns. -/
theorem stoppedSync_last {env : Env} {s : Process} {i : ℕ} {w : WriteT}
    (hw : s.writes[i]? = some w) {p : Point} (hbehind : 2 < p.behind)
    (hbytes : w.length.toNat ≤ p.bytes) :
    (Process.gtfsSyncWriteFile env (some i) s).map (fun r => r.2.disk) =
      some (stoppedSync env w p s) := by
  have hwhole : (syncPatch env.mem w).bytes.take p.bytes = (syncPatch env.mem w).bytes :=
    List.take_of_length_le ((List.length_take_le _ _).trans hbytes)
  have h₀ : p.behind ≠ 0 := by omega
  have h₁ : p.behind ≠ 1 := by omega
  have h₂ : p.behind ≠ 2 := by omega
  simp only [Process.gtfsSyncWriteFile, stoppedSync, hw, hwhole, Option.bind_eq_bind,
    Option.bind_some, create_self, update_create, Option.getD_some, h₀, h₁, h₂, false_or,
    if_false]
  -- the checks of the call, one after the other
  split
  · rfl
  · split
    · rfl
    · by_cases hwritten : NotWritten env w (Function.update s.disk (env.resolve w.fullLogPath)
          (some ((s.disk (env.resolve w.fullLogPath)).getD [] ++ w.logData env.mem)))
      · rw [if_pos hwritten]
        rcases hwritten with hdata | hlock | hwrite
        · rw [if_pos hdata]
          rfl
        · split
          · rfl
          · rfl
        · split
          · rfl
          · split
            · rfl
            · rfl
      · rw [if_neg hwritten]
        obtain ⟨hdata, hrest⟩ := not_or.mp hwritten
        obtain ⟨hlock, hwrite⟩ := not_or.mp hrest
        rw [if_neg hdata, if_neg hlock, if_neg hwrite]
        rfl

/-- A clean that is killed behind its last file leaves the disk of one that returns. -/
theorem cleanEntriesUntil_last (root : Bytes) (lines bytes : ℕ) (entries : List Bytes)
    (disk : Disk) :
    cleanEntriesUntil root lines bytes entries entries.length disk =
      (cleanEntries root entries disk).map Prod.snd := by
  induction entries generalizing disk with
  | nil => rfl
  | cons entry entries ih =>
    rw [List.length_cons, cleanEntriesUntil, cleanEntries]
    dsimp only
    split
    · exact ih disk
    · cases syncLogToFile root (fullFilePath root entry) (fullLogPath root entry) disk with
      | none => rfl
      | some r =>
        show (if r.1 = -1 then _ else _) = Option.map Prod.snd (if r.1 = -1 then _ else _)
        split
        · rfl
        · exact ih _

/-- A call that returns, or one in which the process is killed. -/
inductive Event where
  | call (l : Label)
  | kill (l : Label) (p : Point)

/-- Processes one after the other: behind a kill the next one starts, on the disk that is left. -/
def crashing (disk : Disk) : System Process Event where
  init := fresh disk
  step s
    | .call l => (system disk).step s l
    | .kill l p => (stopped s p l).map fresh

/-- The operation that a call asks for. -/
def asked (s : Process) : Label → Option Op
  | .openFile _ (some _) filename _ => some (.create filename)
  | .removeFile _ (some _) (some f) => (s.files[f]?).map fun file => .remove file.filename
  | .syncWriteFile env (some i) =>
    (s.writes[i]?).map fun w => .write w.filename (syncPatch env.mem w)
  | _ => none

/-- The call returns, and not with an error. -/
def succeeds (s : Process) : Label → Bool
  | .openFile env gtfs filename fileLength =>
    (gtfsOpenFile env gtfs filename fileLength s).any fun r => r.1.isSome
  | .removeFile env gtfs fl => (gtfsRemoveFile env gtfs fl s).any fun r => r.1 = 0
  | .syncWriteFile env writeId => (Process.gtfsSyncWriteFile env writeId s).any fun r => r.1 ≠ -1
  | _ => true

/-- The operation that an event asks for, and whether it is acknowledged. -/
def request (s : Process) : Event → Option (Op × Bool)
  | .call l => (asked s l).map fun op => (op, succeeds s l)
  | .kill l _ => (asked s l).map fun op => (op, false)

/-- The calls of the runs: in one directory, where logs can be removed. No opened file is named like
a log, and every synced write is decodable and to a file that is still there. -/
def allowed (dir root : Bytes) (s : Process) : Label → Prop
  | .init _ directory => directory = dir
  | .openFile env _ filename _ => env.root dir = root ∧ ¬ IsLogName filename
  | .removeFile env _ _ => env.root dir = root ∧ env.removeLogFails = false
  | .syncWriteFile env writeId => env.root dir = root ∧
      ∀ i, writeId = some i → ∃ w, s.writes[i]? = some (.ofWrite dir w) ∧ Decodable env.mem w ∧
        (s.disk (fullFilePath root w.filename)).isSome
  | .clean env _ => env.root dir = root
  | .closeFile .. | .writeFile .. | .abortWriteFile .. => True
  | .others .. => False

/-- The events of the runs. A process is not killed while it removes a file, and not while it syncs
a write whose record does not fit into the buffer of the stream. -/
def careful (dir root : Bytes) (s : Process) : Event → Prop
  | .call l => allowed dir root s l
  | .kill (.removeFile env gtfs fl) p => allowed dir root s (.removeFile env gtfs fl) ∧ p.behind = 0
  | .kill (.syncWriteFile env writeId) _ => allowed dir root s (.syncWriteFile env writeId) ∧
      ∀ w ∈ writeId.bind (s.writes[·]?), (w.logData env.mem).length ≤ streamBuffer
  | .kill l _ => allowed dir root s l

/-! ### The calls are changes -/

/-- The disk changes, by no other operation than the requested one, and by this one if it is
acknowledged. -/
def Attempt (root : Bytes) (r : Option (Op × Bool)) (disk disk' : Disk) : Prop :=
  ∃ ops, Changes root disk ops disk' ∧ Survives r.toList ops

section Attempt

variable {root name : Bytes} {disk disk' : Disk} {op : Op}

theorem Attempt.done (h : Changes root disk [op] disk') (ack : Bool) :
    Attempt root (some (op, ack)) disk disk' :=
  ⟨[op], h, .done op ack⟩

theorem Attempt.lost (h : Changes root disk [] disk') :
    Attempt root (some (op, false)) disk disk' :=
  ⟨[], h, .lost op⟩

theorem Attempt.silent (h : Changes root disk [] disk') : Attempt root none disk disk' :=
  ⟨[], h, .nil⟩

/-- Nothing happens, whatever was asked for. -/
theorem Attempt.nothing (asked : Option Op) (disk : Disk) :
    Attempt root (asked.map fun op => (op, false)) disk disk := by
  cases asked with
  | none => exact .silent (.refl disk)
  | some op => exact .lost (.refl disk)

/-! #### Cleaning up -/

/-- One file: it or its log is missing, or it is replayed and the log truncated. -/
theorem Sound.cleaned (h : Sound root disk) (hname : ¬ IsLogName name) {path : Bytes} {res : ℤ}
    (hsync : syncLogToFile root path (fullLogPath root name) disk = some (res, disk')) :
    (res = -1 ∧ disk' = disk) ∨ (res = 0 ∧
      Changes root disk [] (Function.update disk' (fullLogPath root name) (some []))) := by
  rcases syncLogToFile_cases hsync with ⟨hres, hsame, -⟩ | ⟨hres, -, log, hlog, hreplay⟩
  · exact .inl ⟨hres, hsame⟩
  · exact .inr ⟨hres, h.replay hname hlog hreplay⟩

theorem Sound.cleanEntries (h : Sound root disk) {entries : List Bytes} {res : ℤ}
    (hloop : cleanEntries root entries disk = some (res, disk')) : Changes root disk [] disk' := by
  induction entries generalizing disk with
  | nil =>
    obtain ⟨-, rfl⟩ := Prod.mk.inj (Option.some.inj hloop)
    exact .refl disk
  | cons entry entries ih =>
    rcases cleanEntries_cons hloop with
      ⟨-, hrest⟩ | ⟨-, -, rfl⟩ | ⟨hselected, log, disk₁, hlog, hreplay, hrest⟩
    · exact ih h hrest
    · exact .refl disk'
    · have hfirst := h.replay hselected.2 hlog hreplay
      exact hfirst.trans (ih (hfirst.sound h) hrest)

theorem Sound.cleanEntriesUntil (h : Sound root disk) {entries : List Bytes} {n lines bytes : ℕ}
    (hloop : cleanEntriesUntil root lines bytes entries n disk = some disk') :
    Changes root disk [] disk' := by
  induction entries generalizing disk n with
  | nil =>
    obtain rfl := Option.some.inj hloop
    exact .refl disk
  | cons entry entries ih =>
    by_cases hselected : Selected entry
    · have hskip := fun hskip => not_selected_iff.mpr hskip hselected
      cases n with
      | zero =>
        -- the kill is in the replay of this file
        rw [Durability.cleanEntriesUntil, if_neg hskip] at hloop
        exact h.syncLogToFileUntil hselected.2 hloop
      | succ n =>
        rw [Durability.cleanEntriesUntil, if_neg hskip] at hloop
        obtain ⟨⟨res₁, disk₁⟩, hsync, hrest⟩ := Option.bind_eq_some_iff.mp hloop
        dsimp only at hrest
        rcases h.cleaned hselected.2 hsync with ⟨rfl, rfl⟩ | ⟨rfl, hfirst⟩
        · rw [if_pos rfl] at hrest
          obtain rfl := Option.some.inj hrest
          exact .refl disk₁
        · rw [if_neg (by decide)] at hrest
          exact hfirst.trans (ih (hfirst.sound h) hrest)
    · have hskip := not_selected_iff.mp hselected
      cases n with
      | zero =>
        rw [Durability.cleanEntriesUntil, if_pos hskip] at hloop
        obtain rfl := Option.some.inj hloop
        exact .refl disk
      | succ n =>
        rw [Durability.cleanEntriesUntil, if_pos hskip] at hloop
        exact ih h hloop

/-! #### Syncing a write -/

variable {mem : ℕ → Bytes} {w : Write}

/-- The log is opened, and created if it is not there. -/
theorem Changes.openLog (hname : ¬ IsLogName name)
    (hdata : (disk (fullFilePath root name)).isSome) :
    Changes root disk [] (create (fullLogPath root name) disk) := by
  rw [create_eq_update]
  cases hlog : disk (fullLogPath root name) with
  | none => exact .silent (.logCreated hname hdata hlog)
  | some log =>
    rw [Option.getD_some, ← hlog, Function.update_eq_self]
    exact .refl disk

/-- A record is appended. -/
theorem Changes.appendLog (hname : ¬ IsLogName w.filename)
    (hdata : (disk (fullFilePath root w.filename)).isSome) (hw : Decodable mem w) :
    Changes root disk [.write w.filename (w.patch mem)]
      (Function.update disk (fullLogPath root w.filename)
        (some ((disk (fullLogPath root w.filename)).getD [] ++ logRecord mem w))) := by
  have hopen := Changes.openLog hname hdata
  have hlog := create_self (fullLogPath root w.filename) disk
  have happend := Changes.single (.logged hname hlog hw)
  rw [update_create] at happend
  exact hopen.trans happend

/-- A record is appended, and some bytes of the data are written. -/
theorem Changes.sync (h : Sound root disk) (hname : ¬ IsLogName w.filename)
    (hdata : (disk (fullFilePath root w.filename)).isSome) (hw : Decodable mem w)
    {q : Patch UInt8} (hq : Patch.PrefixOf q (w.patch mem)) :
    Changes root disk [.write w.filename (w.patch mem)]
      (writeFile (fullFilePath root w.filename) q
        (Function.update disk (fullLogPath root w.filename)
          (some ((disk (fullLogPath root w.filename)).getD [] ++ logRecord mem w)))) := by
  have happend := Changes.appendLog hname hdata hw
  obtain ⟨content, hcontent⟩ := Option.isSome_iff_exists.mp hdata
  have hcontent' := (data_update_log w.filename disk
    (some ((disk (fullLogPath root w.filename)).getD [] ++ logRecord mem w))).trans hcontent
  -- the record of the write is in the log now, behind what was there before
  obtain ⟨ps, hlines⟩ : ∃ ps : List (Patch UInt8),
      (logLines ((disk (fullLogPath root w.filename)).getD [] ++ logRecord mem w)).map
        (lineWrite root) = (ps ++ [w.patch mem]).map
          fun p => some (fullFilePath root w.filename, p) := by
    cases hlog : disk (fullLogPath root w.filename) with
    | none => exact ⟨[], WholeLines.map_lineWrite_append (.inl rfl) rfl hw⟩
    | some log =>
      obtain ⟨-, hwhole, ps, hlines⟩ := h w.filename hname log hlog
      exact ⟨ps, hwhole.map_lineWrite_append hlines hw⟩
  have hprefix : ∀ q' ∈ [q], ∃ p ∈ ps ++ [w.patch mem], Patch.PrefixOf q' p := fun q' hq' =>
    ⟨w.patch mem, List.mem_append_right ps List.mem_cons_self, List.mem_singleton.mp hq' ▸ hq⟩
  rw [Recovery.writeFile_eq_update hcontent']
  exact happend.trans
    (.silent (.redone hname (Function.update_self ..) hcontent' hlines hprefix))

/-- Where the paths of a write lead, and what is appended to the log. -/
theorem logged_ofWrite {env : Env} {dir : Bytes} (hroot : env.root dir = root) (w : Write) :
    env.resolve (WriteT.ofWrite dir w).fullFilePath = fullFilePath root w.filename ∧
      env.resolve (WriteT.ofWrite dir w).fullLogPath = fullLogPath root w.filename ∧
      (WriteT.ofWrite dir w).logData env.mem = logRecord env.mem w := by
  obtain ⟨hpath, hlogPath⟩ := resolve_paths (w := .ofWrite dir w) rfl rfl hroot
  exact ⟨hpath, hlogPath, WriteT.logData_ofWrite env.mem dir w⟩

section Calls

variable {env : Env} {dir : Bytes} {s s' : Process}

theorem Sound.syncing (h : Sound root s.disk) (hroot : env.root dir = root)
    (hname : ¬ IsLogName w.filename) (hdata : (s.disk (fullFilePath root w.filename)).isSome)
    (hw : Decodable env.mem w) {ret : ℤ} (hsyncing : Syncing env (.ofWrite dir w) s ret s') :
    Attempt root (some (.write w.filename (w.patch env.mem), decide (ret ≠ -1))) s.disk
      s'.disk := by
  obtain ⟨hpath, hlogPath, hrecord⟩ := logged_ofWrite hroot w
  cases hsyncing with
  | refused => exact .lost (.refl _)
  | notLocked =>
    rw [created_disk, hlogPath]
    exact .lost (.openLog hname hdata)
  | onlyLogged =>
    -- the call fails, and its write is made by the next replay nevertheless
    rw [logged_disk, hlogPath, hrecord]
    exact .done (.appendLog hname hdata hw) _
  | synced =>
    show Attempt root _ s.disk (writeFile _ _ _)
    rw [logged_disk, hpath, hlogPath, hrecord]
    exact .done (.sync h hname hdata hw (.refl _)) _

theorem Sound.stoppedSync (h : Sound root s.disk) (hroot : env.root dir = root)
    (hname : ¬ IsLogName w.filename) (hdata : (s.disk (fullFilePath root w.filename)).isSome)
    (hw : Decodable env.mem w) (hfits : (logRecord env.mem w).length ≤ streamBuffer) (p : Point) :
    Attempt root (some (.write w.filename (w.patch env.mem), false)) s.disk
      (stoppedSync env (.ofWrite dir w) p s) := by
  obtain ⟨hpath, hlogPath, hrecord⟩ := logged_ofWrite hroot w
  have hq : Patch.PrefixOf ⟨(w.patch env.mem).offset, (w.patch env.mem).bytes.take p.bytes⟩
      (w.patch env.mem) := ⟨rfl, List.take_prefix _ _⟩
  -- the points of the kill: before the log is open, before the record, before the write, in it
  unfold Durability.stoppedSync
  rw [hpath, hlogPath, hrecord]
  dsimp only
  split
  · exact .lost (.refl _)
  · split
    · exact .lost (.openLog hname hdata)
    · split
      -- from here on the record is in the log, and the write counts as made
      · rw [appended, if_pos hfits]
        exact .done (.appendLog hname hdata hw) _
      · split
        · exact .done (.appendLog hname hdata hw) _
        · exact .done (.sync h hname hdata hw hq) _

/-! #### Opening and removing a file -/

/-- A file that was not in the tables is created or recovered, and its log emptied or created. -/
theorem Sound.recovered (h : Sound root disk) (hname : ¬ IsLogName name) {bare : Bytes}
    (hrecovered : Recovered root bare (fullLogPath root name)
      (create (fullFilePath root name) disk) disk') (hs : s.disk = disk') :
    Changes root disk [.create name] (clearLog env name (fullLogPath root name) s).disk := by
  have hcreate : Changes root disk [.create name] (create (fullFilePath root name) disk) :=
    .single (.created hname)
  unfold clearLog
  dsimp only
  rw [hs]
  cases hrecovered with
  | noLog hlog =>
    have hdata := isSome_create_self (fullFilePath root name) disk
    split
    · exact hcreate
    · exact hcreate.trans (.silent (.logCreated hname hdata hlog))
  | redone hlog hbare hreplay =>
    rw [if_neg ?_]
    · exact hcreate.trans ((hcreate.sound h).replay hname hlog hreplay)
    · -- the replay has left the log where it was
      intro hfails
      have hsome := isSome_replay (fullLogPath root name) hreplay
      rw [hlog, Option.isNone_iff_eq_none.mp hfails.1] at hsome
      exact absurd hsome (by simp)

theorem Sound.opening (h : Sound root s.disk) (hroot : env.root dir = root)
    (hname : ¬ IsLogName name) {fileLength : ℤ} {res : Option ℕ}
    (hopening : Opening env dir name fileLength s res s') :
    Attempt root (some (.create name, res.isSome)) s.disk s'.disk := by
  subst hroot
  have hcreate : Changes (env.root dir) s.disk [.create name]
      (create (fullFilePath (env.root dir) name) s.disk) := .single (.created hname)
  cases hopening with
  | refused => exact .lost (.refl _)
  | notLocked | tooShort | known | notRecovered => exact .done hcreate _
  | recovered hopened hnew hrecovered => exact .done (h.recovered hname hrecovered rfl) _

theorem Sound.stoppedOpen (h : Sound root s.disk) (hroot : env.root dir = root)
    (hname : ¬ IsLogName name) {p : Point} (hrun : stoppedOpen env dir name p s = some disk') :
    Attempt root (some (.create name, false)) s.disk disk' := by
  subst hroot
  have hcreate : Changes (env.root dir) s.disk [.create name]
      (create (fullFilePath (env.root dir) name) s.disk) := .single (.created hname)
  unfold Durability.stoppedOpen at hrun
  dsimp only at hrun
  split at hrun
  · obtain rfl := Option.some.inj hrun
    exact .lost (.refl _)
  · split at hrun
    · obtain rfl := Option.some.inj hrun
      exact .done hcreate _
    · exact .done (hcreate.trans ((hcreate.sound h).syncLogToFileUntil hname hrun)) _

theorem removal_attempt (hroot : env.root dir = root) (hremoves : env.removeLogFails = false)
    {file : FileT} (hname : ¬ IsLogName file.filename) {ret : ℤ}
    (hremoval : Removal env dir file s ret s') :
    Attempt root (some (.remove file.filename, decide (ret = 0))) s.disk s'.disk := by
  subst hroot
  cases hremoval with
  | refused => exact .lost (.refl _)
  | logStays hremoved hlog =>
    -- there is no log that could stay
    have hnone : s.disk (fullLogPath (env.root dir) file.filename) = none := by
      rw [hremoves] at hlog
      simpa using hlog
    have hremove : Changes (env.root dir) s.disk [.remove file.filename] _ :=
      .single (.removed hname)
    have hsame : Function.update (Function.update s.disk
        (fullFilePath (env.root dir) file.filename) none)
          (fullLogPath (env.root dir) file.filename) none =
        Function.update s.disk (fullFilePath (env.root dir) file.filename) none := by
      rw [Function.update_eq_self_iff, log_update_data, hnone]
    rw [hsame] at hremove
    exact .done hremove _
  | removed => exact .done (.single (.removed hname)) _

end Calls
end Attempt

/-! ### Runs -/

/-- What the tables of a process say about its directory and the names of its files. -/
structure Tables (dir : Bytes) (s : Process) : Prop where
  gtfs : ∀ d ∈ s.gtfs, d = dir
  files : ∀ file ∈ s.files, ¬ IsLogName file.filename
  writes : ∀ w ∈ s.writes, ¬ IsLogName w.filename

section Runs

variable {dir root name : Bytes} {disk disk' : Disk} {env : Env} {s s' : Process} {l : Label}

theorem Tables.fresh (dir : Bytes) (disk : Disk) : Tables dir (fresh disk) where
  gtfs := fun _ hd => absurd hd List.not_mem_nil
  files := fun _ hfile => absurd hfile List.not_mem_nil
  writes := fun _ hw => absurd hw List.not_mem_nil

theorem Tables.setFile (h : Tables dir s) {i : ℕ} {file file' : FileT}
    (hfile : s.files[i]? = some file) (hgtfs : s'.gtfs = s.gtfs)
    (hfiles : s'.files = s.files.set i file') (hwrites : s'.writes = s.writes)
    (hfilename : file'.filename = file.filename) : Tables dir s' where
  gtfs := hgtfs ▸ h.gtfs
  files := by
    intro file'' hfile''
    rw [hfiles] at hfile''
    rcases List.mem_or_eq_of_mem_set hfile'' with hold | rfl
    · exact h.files file'' hold
    · exact hfilename ▸ h.files file (List.mem_of_getElem? hfile)
  writes := hwrites ▸ h.writes

theorem Tables.record (h : Tables dir s) (hname : ¬ IsLogName name) (fileLength : ℤ) :
    Tables dir (record dir name fileLength s) where
  gtfs := h.gtfs
  files := List.forall_mem_append.mpr ⟨h.files, List.forall_mem_singleton.mpr hname⟩
  writes := h.writes

theorem Tables.opening (h : Tables dir s) (hname : ¬ IsLogName name) {fileLength : ℤ}
    {res : Option ℕ} (hopening : Opening env dir name fileLength s res s') : Tables dir s' := by
  cases hopening with
  | refused => exact h
  | notLocked | tooShort => exact { h with }
  | known hopened hknown hfile => exact h.setFile hfile rfl rfl rfl rfl
  | notRecovered | recovered => exact { h.record hname fileLength with }

theorem Tables.step (h : Tables dir s) (hl : allowed dir root s l)
    (hstep : (system disk).step s l = some s') : Tables dir s' := by
  cases step_effect hstep with
  | nothing => exact h
  | init mapping =>
    exact { h with
      gtfs := List.forall_mem_append.mpr ⟨h.gtfs, List.forall_mem_singleton.mpr hl⟩ }
  | openFile hdirname hopening =>
    obtain rfl := h.gtfs _ hdirname
    exact h.opening hl.2 hopening
  | closeFile hfile => exact h.setFile hfile rfl rfl rfl rfl
  | removeFile _ _ hremoval =>
    -- only the maps and the disk change
    cases hremoval with
    | refused | logStays | removed => exact { h with }
  | writeFile _ hfile =>
    have hname := h.files _ (List.mem_of_getElem? hfile)
    exact { h with
      writes := List.forall_mem_append.mpr ⟨h.writes, List.forall_mem_singleton.mpr hname⟩ }
  | syncWriteFile _ hsyncing =>
    cases hsyncing with
    | refused | notLocked | onlyLogged | synced => exact { h with }
  | abortWriteFile | clean => exact { h with }
  | others => exact absurd hl id

/-- A call that returns. -/
theorem call_attempt (h : Tables dir s) (hsound : Sound root s.disk) (hl : allowed dir root s l)
    (hstep : (system disk).step s l = some s') :
    Attempt root (request s (.call l)) s.disk s'.disk := by
  cases l with
  -- the calls that do not write to the disk attempt nothing
  | init env directory =>
    obtain rfl := Option.some.inj hstep
    rcases gtfsInit_cases env directory s with hsame | ⟨mapping, hnew⟩
    · rw [hsame]
      exact .silent (.refl _)
    · rw [hnew]
      exact .silent (.refl _)
  | openFile env gtfs filename fileLength =>
    obtain ⟨⟨res, s₁⟩, hcall, rfl⟩ := Option.map_eq_some_iff.mp hstep
    cases gtfs with
    | none =>
      obtain ⟨-, rfl⟩ := Prod.mk.inj (Option.some.inj hcall)
      exact .silent (.refl _)
    | some g =>
      obtain ⟨dirname, hdirname, hopening⟩ := gtfsOpenFile_cases hcall
      obtain rfl := h.gtfs _ (List.mem_of_getElem? hdirname)
      -- whether the caller is told that the file is there is what the call returns
      have hack : succeeds s (.openFile env (some g) filename fileLength) = res.isSome := by
        rw [succeeds, hcall]
        rfl
      show Attempt root (some (.create filename, _)) _ _
      rw [hack]
      exact hsound.opening hl.1 hl.2 hopening
  | closeFile gtfs fl =>
    obtain ⟨⟨res, s₁⟩, hcall, rfl⟩ := Option.map_eq_some_iff.mp hstep
    rcases gtfsCloseFile_cases hcall with ⟨-, rfl⟩ | ⟨f, file, -, -, -, rfl⟩
    · exact .silent (.refl _)
    · exact .silent (.refl _)
  | removeFile env gtfs fl =>
    obtain ⟨⟨ret, s₁⟩, hcall, rfl⟩ := Option.map_eq_some_iff.mp hstep
    match gtfs, fl with
    | none, _ | some _, none =>
      obtain ⟨-, rfl⟩ := Prod.mk.inj (Option.some.inj hcall)
      exact .silent (.refl _)
    | some g, some f =>
      obtain ⟨dirname, file, hdirname, hfile, hremoval⟩ := gtfsRemoveFile_cases hcall
      obtain rfl := h.gtfs _ (List.mem_of_getElem? hdirname)
      have hack : succeeds s (.removeFile env (some g) (some f)) = decide (ret = 0) := by
        rw [succeeds, hcall]
        rfl
      have hasked : asked s (.removeFile env (some g) (some f)) =
          some (.remove file.filename) := by
        rw [asked, hfile]
        rfl
      rw [request, hasked, hack]
      exact removal_attempt hl.1 hl.2 (h.files file (List.mem_of_getElem? hfile)) hremoval
  | writeFile gtfs fl offset length data =>
    obtain ⟨⟨res, s₁⟩, hcall, rfl⟩ := Option.map_eq_some_iff.mp hstep
    rcases gtfsWriteFile_cases hcall with rfl | ⟨f, dirname, file, -, -, -, rfl⟩
    · exact .silent (.refl _)
    · exact .silent (.refl _)
  | syncWriteFile env writeId =>
    obtain ⟨⟨ret, s₁⟩, hcall, rfl⟩ := Option.map_eq_some_iff.mp hstep
    cases writeId with
    | none =>
      obtain ⟨-, rfl⟩ := Prod.mk.inj (Option.some.inj hcall)
      exact .silent (.refl _)
    | some i =>
      obtain ⟨w', hw', hsyncing⟩ := gtfsSyncWriteFile_cases hcall
      -- the guard says what the write to be synced is
      obtain ⟨hroot, hwrite⟩ := hl
      obtain ⟨w, hw, hdec, hdata⟩ := hwrite i rfl
      obtain rfl := Option.some.inj (hw'.symm.trans hw)
      have hack : succeeds s (.syncWriteFile env (some i)) = decide (ret ≠ -1) := by
        rw [succeeds, hcall]
        rfl
      have hasked : asked s (.syncWriteFile env (some i)) =
          some (.write w.filename (w.patch env.mem)) := by
        rw [asked, hw]
        rfl
      rw [request, hasked, hack]
      exact hsound.syncing hroot (h.writes _ (List.mem_of_getElem? hw)) hdata hdec hsyncing
  | abortWriteFile writeId =>
    obtain ⟨⟨res, s₁⟩, hcall, rfl⟩ := Option.map_eq_some_iff.mp hstep
    rcases gtfsAbortWriteFile_cases hcall with ⟨rfl, -⟩ | ⟨i, w, logs, -, -, -, rfl⟩
    · exact .silent (.refl _)
    · exact .silent (.refl _)
  | clean env gtfs =>
    obtain ⟨⟨ret, s₁⟩, hcall, rfl⟩ := Option.map_eq_some_iff.mp hstep
    rcases gtfsClean_cases hcall with ⟨-, rfl⟩ | ⟨g, dirname, res, disk₁, -, hdirname, hloop, hend⟩
    · exact .silent (.refl _)
    · obtain rfl := h.gtfs _ (List.mem_of_getElem? hdirname)
      rw [show _ = root from hl] at hloop
      -- the two ends of a clean differ in the table only
      have hdisk : s₁.disk = disk₁ := by
        rcases hend with ⟨-, rfl⟩ | ⟨-, rfl⟩
        · rfl
        · rfl
      rw [hdisk]
      exact .silent (hsound.cleanEntries hloop)
  | others => exact absurd hl id

/-- A call in which the process is killed. -/
theorem kill_attempt (h : Tables dir s) (hsound : Sound root s.disk) {p : Point}
    (he : careful dir root s (.kill l p)) (hstopped : stopped s p l = some disk') :
    Attempt root (request s (.kill l p)) s.disk disk' := by
  have hunchanged : ∀ l, stopped s p l = some s.disk → stopped s p l = some disk' →
      Attempt root (request s (.kill l p)) s.disk disk' := by
    intro l hsame hstopped
    obtain rfl := Option.some.inj (hsame.symm.trans hstopped)
    exact .nothing (asked s l) s.disk
  cases l with
  | init | closeFile | writeFile | abortWriteFile => exact hunchanged _ rfl hstopped
  | openFile env gtfs filename fileLength =>
    cases gtfs with
    | none => exact hunchanged _ rfl hstopped
    | some g =>
      obtain ⟨dirname, hdirname, hstopped⟩ := Option.bind_eq_some_iff.mp hstopped
      obtain rfl := h.gtfs _ (List.mem_of_getElem? hdirname)
      exact hsound.stoppedOpen he.1 he.2 hstopped
  | removeFile env gtfs fl =>
    match gtfs, fl with
    | none, _ | some _, none => exact hunchanged _ rfl hstopped
    | some g, some f =>
      obtain ⟨dirname, hdirname, hstopped'⟩ := Option.bind_eq_some_iff.mp hstopped
      obtain ⟨file, hfile, hstopped'⟩ := Option.bind_eq_some_iff.mp hstopped'
      -- nothing has been removed yet
      have hsame : stoppedRemove env dirname file p s = s.disk := if_pos (.inl he.2)
      rw [hsame] at hstopped'
      exact hunchanged _ (hstopped.trans hstopped'.symm) hstopped
  | syncWriteFile env writeId =>
    cases writeId with
    | none => exact hunchanged _ rfl hstopped
    | some i =>
      obtain ⟨w', hw', hstopped⟩ := Option.bind_eq_some_iff.mp hstopped
      obtain ⟨⟨hroot, hwrite⟩, hfits⟩ := he
      obtain ⟨w, hw, hdec, hdata⟩ := hwrite i rfl
      obtain rfl := Option.some.inj (hw'.symm.trans hw)
      obtain rfl := Option.some.inj hstopped
      have hrecord := hfits _ hw
      rw [WriteT.logData_ofWrite] at hrecord
      have hasked : asked s (.syncWriteFile env (some i)) =
          some (.write w.filename (w.patch env.mem)) := by
        rw [asked, hw]
        rfl
      rw [request, hasked]
      exact hsound.stoppedSync hroot (h.writes _ (List.mem_of_getElem? hw)) hdata hdec hrecord p
  | clean env gtfs =>
    cases gtfs with
    | none => exact hunchanged _ rfl hstopped
    | some g =>
      obtain ⟨dirname, hdirname, hstopped'⟩ := Option.bind_eq_some_iff.mp hstopped
      obtain rfl := h.gtfs _ (List.mem_of_getElem? hdirname)
      split at hstopped'
      · exact hunchanged _ (hstopped.trans hstopped'.symm) hstopped
      · rw [show _ = root from he] at hstopped'
        exact .silent (hsound.cleanEntriesUntil hstopped')
  | others => exact absurd he id

/-- What holds between two events, in any of the processes. -/
structure Intact (dir root : Bytes) (s : Process) : Prop extends Tables dir s where
  sound : Sound root s.disk

/-- Every event asks for at most one operation, and does no other. -/
theorem Intact.attempt (h : Intact dir root s) {e : Event} (he : careful dir root s e)
    (hstep : (crashing disk).step s e = some s') :
    Attempt root (request s e) s.disk s'.disk := by
  cases e with
  | call l =>
    replace hstep : (system disk).step s l = some s' := hstep
    exact call_attempt h.toTables h.sound he hstep
  | kill l p =>
    obtain ⟨disk', hstopped, rfl⟩ := Option.map_eq_some_iff.mp hstep
    exact kill_attempt h.toTables h.sound he hstopped

theorem Intact.step (h : Intact dir root s) {e : Event} (he : careful dir root s e)
    (hstep : (crashing disk).step s e = some s') : Intact dir root s' := by
  obtain ⟨ops, hchanges, -⟩ := h.attempt he hstep
  refine { toTables := ?_, sound := hchanges.sound h.sound }
  cases e with
  | call l =>
    replace hstep : (system disk).step s l = some s' := hstep
    exact h.toTables.step he hstep
  | kill l p =>
    -- the next process starts with empty tables
    obtain ⟨disk', -, rfl⟩ := Option.map_eq_some_iff.mp hstep
    exact .fresh dir disk'

theorem Intact.of_reachable (hdisk : Sound root disk)
    (hr : (crashing disk).Reachable (careful dir root) s) : Intact dir root s := by
  have hinit : Intact dir root (crashing disk).init :=
    { toTables := .fresh dir disk, sound := hdisk }
  exact hr.invariant hinit fun _ _ _ _ h he hstep => h.step he hstep

end Runs

section Restore

variable {dir root name : Bytes} {disk disk' : Disk} {env : Env} {s s' : Process}

/-- The lines of a log name the file that it belongs to, so they name no log. -/
theorem Sound.tameLogs (h : Sound root disk) : TameLogs root disk := by
  intro name hselected log hlog
  obtain ⟨-, hwhole, ps, hlines⟩ := h name hselected.2 log hlog
  refine ⟨hwhole, fun r hr => ?_⟩
  obtain ⟨line, hline, hdecode⟩ := List.mem_filterMap.mp hr
  have hmem : lineWrite root line ∈ ps.map (fun p => some (fullFilePath root name, p)) :=
    hlines ▸ List.mem_map_of_mem hline
  obtain ⟨p, -, hp⟩ := List.mem_map.mp hmem
  obtain ⟨r', hr', -, hpath⟩ := lineWrite_eq_some hp.symm
  obtain rfl := Option.some.inj (hdecode.symm.trans hr')
  exact fullFilePath_inj.mp hpath ▸ hselected.2

end Restore

/-- The calls of a process that removes `a.txt`, up to the removal. -/
def removingRun : List Event :=
  (syncedRun (ascii "a.txt")).map .call ++ [.call (.closeFile (some 0) (some 0)),
    .kill (.removeFile (listedEnv []) (some 0) (some 0)) ⟨1, 0, 0⟩]

/-- The process is killed between the two removals: the file is gone, and its log is not. When the
file is created anew, the `x` that was synced to the old one is in it. -/
theorem removed_file_comes_back : ∃ s s',
    (crashing fun _ => none).Reachable System.anyStep s ∧
    s.disk (fullFilePath (ascii "/d") (ascii "a.txt")) = none ∧
    gtfsOpenFile (listedEnv []) (some 0) (ascii "a.txt") 10
      (gtfsInit (listedEnv []) (ascii "/d") s).2 = some (some 0, s') ∧
    s'.disk (fullFilePath (ascii "/d") (ascii "a.txt")) = some (ascii "x") := by
  have hrun : (crashing fun _ => none).guardedRun System.anyStep (crashing fun _ => none).init
      removingRun = some (fresh _) := rfl
  exact ⟨_, _, .of_guardedRun .init hrun, rfl, rfl, rfl⟩

end Durability
end GTFS
end OSLab
