import AdvancedOSLab.TinyFile.Registration

/-!
# The registry of TinyFile clients

The list of clients against its abstract meaning, for arbitrary messages: a client may register
twice, or unregister without having registered. Registering appends the pid, and unregistering
deletes the first entry with the pid (`registry`). The pointers of the list stay right in both
directions, and the counter of free shared memories, which is updated far from the list, stays in
step with its length.

A message that finds no shared memory is not processed: the thread waits with the message in its
hands, and the registry stays as it is.
-/

namespace OSLab

namespace TinyFile

namespace Registration

open LinkedList

/-- What a message does to the registered pids. -/
def registered (pids : List ℤ) (msg : Message) : List ℤ :=
  match msg.command with
  | .register => pids ++ [msg.clientPid]
  | .unregister => pids.erase msg.clientPid

/-- The registered pids after a sequence of messages. -/
def registry (msgs : List Message) : List ℤ := msgs.foldl registered []

variable {s : Server} {n k : ℕ} {pid : ℤ} {pids : List ℤ} {msg : Message}
  {msgs processed : List Message}

theorem registry_snoc (processed : List Message) (msg : Message) :
    registry (processed ++ [msg]) = registered (registry processed) msg := by
  rw [registry, List.foldl_append]
  rfl

/-- A turn of the handler processes the next message, or finds no shared memory for it. -/
theorem turn_registry (h : Holds s n (registry processed))
    (hqueue : s.registerClientQueue = msg :: msgs) :
    (∃ s', turn s = some s' ∧ Holds s' n (registry (processed ++ [msg])) ∧
        s'.registerClientQueue = msgs) ∨
      (msg.command = .register ∧ (registry processed).length = n ∧
        turn s = some { s with registerClientQueue := msgs, waiting := true }) := by
  obtain ⟨command, pid⟩ := msg
  rw [registry_snoc]
  cases command with
  | register =>
    obtain hlt | hle := Nat.lt_or_ge (registry processed).length n
    · exact .inl (h.turn_register hlt hqueue)
    · have hcounter := h.counter
      exact .inr ⟨rfl, by omega, (h.turn_wait hle hqueue).1⟩
  | unregister => exact .inl (h.turn_unregister hqueue)

/-- The next message is taken off the queue. -/
theorem take_succ_of_drop {rest : List Message} (h : msgs.drop k = msg :: rest) :
    msgs.take (k + 1) = msgs.take k ++ [msg] ∧ msgs.drop (k + 1) = rest := by
  constructor
  · rw [List.take_add_one, ← List.head?_drop, h]
    rfl
  · rw [← List.tail_drop, h]
    rfl

/-- After `k` turns the handler has processed `k` messages, or it waits with one of them in its
hands. -/
def Progress (n : ℕ) (msgs : List Message) (k : ℕ) (s : Server) : Prop :=
  (Holds s n (registry (msgs.take k)) ∧ s.registerClientQueue = msgs.drop k) ∨
    ∃ processed pid rest s₀, msgs = processed ++ ⟨.register, pid⟩ :: rest ∧
      Holds s₀ n (registry processed) ∧ (registry processed).length = n ∧
      s = { s₀ with registerClientQueue := rest, waiting := true }

theorem Progress.turn (h : Progress n msgs k s) :
    ∃ s', turn s = some s' ∧ Progress n msgs (k + 1) s' := by
  obtain ⟨hholds, hqueue⟩ | ⟨processed, pid, rest, s₀, hmsgs, hholds, hlength, rfl⟩ := h
  · cases hdrop : msgs.drop k with
    | nil =>
      -- there is no message left
      have hle : msgs.length ≤ k := List.drop_eq_nil_iff.mp hdrop
      refine ⟨s, ?_, .inl ⟨?_, ?_⟩⟩
      · rw [Registration.turn, hholds.active, hqueue, hdrop]
        rfl
      · rwa [List.take_of_length_le (by omega), ← List.take_of_length_le hle]
      · rw [hqueue, hdrop, List.drop_of_length_le (by omega)]
    | cons msg rest =>
      rw [hdrop] at hqueue
      obtain ⟨htake, hrest⟩ := take_succ_of_drop hdrop
      obtain ⟨s', hturn, hholds', hqueue'⟩ | ⟨hregister, hlength, hturn⟩ :=
        turn_registry hholds hqueue
      · exact ⟨s', hturn, .inl ⟨htake ▸ hholds', hqueue'.trans hrest.symm⟩⟩
      · obtain ⟨command, pid⟩ := msg
        obtain rfl : command = .register := hregister
        refine ⟨_, hturn, .inr ⟨msgs.take k, pid, rest, s, ?_, hholds, hlength, rfl⟩⟩
        rw [← hdrop, List.take_append_drop]
  · -- nobody else gives a shared memory back
    have hcounter := hholds.counter
    have hnone : s₀.numSharedMemory = 0 := by omega
    refine ⟨_, Stuck.turn ⟨rfl, hnone⟩,
      .inr ⟨processed, pid, rest, s₀, hmsgs, hholds, hlength, rfl⟩⟩

end Registration

end TinyFile

end OSLab
