import Mathlib.Algebra.Group.Nat.Defs
import Mathlib.Algebra.GroupWithZero.Nat
import MDesk.Core.Collect
import MDesk.Core.Run

/-!
# The queue of the connection diagnostics

The threads of the program send their events to the thread that writes them through a channel of
limited size. What finds no room is counted, and the next event takes the count with it. A call
of `event` is three steps, between which other threads may do theirs.
-/

namespace MDesk

open Core

/-- The size of the channel. -/
def diagnosticsChannelSize : Nat := 512

/-- How far a call of `event` has come, with the count that it has taken. -/
inductive EventCall where
  | claimed (dropped : Nat)
  | refused (dropped : Nat)
  deriving DecidableEq, Repr

/-- A command in the channel: a line with its count, or a flush. -/
inductive DiagnosticsCommand where
  | line (dropped : Nat)
  | flush
  deriving DecidableEq, Repr

/-- The counts of the lines among some commands. -/
def lineCounts (commands : List DiagnosticsCommand) : List Nat :=
  commands.filterMap fun
    | .line dropped => some dropped
    | .flush => none

/-- `DROPPED`, the channel and the calls of the threads. Noted is what the writer has received,
and how many lines have found no room. -/
structure DiagnosticsQueue where
  dropped : Nat := 0
  calls : Table Nat EventCall := ∅
  waiting : List DiagnosticsCommand := []
  received : List DiagnosticsCommand := []
  refusals : Nat := 0

/-- What a thread does. -/
inductive QueueEvent where
  | claim (thread : Nat)
  | send (thread : Nat)
  | restore (thread : Nat)
  | flush
  | receive
  deriving DecidableEq, Repr

/-- The count that a call has taken out of `DROPPED`, and its own line if that is lost. -/
def EventCall.count : EventCall → Nat
  | .claimed dropped => dropped
  | .refused dropped => dropped + 1

namespace DiagnosticsQueue

/-- `event`, in its three steps, `flush` and the loop of the writer. -/
def step (q : DiagnosticsQueue) : QueueEvent → DiagnosticsQueue
  | .claim thread =>
    match q.calls.get thread with
    | none => { q with dropped := 0, calls := q.calls.insert thread (.claimed q.dropped) }
    | some _ => q
  | .send thread =>
    match q.calls.get thread with
    | some (.claimed dropped) =>
      if q.waiting.length < diagnosticsChannelSize then
        { q with calls := q.calls.remove thread, waiting := q.waiting ++ [.line dropped] }
      else
        { q with calls := q.calls.insert thread (.refused dropped), refusals := q.refusals + 1 }
    | _ => q
  | .restore thread =>
    match q.calls.get thread with
    | some (.refused dropped) =>
      { q with
        dropped := (q.dropped + (dropped + 1)) % 2 ^ 64
        calls := q.calls.remove thread }
    | _ => q
  | .flush =>
    if q.waiting.length < diagnosticsChannelSize then { q with waiting := q.waiting ++ [.flush] }
    else q
  | .receive =>
    match q.waiting with
    | [] => q
    | command :: waiting => { q with waiting, received := q.received ++ [command] }

/-- The commands that the channel has taken. -/
def accepted (q : DiagnosticsQueue) : List DiagnosticsCommand := q.received ++ q.waiting

/-- The counts that calls hold. -/
def held (calls : Table Nat EventCall) : Nat := (calls.collect fun _ call => [call.count]).sum

/-- Every line that has found no room is counted in one place. -/
structure Counted (q : DiagnosticsQueue) : Prop where
  refusals : (q.dropped + held q.calls + (lineCounts q.accepted).sum) % 2 ^ 64 = q.refusals % 2 ^ 64
  room : q.waiting.length ≤ diagnosticsChannelSize

variable {q : DiagnosticsQueue} {calls : Table Nat EventCall} {thread : Nat} {call : EventCall}

theorem held_insert_of_none (h : calls.get thread = none) :
    held (calls.insert thread call) = call.count + held calls := by
  unfold held
  rw [Table.collect_insert_of_none h, List.singleton_append, List.sum_cons]

theorem held_remove (h : calls.get thread = some call) :
    held calls = call.count + held (calls.remove thread) := by
  unfold held
  rw [(Table.perm_collect h).sum_nat, List.singleton_append, List.sum_cons]

theorem held_insert (h : calls.get thread = some call) (call' : EventCall) :
    held (calls.insert thread call') + call.count = held calls + call'.count := by
  rw [held_remove h]
  unfold held
  rw [Table.collect_insert, List.singleton_append, List.sum_cons]
  omega

theorem sum_lineCounts_concat (commands : List DiagnosticsCommand) (dropped : Nat) :
    (lineCounts (commands ++ [.line dropped])).sum = (lineCounts commands).sum + dropped := by
  unfold lineCounts
  rw [List.filterMap_append, List.sum_append]
  rfl

theorem sum_lineCounts_flush (commands : List DiagnosticsCommand) :
    (lineCounts (commands ++ [.flush])).sum = (lineCounts commands).sum := by
  unfold lineCounts
  rw [List.filterMap_append, List.sum_append]
  rfl

theorem Counted.claim (h : q.Counted) (thread : Nat) : (q.step (.claim thread)).Counted := by
  dsimp only [DiagnosticsQueue.step]
  cases hget : q.calls.get thread with
  | some call => exact h
  | none =>
    refine ⟨?_, h.room⟩
    dsimp only
    rw [held_insert_of_none hget, EventCall.count, Nat.zero_add]
    exact h.refusals

/-- A line that finds no room is counted with the count that its call holds. -/
theorem Counted.send (h : q.Counted) (thread : Nat) : (q.step (.send thread)).Counted := by
  have hcount := h.refusals
  dsimp only [DiagnosticsQueue.step]
  split
  · rename_i dropped hget
    split_ifs with hlt
    · have hheld := held_remove hget
      rw [EventCall.count] at hheld
      refine ⟨?_, ?_⟩
      · unfold accepted at hcount ⊢
        dsimp only
        rw [← List.append_assoc, sum_lineCounts_concat, ← hcount, hheld]
        congr 1
        omega
      · rw [List.length_append, List.length_singleton]
        exact hlt
    · have hheld := held_insert hget (.refused dropped)
      rw [EventCall.count, EventCall.count] at hheld
      refine ⟨?_, h.room⟩
      unfold accepted at hcount ⊢
      dsimp only
      omega
  · exact h

theorem Counted.restore (h : q.Counted) (thread : Nat) : (q.step (.restore thread)).Counted := by
  have hcount := h.refusals
  dsimp only [DiagnosticsQueue.step]
  split
  · rename_i dropped hget
    have hheld := held_remove hget
    rw [EventCall.count] at hheld
    refine ⟨?_, h.room⟩
    unfold accepted at hcount ⊢
    dsimp only
    omega
  · exact h

theorem Counted.flush (h : q.Counted) : (q.step .flush).Counted := by
  have hcount := h.refusals
  dsimp only [DiagnosticsQueue.step]
  split_ifs with hlt
  · refine ⟨?_, ?_⟩
    · unfold accepted at hcount ⊢
      rw [← List.append_assoc, sum_lineCounts_flush]
      exact hcount
    · rw [List.length_append, List.length_singleton]
      exact hlt
  · exact h

theorem Counted.receive (h : q.Counted) : (q.step .receive).Counted := by
  have hcount := h.refusals
  have hroom := h.room
  dsimp only [DiagnosticsQueue.step]
  cases hwaiting : q.waiting with
  | nil => exact h
  | cons command waiting =>
    refine ⟨?_, ?_⟩
    · unfold accepted at hcount ⊢
      rw [hwaiting] at hcount
      rw [List.append_assoc, List.singleton_append]
      exact hcount
    · rw [hwaiting, List.length_cons] at hroom
      exact Nat.le_of_succ_le hroom

theorem Counted.step (h : q.Counted) (e : QueueEvent) : (q.step e).Counted := by
  cases e with
  | claim thread => exact h.claim thread
  | send thread => exact h.send thread
  | restore thread => exact h.restore thread
  | flush => exact h.flush
  | receive => exact h.receive

/-- Whatever the threads do, and in whatever order, the lines that have found no room in the
channel are the ones that the lines of the channel, the calls that are under way and `DROPPED`
count together, up to the size of the counter. -/
theorem refusals_counted (es : List QueueEvent) : (run step {} es).Counted := by
  have hall : Allowed step (fun _ _ => True) ({} : DiagnosticsQueue) es :=
    allowed_of_forall (fun _ _ => trivial) _ es
  exact run_keeps (fun q e h _ => h.step e) ⟨rfl, Nat.zero_le _⟩ hall

end DiagnosticsQueue

end MDesk
