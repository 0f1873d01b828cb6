import Mathlib.Algebra.Group.Nat.Defs
import MDesk.Core.Run

/-!
# The rounds of a session

A session connects in rounds, each with a thread of its own. A new round may begin while the
threads of older ones still run; all of them share the connection state, the sender of messages to
the current thread and the flags of the recording. Only the end of a round is told by its number.
-/

namespace MDesk

open Core

/-- `ConnectionState`. -/
inductive ConnectionState where
  | connecting
  | connected
  | disconnected
  deriving DecidableEq, Repr

/-- `ConnectionRoundState`, but for the results of recordings. -/
structure ConnectionRoundState where
  round : Nat := 0
  state : ConnectionState := .connecting
  deriving DecidableEq, Repr

namespace ConnectionRoundState

/-- `new_round`. The number wraps. -/
def newRound (c : ConnectionRoundState) : ConnectionRoundState where
  round := (c.round + 1) % 2 ^ 32
  state := .connecting

/-- `set_connected`. -/
def setConnected (c : ConnectionRoundState) : ConnectionRoundState :=
  { c with state := .connected }

/-- `is_round_gt`. -/
def isRoundGt (c : ConnectionRoundState) (round : Nat) : Bool :=
  if round = 2 ^ 32 - 1 ∧ c.round = 0 then true else round < c.round

/-- `set_disconnected`. -/
def setDisconnected (c : ConnectionRoundState) (round : Nat) : Bool × ConnectionRoundState :=
  if c.isRoundGt round then (false, c) else (true, { c with state := .disconnected })

variable {c : ConnectionRoundState} {n : Nat}

/-- A round is not newer than itself. -/
@[simp] theorem isRoundGt_self : c.isRoundGt c.round = false := by
  have hne : ¬ (c.round = 2 ^ 32 - 1 ∧ c.round = 0) := by omega
  rw [isRoundGt, if_neg hne]
  simp

theorem setDisconnected_of_gt (h : c.isRoundGt n = true) : (c.setDisconnected n).2 = c := by
  rw [setDisconnected, if_pos h]

theorem setDisconnected_state (h : c.isRoundGt n = false) :
    (c.setDisconnected n).2.state = .disconnected := by
  rw [setDisconnected, if_neg (by simp [h])]

@[simp] theorem setDisconnected_round : (c.setDisconnected n).2.round = c.round := by
  unfold setDisconnected
  split <;> rfl

end ConnectionRoundState

/-- Where a round is: its number is drawn, its thread runs, `Client::start` is going on, it is
connected, its recorders are finalised once it is not any more, and it has ended. -/
inductive RoundPhase where
  | drawn
  | spawned
  | starting
  | running
  | leaving (connected : Bool)
  | ended
  deriving DecidableEq, Repr

namespace RoundPhase

/-- The round is connecting or connected. -/
def active : RoundPhase → Bool
  | .drawn | .spawned | .starting | .running => true
  | .leaving _ | .ended => false

/-- The thread of the round has published its sender. -/
def entered : RoundPhase → Bool
  | .drawn | .spawned => false
  | .starting | .running | .leaving _ | .ended => true

/-- The connection is given up but the round has not ended. -/
def isLeaving : RoundPhase → Bool
  | .leaving _ => true
  | _ => false

/-- The connection state of a session whose newest round is there. -/
def shows : RoundPhase → ConnectionState
  | .drawn | .spawned | .starting | .leaving false => .connecting
  | .running | .leaving true => .connected
  | .ended => .disconnected

end RoundPhase

/-- A round, with whether it has been sent `Data::Close`. -/
structure SessionRound where
  number : Nat
  phase : RoundPhase
  closed : Bool := false
  deriving DecidableEq, Repr

/-- What the rounds of a session share: the connection state, whether a thread is stored, the round
whose sender is published, and the flags of the recording. -/
structure ClientSession where
  connectionRoundState : ConnectionRoundState := {}
  thread : Bool := false
  sender : Option Nat := none
  recordState : Bool := false
  recordActive : Bool := false
  rounds : List SessionRound := []
  deriving DecidableEq, Repr

/-- What happens to a session. Rounds go by their place in the order they began. -/
inductive RoundEvent where
  /-- `reconnect` up to the new round. -/
  | reconnect
  /-- The rest of `reconnect`. -/
  | store (i : Nat)
  /-- The thread that `session_start_` begins with, which is not stored. -/
  | sessionStart
  /-- `io_loop` publishes its sender. -/
  | enter (i : Nat)
  | startOk (i : Nat)
  | startErr (i : Nat)
  /-- The loop of a connected round is left. -/
  | exit (i : Nat)
  /-- The recorders are finalised and the round ends. -/
  | finish (i : Nat)
  /-- `close`. -/
  | close
  /-- The recording is switched. -/
  | record (state active : Bool)
  deriving DecidableEq, Repr

namespace ClientSession

/-- `send(Data::Close)`. -/
def sendClose (s : ClientSession) : ClientSession :=
  match s.sender with
  | none => s
  | some i => { s with rounds := s.rounds.modify i fun r => { r with closed := true } }

/-- A new round begins. -/
def beginRound (s : ClientSession) (phase : RoundPhase) : ClientSession :=
  { s with
    connectionRoundState := s.connectionRoundState.newRound
    rounds := s.rounds ++ [{ number := s.connectionRoundState.newRound.round, phase }] }

/-- `reconnect` with the lock of the connection state held. -/
def reconnect (s : ClientSession) : ClientSession :=
  if s.thread then
    match s.connectionRoundState.state with
    | .connecting => s
    | .connected => s.sendClose.beginRound .drawn
    | .disconnected => s.beginRound .drawn
  else s.beginRound .drawn

/-- A round goes on to another phase. -/
def setPhase (s : ClientSession) (i : Nat) (phase : RoundPhase) : ClientSession :=
  { s with rounds := s.rounds.modify i fun r => { r with phase } }

/-- The phase of a round. -/
def phaseOf (s : ClientSession) (i : Nat) : Option RoundPhase := s.rounds[i]?.map (·.phase)

/-- The end of `Remote::io_loop`. -/
def finish (s : ClientSession) (i number : Nat) : ClientSession :=
  let outdated := s.connectionRoundState.isRoundGt number
  { s.setPhase i .ended with
    connectionRoundState := (s.connectionRoundState.setDisconnected number).2
    recordState := if outdated then s.recordState else false
    recordActive := if outdated then s.recordActive else false }

/-- The session behind an event. -/
def step (s : ClientSession) : RoundEvent → ClientSession
  | .reconnect => s.reconnect
  | .store i =>
    if s.phaseOf i = some .drawn then { s.setPhase i .spawned with thread := true } else s
  | .sessionStart => s.beginRound .spawned
  | .enter i =>
    if s.phaseOf i = some .spawned then { s.setPhase i .starting with sender := some i } else s
  | .startOk i =>
    if s.phaseOf i = some .starting then
      { s.setPhase i .running with connectionRoundState := s.connectionRoundState.setConnected }
    else s
  | .startErr i => if s.phaseOf i = some .starting then s.setPhase i (.leaving false) else s
  | .exit i => if s.phaseOf i = some .running then s.setPhase i (.leaving true) else s
  | .finish i =>
    match s.rounds[i]? with
    | none => s
    | some r => if r.phase.isLeaving then s.finish i r.number else s
  | .close => s.sendClose
  | .record state active => { s with recordState := state, recordActive := active }

/-- At most one round that has not been sent `Data::Close` is connecting or connected. -/
def Single (s : ClientSession) : Prop :=
  ∀ (i j : Nat) (ri rj : SessionRound), s.rounds[i]? = some ri → s.rounds[j]? = some rj →
    ri.phase.active = true → rj.phase.active = true → ri.closed = false → rj.closed = false → i = j

/-- The connection state is that of the newest round. -/
def Shows (s : ClientSession) : Prop :=
  ∀ (i : Nat) (r : SessionRound), s.rounds[i]? = some r → i + 1 = s.rounds.length →
    s.connectionRoundState.state = r.phase.shows

/-- A round with a newer one behind it is about to end. -/
def Outlived (s : ClientSession) (i : Nat) (r : SessionRound) : Prop :=
  s.rounds[i]? = some r ∧ r.phase.isLeaving = true ∧ i + 1 < s.rounds.length

/-- The last event of a run, if it ends an older round, changes neither the connection state nor
the flags of the recording. -/
def EndsHarmlessly (es : List RoundEvent) : Prop :=
  ∀ pre i r, es = pre ++ [.finish i] → (run step {} pre).Outlived i r →
    (run step {} es).connectionRoundState.state = (run step {} pre).connectionRoundState.state ∧
      (run step {} es).recordState = (run step {} pre).recordState ∧
      (run step {} es).recordActive = (run step {} pre).recordActive

/-- Every connecting or connected round has been sent `Data::Close`. -/
def AllClosed (s : ClientSession) : Prop :=
  ∀ r ∈ s.rounds, r.phase.active = true → r.closed = true

/-- A round that begins without the check of `reconnect` finds all others closed; a start succeeds
for the newest round, or in a session that is connected; and an older round that ends is told by
its number, or has nothing left to change. -/
def Fits (s : ClientSession) : RoundEvent → Prop
  | .reconnect => s.thread = false → s.AllClosed
  | .sessionStart => s.AllClosed
  | .startOk i => s.phaseOf i = some .starting →
      i + 1 = s.rounds.length ∨ s.connectionRoundState.state = .connected
  | .finish i => ∀ r, s.Outlived i r →
      s.connectionRoundState.isRoundGt r.number = true ∨
        (s.connectionRoundState.state = .disconnected ∧ s.recordState = false ∧
          s.recordActive = false)
  | _ => True

end ClientSession

end MDesk
