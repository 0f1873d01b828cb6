import Mathlib.Algebra.Group.Nat.Defs
import Mathlib.Logic.Function.Basic
import MDesk.Core.Run
import MDesk.Server.PortableService

/-!
# The launch of the portable service

Any number of threads may call `start_portable_service`; the one that sets `STARTING` prepares the
shared memory and starts the helper. A watchdog for each launch, the connection of the helper and
the handshakes that fail all set it back. The sections under a lock are the steps.
-/

namespace MDesk.PortableService

open Core

/-- Where a call of `start_portable_service` is: it has read `RUNNING`; it has set `STARTING`, with
the number of the launch; it has cleared what was there; it has created the shared memory; it has
published the token; its watchdog is scheduled; it is about to clear what it has made; and its
closure has failed. -/
inductive LaunchPhase where
  | idle
  | looked (running : Bool)
  | begun (launchToken : Nat)
  | cleared (launchToken : Nat)
  | created (launchToken : Nat) (ipcToken : IpcToken)
  | prepared (launchToken : Nat)
  | watched
  | discarding
  | failed
  | ended
  deriving DecidableEq, Repr

/-- The call has set `STARTING` and its closure has not ended. -/
def LaunchPhase.inProgress : LaunchPhase → Bool
  | .begun _ | .cleared _ | .created _ _ | .prepared _ | .watched | .discarding => true
  | .idle | .looked _ | .failed | .ended => false

/-- Where the watchdog of a launch is. Each of the globals it reads has a section of its own. -/
inductive WatchdogPhase where
  | unscheduled
  | sleeping (launchToken : Nat)
  | counted (latest : Bool)
  | armed (starting : Bool)
  | decided
  | ended
  deriving DecidableEq, Repr

/-- The handshake of the ipc server, which serves one at a time. -/
inductive Handshake where
  | idle
  | matched (token : IpcToken) (shmemName : Option String)
  | resetting
  deriving DecidableEq, Repr

/-- The task of a connection that was accepted. -/
inductive ConnectionPhase where
  | absent
  | queued
  | serving
  | ponged
  | stopped
  | ended
  deriving DecidableEq, Repr

/-- How the start of the helper ends. The path of the executable may not be known. -/
inductive RunOutcome where
  | ran
  | failed
  | unknownExe
  deriving DecidableEq, Repr

/-- The globals of the main process and what goes on in it, with the tokens it has accepted and the
names and tokens it has drawn. -/
structure Client where
  pid : Nat := 0
  running : Bool := false
  starting : Bool := false
  startingToken : Nat := 0
  runtime : Runtime := {}
  launches : Nat → LaunchPhase := fun _ => .idle
  watchdogs : Nat → WatchdogPhase := fun _ => .unscheduled
  handshake : Handshake := .idle
  connections : Nat → ConnectionPhase := fun _ => .absent
  receiver : Option Nat := none
  accepted : List IpcToken := []
  issuedNames : List String := []
  issuedTokens : List IpcToken := []

/-- What happens in the main process. Calls, their watchdogs and connections go by number. -/
inductive Event where
  /-- `start_portable_service` reads `RUNNING`. -/
  | look (i : Nat)
  /-- The section under `STARTING`, with whether a helper process is there. -/
  | acquire (i : Nat) (hasProcess : Bool)
  | clear (i : Nat)
  /-- The section under `SHMEM`, with the random number of the name and the bytes of the token,
  unless it fails before. -/
  | create (i : Nat) (random : Option (UInt32 × Vector UInt8 32))
  | publish (i : Nat)
  | run (i : Nat) (outcome : RunOutcome)
  | leave (i : Nat)
  /-- What follows a closure that has failed. -/
  | resetFailed (i : Nat)
  /-- The next section of the watchdog. -/
  | watchdog (i : Nat)
  /-- A connection sends a token. -/
  | validate (candidate : IpcToken)
  | accept
  | reject
  | resetRejected
  /-- The task of a connection gets the receiver of the messages to the helper. -/
  | serve (c : Nat)
  | pong (c : Nat)
  | pongReset (c : Nat)
  /-- The loop of a connection is left. -/
  | stop (c : Nat)
  | stopReset (c : Nat)

namespace Client

/-- A call goes on. -/
def setLaunch (s : Client) (i : Nat) (phase : LaunchPhase) : Client :=
  { s with launches := Function.update s.launches i phase }

/-- `start_portable_service` reads `RUNNING`. -/
def look (s : Client) (i : Nat) : Client :=
  match s.launches i with
  | .idle => s.setLaunch i (.looked s.running)
  | _ => s

/-- The section of `start_portable_service` under `STARTING`. -/
def lockStarting (s : Client) (i : Nat) (running hasProcess : Bool) : Client :=
  let starting := if s.starting && !running && !hasProcess then false else s.starting
  if starting || running then { s.setLaunch i .ended with starting }
  else
    let launchToken := (s.startingToken + 1) % 2 ^ 64
    { s.setLaunch i (.begun launchToken) with starting := true, startingToken := launchToken }

/-- A call that has read `RUNNING` comes to that section. -/
def acquire (s : Client) (i : Nat) (hasProcess : Bool) : Client :=
  match s.launches i with
  | .looked running => s.lockStarting i running hasProcess
  | _ => s

/-- `clear_runtime_shmem_state`, at the begin of a launch or after it has failed. -/
def clear (s : Client) (i : Nat) : Client :=
  match s.launches i with
  | .begun launchToken =>
    { s.setLaunch i (.cleared launchToken) with runtime := s.runtime.clearRuntimeShmemState }
  | .discarding => { s.setLaunch i .failed with runtime := s.runtime.clearRuntimeShmemState }
  | _ => s

/-- The section of a launch under `SHMEM`. -/
def lockShmem (s : Client) (i launchToken : Nat) (name : String) (token : IpcToken) : Client :=
  if isValidPortableServiceShmemName name then
    let (written, runtime) := s.runtime.createShmem name token
    { s.setLaunch i (if written then .created launchToken token else .discarding) with
      runtime
      issuedNames := name :: s.issuedNames
      issuedTokens := token :: s.issuedTokens }
  else s.setLaunch i .failed

/-- A launch that has cleared the shared memory comes to that section. -/
def create (s : Client) (i : Nat) (random : Option (UInt32 × Vector UInt8 32)) : Client :=
  match s.launches i with
  | .cleared launchToken =>
    match random with
    | none => s.setLaunch i .failed
    | some (number, bytes) =>
      s.lockShmem i launchToken (nextPortableServiceShmemName s.pid number)
        (generateOneTimeIpcToken bytes)
  | _ => s

/-- `set_runtime_ipc_token`. -/
def publish (s : Client) (i : Nat) : Client :=
  match s.launches i with
  | .created launchToken token =>
    { s.setLaunch i (.prepared launchToken) with runtime := s.runtime.setRuntimeIpcToken token }
  | _ => s

/-- The helper is started. -/
def runHelper (s : Client) (i : Nat) (outcome : RunOutcome) : Client :=
  match s.launches i with
  | .prepared launchToken =>
    match outcome with
    | .ran =>
      { s.setLaunch i .watched with
        watchdogs := Function.update s.watchdogs i (.sleeping launchToken) }
    | .failed => s.setLaunch i .discarding
    | .unknownExe => s.setLaunch i .failed
  | _ => s

/-- The closure of a launch ends. -/
def leave (s : Client) (i : Nat) : Client :=
  match s.launches i with
  | .watched => s.setLaunch i .ended
  | _ => s

/-- `STARTING` is set back after a closure that has failed. -/
def resetFailed (s : Client) (i : Nat) : Client :=
  match s.launches i with
  | .failed => { s.setLaunch i .ended with starting := false }
  | _ => s

/-- The section of the watchdog of a launch that is next. -/
def watch (s : Client) (i : Nat) : Client :=
  match s.watchdogs i with
  | .sleeping launchToken =>
    { s with
      watchdogs := Function.update s.watchdogs i (.counted (s.startingToken = launchToken)) }
  | .counted latest =>
    { s with watchdogs := Function.update s.watchdogs i (.armed (latest && s.starting)) }
  | .armed starting =>
    { s with
      watchdogs := Function.update s.watchdogs i
        (if starting && !s.running then .decided else .ended) }
  | .decided =>
    { s with watchdogs := Function.update s.watchdogs i .ended, starting := false }
  | .unscheduled | .ended => s

/-- The token a connection sends is compared. -/
def validate (s : Client) (candidate : IpcToken) : Client :=
  match s.handshake with
  | .idle =>
    match s.runtime.consumeRuntimeIpcTokenIfMatch candidate with
    | (true, shmemName, runtime) =>
      { s with runtime, handshake := .matched candidate shmemName }
    | (false, _, runtime) => { s with runtime }
  | _ => s

/-- A handshake succeeds. -/
def accept (s : Client) : Client :=
  match s.handshake with
  | .matched token _ =>
    { s with
      handshake := .idle
      connections := Function.update s.connections s.accepted.length .queued
      accepted := s.accepted ++ [token] }
  | _ => s

/-- A handshake fails after its token has matched. -/
def reject (s : Client) : Client :=
  match s.handshake with
  | .matched token shmemName =>
    { s with
      runtime := s.runtime.restoreRuntimeIpcTokenAfterFailedHandshake token shmemName
      handshake := .resetting }
  | _ => s

/-- `STARTING` is set back after a handshake that has failed. -/
def resetRejected (s : Client) : Client :=
  match s.handshake with
  | .resetting => { s with handshake := .idle, starting := false }
  | _ => s

/-- The task of a connection gets the receiver of the messages to the helper. -/
def serve (s : Client) (c : Nat) : Client :=
  match s.connections c, s.receiver with
  | .queued, none =>
    { s with connections := Function.update s.connections c .serving, receiver := some c }
  | _, _ => s

/-- A connection comes from one phase to another. -/
def advance (s : Client) (c : Nat) (old new : ConnectionPhase) (next : Client) : Client :=
  if s.connections c = old then
    { next with connections := Function.update s.connections c new }
  else s

/-- The client behind an event. -/
def step (s : Client) : Event → Client
  | .look i => s.look i
  | .acquire i hasProcess => s.acquire i hasProcess
  | .clear i => s.clear i
  | .create i random => s.create i random
  | .publish i => s.publish i
  | .run i outcome => s.runHelper i outcome
  | .leave i => s.leave i
  | .resetFailed i => s.resetFailed i
  | .watchdog i => s.watch i
  | .validate candidate => s.validate candidate
  | .accept => s.accept
  | .reject => s.reject
  | .resetRejected => s.resetRejected
  | .serve c => s.serve c
  | .pong c => s.advance c .serving .ponged { s with running := true }
  | .pongReset c => s.advance c .ponged .serving { s with starting := false }
  | .stop c => s.advance c .serving .stopped { s with running := false }
  | .stopReset c => s.advance c .stopped .ended { s with starting := false, receiver := none }

/-- At most one launch is in progress. -/
def Exclusive (s : Client) : Prop :=
  ∀ i j, (s.launches i).inProgress = true → (s.launches j).inProgress = true → i = j

/-- No launch is in progress. -/
def Idle (s : Client) : Prop := ∀ i, (s.launches i).inProgress = false

/-- `STARTING` is set back only while no launch is in progress, and what is drawn is new. -/
def Fits (s : Client) : Event → Prop
  | .acquire i hasProcess =>
    s.launches i = .looked false → s.starting = true → hasProcess = false → s.Idle
  | .create _ random => ∀ number bytes, random = some (number, bytes) →
      nextPortableServiceShmemName s.pid number ∉ s.issuedNames ∧
        generateOneTimeIpcToken bytes ∉ s.issuedTokens
  | .resetFailed i => s.launches i = .failed → s.Idle
  | .watchdog i => s.watchdogs i = .decided → s.Idle
  | .resetRejected => s.handshake = .resetting → s.Idle
  | .pongReset c => s.connections c = .ponged → s.Idle
  | .stopReset c => s.connections c = .stopped → s.Idle
  | _ => True

end Client

end MDesk.PortableService
