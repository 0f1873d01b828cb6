import MDesk.Core.Collect
import MDesk.Server.TerminalSession

/-!
# The terminal services

The registry of terminal services with their sessions, and the shells that are waited for. The
connections, the service threads, the cleanup task and the threads of the sessions come in any
order; each of their calls holds the locks it needs and is one step.
-/

namespace MDesk

open Core

/-- `MAX_SERVICES`. -/
def maxServices : Nat := 100

/-- `SERVICE_IDLE_TIMEOUT`, in nanoseconds. -/
def serviceIdleTimeout : Nat := 3600 * 1000000000

structure PersistentTerminalService where
  sessions : Table Int TerminalSession := ∅
  lastActivity : Nat
  isPersistent : Bool
  needsSessionSync : Bool := false
  isSpecifiedUser : Bool

/-- How the start of a shell goes. Behind `noShell` there is a process. -/
inductive ShellStart where
  | noPty
  | noShell
  | noWriter
  | noReader
  | started (pid : Option Nat)
  deriving DecidableEq, Repr

/-- `TerminalAction`. -/
inductive TerminalAction where
  | openTerminal (terminalId : Int) (rows cols : Nat)
  | resize (terminalId : Int) (rows cols : Nat)
  | data (terminalId : Int) (data : Bytes)
  | close (terminalId : Int)
  deriving DecidableEq, Repr

/-- What the operating system contributes to an action. -/
structure ActionCircumstances where
  now : Nat
  start : ShellStart := .noPty
  resizeError : Option String := none
  killError : Option String := none
  flush : TerminalFlush := {}
  deriving DecidableEq, Repr

/-- What it contributes to a pass of `read_outputs`, for each session. -/
structure ReadCircumstances where
  locked : Int → Bool := fun _ => false
  status : Int → Option Int := fun _ => none
  flush : Int → TerminalFlush := fun _ => {}

/-- The registry and the shells. The shells are numbered in the order of their start; noted are
those that have been waited for, those that an error has lost, with the error, and the sessions
that are gone. `answers` is what the connections answer to actions. -/
structure Terminals where
  services : Table String PersistentTerminalService := ∅
  tasks : List Nat := []
  started : Nat := 0
  reaped : List Nat := []
  lost : List (Nat × String) := []
  ended : List TerminalSession := []
  answers : List TerminalResponse := []

namespace PersistentTerminalService

/-- `reset_status`. -/
def resetStatus (service : PersistentTerminalService) (isPersistent : Bool) :
    PersistentTerminalService :=
  { service with
    isPersistent
    needsSessionSync := true
    sessions := service.sessions.mapWithKey fun _ s => { s with isOpened := false } }

/-- The terminals that a peer restores. -/
def otherTerminals (service : PersistentTerminalService) (terminalId : Int) : List Int :=
  if service.needsSessionSync then
    (service.sessions.entries.map Sigma.fst).filter fun id => id ≠ terminalId
  else []

/-- The service has been without use for too long. -/
def idle (service : PersistentTerminalService) (now : Nat) : Bool :=
  (!service.isPersistent && decide (serviceIdleTimeout < now - service.lastActivity)) ||
    (service.isPersistent && service.sessions.entries.isEmpty &&
      decide (serviceIdleTimeout * 2 < now - service.lastActivity))

/-- The shells of a service. -/
def shells (service : PersistentTerminalService) : List Nat :=
  service.sessions.collect fun _ s => s.child.toList

end PersistentTerminalService

namespace Terminals

variable (P : Platform)

/-- The service of an id is changed. -/
def putService (w : Terminals) (serviceId : String) (service : PersistentTerminalService) :
    Terminals :=
  { w with services := w.services.insert serviceId service }

/-- `get_or_create_service`. -/
def getOrCreateService (w : Terminals) (serviceId : String) (isPersistent isSpecifiedUser : Bool)
    (now : Nat) : Except String Terminals :=
  if w.services.get serviceId = none ∧ maxServices ≤ w.services.len then
    .error ("Maximum number of terminal services (" ++ toString maxServices ++ ") reached")
  else
    let service := (w.services.get serviceId).getD
      { lastActivity := now, isPersistent, isSpecifiedUser }
    .ok (w.putService serviceId (service.resetStatus isPersistent))

/-- `new`, which goes on without a service. -/
def new (w : Terminals) (serviceId : String) (isPersistent isSpecifiedUser : Bool) (now : Nat) :
    Terminals :=
  (w.getOrCreateService serviceId isPersistent isSpecifiedUser now).toOption.getD w

/-- `remove_service`. Whether the shells can be killed is not asked. -/
def removeService (w : Terminals) (serviceId : String) (flush : Int → TerminalFlush) : Terminals :=
  match w.services.get serviceId with
  | none => w
  | some service =>
    { w with
      services := w.services.remove serviceId
      tasks := w.tasks ++ service.shells
      ended := w.ended ++ service.sessions.collect fun id s => [s.stop (flush id)] }

/-- `set_persistent`, whose error nobody looks at. -/
def setPersistent (w : Terminals) (serviceId : String) (isPersistent : Bool) : Terminals :=
  { w with
    services := w.services.modify serviceId fun service => { service with isPersistent } }

/-- `cleanup_inactive_services`. -/
def cleanupInactiveServices (w : Terminals) (now : Nat)
    (flush : String → Int → TerminalFlush) : Terminals :=
  ((w.services.entries.filter fun e => e.2.idle now).map Sigma.fst).foldl
    (fun w serviceId => w.removeService serviceId (flush serviceId)) w

/-- `check_zombie_terminals`: `exited` tells of which shells `try_wait` knows an end or an
error. -/
def checkZombieTerminals (w : Terminals) (exited : Nat → Bool) : Terminals :=
  { w with
    tasks := w.tasks.filter fun n => !exited n
    reaped := w.reaped ++ w.tasks.filter exited }

/-- `handle_open`. -/
def handleOpen (w : Terminals) (serviceId : String) (service : PersistentTerminalService)
    (terminalId : Int) (rows cols : Nat) (c : ActionCircumstances) :
    Except String (Option TerminalResponse) × Terminals :=
  let others := service.otherTerminals terminalId
  match service.sessions.get terminalId with
  | some session =>
    (.ok (some (.opened terminalId true "Reconnected to existing terminal" session.pid serviceId
        others)),
      w.putService serviceId { service with
        sessions := service.sessions.insert terminalId { session with isOpened := true }
        needsSessionSync := false })
  | none =>
    match c.start with
    | .noPty => (.error "Failed to open PTY", w)
    | .noShell => (.error "Failed to spawn command", w)
    | .noWriter =>
      (.error "Failed to get writer", { w with
        started := w.started + 1
        lost := w.lost ++ [(w.started, "Failed to get writer")] })
    | .noReader =>
      (.error "Failed to get reader", { w with
        started := w.started + 1
        lost := w.lost ++ [(w.started, "Failed to get reader")] })
    | .started pid =>
      (.ok (some (.opened terminalId true "Terminal opened" (pid.getD 0) serviceId others)),
        { w.putService serviceId { service with
            sessions := service.sessions.insert terminalId
              (.opened w.started (pid.getD 0) (rows % 2 ^ 16) (cols % 2 ^ 16))
            needsSessionSync := false } with
          started := w.started + 1 })

/-- Change a session of a service. -/
def setSession (w : Terminals) (serviceId : String) (service : PersistentTerminalService)
    (terminalId : Int) (session : TerminalSession) : Terminals :=
  w.putService serviceId { service with sessions := service.sessions.insert terminalId session }

/-- `handle_resize`. -/
def handleResize (w : Terminals) (serviceId : String) (service : PersistentTerminalService)
    (terminalId : Int) (rows cols : Nat) (c : ActionCircumstances) :
    Except String (Option TerminalResponse) × Terminals :=
  match service.sessions.get terminalId with
  | none => (.ok none, w)
  | some session =>
    let w := w.setSession serviceId service terminalId
      { session with rows := rows % 2 ^ 16, cols := cols % 2 ^ 16 }
    match c.resizeError with
    | some e => (.error e, w)
    | none => (.ok none, w)

/-- `handle_data`. -/
def handleData (w : Terminals) (serviceId : String) (service : PersistentTerminalService)
    (terminalId : Int) (data : Bytes) : Except String (Option TerminalResponse) × Terminals :=
  match service.sessions.get terminalId with
  | none => (.ok none, w)
  | some session => (.ok none, w.setSession serviceId service terminalId (session.sendInput data))

/-- `handle_close`. A shell that cannot be killed is not waited for. -/
def handleClose (w : Terminals) (serviceId : String) (service : PersistentTerminalService)
    (terminalId : Int) (c : ActionCircumstances) :
    Except String (Option TerminalResponse) × Terminals :=
  match service.sessions.get terminalId with
  | none => (.ok none, w)
  | some session =>
    let w := { w.putService serviceId { service with
        sessions := service.sessions.remove terminalId } with
      ended := w.ended ++ [session.stop c.flush] }
    match session.child with
    | none => (.ok (some (.closed terminalId 0)), w)
    | some child =>
      match c.killError with
      | some e => (.error e, { w with lost := w.lost ++ [(child, e)] })
      | none => (.ok (some (.closed terminalId (-1))), { w with tasks := w.tasks ++ [child] })

/-- `handle_action`. -/
def handleAction (w : Terminals) (serviceId : String) (action : TerminalAction)
    (c : ActionCircumstances) : Except String (Option TerminalResponse) × Terminals :=
  match w.services.get serviceId with
  | none => (.ok (some (.error ("Terminal service " ++ serviceId ++ " not found"))), w)
  | some service =>
    let service := { service with lastActivity := c.now }
    let w := w.putService serviceId service
    match action with
    | .openTerminal terminalId rows cols =>
      w.handleOpen serviceId service terminalId rows cols c
    | .resize terminalId rows cols => w.handleResize serviceId service terminalId rows cols c
    | .data terminalId data => w.handleData serviceId service terminalId data
    | .close terminalId => w.handleClose serviceId service terminalId c

/-- The text of an error that a connection answers with. -/
def actionError (e : String) : TerminalResponse := .error ("Failed to handle action: " ++ e)

/-- `handle_terminal_action`. -/
def handleTerminalAction (w : Terminals) (serviceId : String) (action : TerminalAction)
    (c : ActionCircumstances) : Terminals :=
  let (result, w) := w.handleAction serviceId action c
  match result with
  | .ok answer => { w with answers := w.answers ++ answer.toList }
  | .error e => { w with answers := w.answers ++ [actionError e] }

/-- The session is told to be closed in this pass. -/
def closing (c : ReadCircumstances) (id : Int) (s : TerminalSession) : Bool :=
  !c.locked id && s.closes

/-- `read_outputs`: the sessions of a service that is not persistent are dropped with their
shells. -/
def readOutputs (w : Terminals) (serviceId : String) (isPersistent : Bool)
    (c : ReadCircumstances) : Terminals :=
  match w.services.get serviceId with
  | none => w
  | some service =>
    let closed := service.sessions.retain (closing c)
    let read := service.sessions.mapWithKey fun id s => s.pass P id (c.locked id) (c.status id)
    let left := (service.sessions.retain fun id s => !closing c id s).mapWithKey fun id s =>
      s.pass P id (c.locked id) (c.status id)
    { w.putService serviceId { service with sessions := if isPersistent then read else left } with
      tasks := w.tasks ++ closed.collect fun _ s => s.child.toList
      ended := w.ended ++ if isPersistent then []
        else closed.collect fun id s =>
          [(s.pass P id (c.locked id) (c.status id)).stop (c.flush id)] }

/-- A thread of a session goes on. -/
def onSession (w : Terminals) (serviceId : String) (terminalId : Int)
    (f : TerminalSession → TerminalSession) : Terminals :=
  { w with
    services := w.services.modify serviceId fun service =>
      { service with sessions := service.sessions.modify terminalId f } }

end Terminals

/-- What happens to the terminals. -/
inductive TerminalEvent where
  | new (serviceId : String) (isPersistent isSpecifiedUser : Bool) (now : Nat)
  | setPersistent (serviceId : String) (isPersistent : Bool)
  | action (serviceId : String) (action : TerminalAction) (c : ActionCircumstances)
  | readOutputs (serviceId : String) (isPersistent : Bool) (c : ReadCircumstances)
  | leave (serviceId : String) (flush : Int → TerminalFlush)
  | disconnect (serviceId : String) (isPersistent : Bool) (flush : Int → TerminalFlush)
  | cleanup (now : Nat) (flush : String → Int → TerminalFlush)
  | reap (exited : Nat → Bool)
  | reader (serviceId : String) (terminalId : Int) (read : TerminalRead)
  | writer (serviceId : String) (terminalId : Int) (ok : Bool)

namespace Terminals

variable (P : Platform)

/-- The end of `run`, and `on_disconnect`. -/
def leave (w : Terminals) (serviceId : String) (flush : Int → TerminalFlush) : Terminals :=
  match w.services.get serviceId with
  | none => w
  | some service => if service.isPersistent then w else w.removeService serviceId flush

def step (w : Terminals) : TerminalEvent → Terminals
  | .new serviceId isPersistent isSpecifiedUser now =>
    w.new serviceId isPersistent isSpecifiedUser now
  | .setPersistent serviceId isPersistent => w.setPersistent serviceId isPersistent
  | .action serviceId action c => w.handleTerminalAction serviceId action c
  | .readOutputs serviceId isPersistent c => w.readOutputs P serviceId isPersistent c
  | .leave serviceId flush => w.leave serviceId flush
  | .disconnect serviceId isPersistent flush =>
    if isPersistent then w else w.removeService serviceId flush
  | .cleanup now flush => w.cleanupInactiveServices now flush
  | .reap exited => w.checkZombieTerminals exited
  | .reader serviceId terminalId read => w.onSession serviceId terminalId fun s => s.readerStep read
  | .writer serviceId terminalId ok => w.onSession serviceId terminalId fun s => s.writerStep ok

end Terminals

end MDesk
