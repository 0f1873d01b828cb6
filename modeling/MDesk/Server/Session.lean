import MDesk.Cm.Served
import MDesk.Server.AuditComplete

/-!
# A connection and its connection manager

The connection passes what concerns write jobs on to the connection manager, which answers
over a queue of its own. The connection finds the record of an answer by the id alone; the
number of the job an answer is about is noted beside it.
-/

namespace MDesk

open MDesk.Core

namespace ToCm

/-- The id under which a message opens a job. -/
def opensId : ToCm → Option Int
  | .fs m => m.opensId
  | .action _ _ => none

/-- The id of the job that a message takes off the list. -/
def endsId : ToCm → Option Int
  | .fs m => m.endsId
  | .action _ _ => none

/-- The id of the job that a message makes write. -/
def writesId : ToCm → Option Int
  | .fs m => m.writesId
  | .action _ _ => none

end ToCm

/-! ## What is on its way to a write job -/

/-- A write job as the messages on their way to it see it: whether it is open, and how many
jobs have been opened. -/
structure WriteView where
  isOpen : Bool
  opened : Nat
  deriving DecidableEq, Repr

namespace WriteView

/-- The job with a number and an id behind a message. -/
def step (id : Int) (n : Nat) (v : WriteView) (m : ToCm) : WriteView where
  isOpen := (v.isOpen && m.endsId ≠ some id) || (m.opensId.isSome && v.opened = n)
  opened := v.opened + m.opensId.toList.length

/-- A message does not make the job write. -/
def Spares (id : Int) (v : WriteView) (m : ToCm) : Prop :=
  ¬ (v.isOpen = true ∧ m.writesId = some id)

instance (id : Int) (v : WriteView) (m : ToCm) : Decidable (v.Spares id m) :=
  inferInstanceAs (Decidable (¬ (_ ∧ _)))

end WriteView

/-- The view of the connection manager on one of its jobs. -/
def Cm.view (cm : Cm) (n : Nat) : WriteView where
  isOpen := cm.keys.any fun k => k.1 = n
  opened := cm.opened

/-- The ids of the open jobs behind a message. -/
def idsAfter (ids : List Int) (m : ToCm) : List Int :=
  ids.filter (fun id => m.endsId ≠ some id) ++ m.opensId.toList

/-! ## The system -/

/-- An answer of the connection manager on its way: the job that its message was about, and
whether this job is still open behind the message. -/
structure Reply where
  origin : Option Nat
  leavesOpen : Bool
  answer : CmAnswer
  deriving DecidableEq, Repr

/-- A connection, its connection manager and what is on its way between them. `writes` and
`downloads` are the ids of the write and read jobs by their numbers; `acked` notes the
downloads that had been read when an acknowledgement with their id came. -/
structure Session where
  conn : Connection
  toCm : List ToCm := []
  cm : Cm
  replies : List Reply := []
  writes : List Int := []
  downloads : List Int := []
  acked : List Nat := []

/-- What happens: the connection handles a message of the controller, makes a round or comes
to its end; it takes the next answer of the connection manager; this one handles its next
message, an action with the given result; the disk changes. -/
inductive SessionEvent where
  | server (e : ServerEvent)
  | reply
  | cm (env : Surroundings) (error : Option String)
  | disk (fs : Fs)

namespace ServerEvent

/-- An answer of the connection manager. -/
def isAnswer : ServerEvent → Bool
  | .answer _ => true
  | .drained _ => true
  | _ => false

/-- The id of a download that is asked for. -/
def readId : ServerEvent → Option Int
  | .send id _ _ _ _ _ _ _ => some id
  | .startDirect id _ _ => some id
  | _ => none

end ServerEvent

namespace Session

variable (H : AuditHost)

/-- The downloads that an acknowledgement comes for. -/
def acknowledged (s : Session) (e : ServerEvent) : List Nat :=
  match s.conn.phase, e with
  | .running, .done id _ _ => s.conn.finishedReads.filter fun n => s.downloads[n]? = some id
  | _, _ => []

/-- The connection handles an event. -/
def serve (s : Session) (e : ServerEvent) : Session :=
  let (conn, messages) := s.conn.next H e
  { s with
    conn
    toCm := s.toCm ++ messages
    writes := s.writes ++ messages.filterMap ToCm.opensId
    downloads := s.downloads ++ if conn.reads = s.conn.reads then [] else e.readId.toList
    acked := s.acked ++ s.acknowledged e }

/-- The event of an answer that the connection takes. -/
def taken (s : Session) (r : Reply) : ServerEvent :=
  if s.conn.phase = .draining then .drained r.answer else .answer r.answer

/-- The connection manager handles its next message. -/
def handleNext (s : Session) (env : Surroundings) (error : Option String) : Session :=
  match s.toCm with
  | [] => s
  | .action id fileNum :: toCm =>
    let answer : CmAnswer :=
      match error with
      | none => .done id fileNum
      | some e => .error id e fileNum
    { s with toCm, replies := s.replies ++ [{ origin := none, leavesOpen := false, answer }] }
  | .fs m :: toCm =>
    let (cm, answers) := Cm.handleFs H.toHost env s.cm m
    let origin := s.cm.about m
    let leavesOpen := origin.any fun n => (cm.view n).isOpen
    { s with
      toCm
      cm
      replies := s.replies ++ answers.map fun answer => { origin, leavesOpen, answer } }

/-- One event. -/
def step (s : Session) : SessionEvent → Session
  | .server e => if e.isAnswer then s else s.serve H e
  | .reply =>
    match s.replies with
    | [] => s
    | r :: replies => ({ s with replies } : Session).serve H (s.taken r)
  | .cm env error => s.handleNext H env error
  | .disk fs => { s with cm := { s.cm with fs } }

/-- The session of a connection that has not transferred any file. -/
def start (c : Connection) (fs : Fs) : Session where
  conn := { c with
    pendingFileAudits := ∅
    deviceRemoteJobs := ∅
    readJobs := []
    phase := .running
    newWrites := 0
    reads := 0
    posted := []
    remembered := []
    finishedReads := []
    sentBlocks := [] }
  cm := { fs }

/-! ## What the audit promises -/

/-- How much a transfer has written or sent. -/
def work (s : Session) : EnterpriseFileDirection → Nat → Nat
  | .upload, n => s.cm.work n
  | .download, n => s.conn.sentBlocks.count n

/-- What `COMPLETED` says: the write job has been finalised without an error; the reading job
has ended without an error, and the controller has acknowledged it. -/
def Completed (s : Session) : EnterpriseFileDirection → Nat → Prop
  | .upload, n => n ∈ s.cm.finished
  | .download, n => n ∈ s.conn.finishedReads ∧ n ∈ s.acked

/-! ## What the audit relies on -/

/-- Nothing on its way makes a write job write. -/
def Untouched (s : Session) (id : Int) (n : Nat) : Prop :=
  Allowed (WriteView.step id n) (WriteView.Spares id) (s.cm.view n) s.toCm

instance (s : Session) (id : Int) (n : Nat) : Decidable (s.Untouched id n) :=
  inferInstanceAs (Decidable (Allowed _ _ _ _))

/-- The ids of the write jobs that are open behind what is on its way. -/
def writeIds (s : Session) : List Int := run idsAfter (s.cm.keys.map Prod.snd) s.toCm

/-- The record that an answer settles. -/
def settledBy (s : Session) : CmAnswer → Option PendingFileAudit
  | .done id _ => (s.conn.pendingFileAudits.get id).filter fun p => p.direction = .upload
  | .error id _ _ => (s.conn.pendingFileAudits.get id).filter fun p => p.direction = .upload
  | .outcome id _ => (s.conn.pendingFileAudits.get id).filter fun p =>
    p.direction = .upload ∨ (s.conn.phase = .draining ∧ s.conn.uploadPending)
  | _ => none

/-- An error. -/
def isError : CmAnswer → Bool
  | .error _ _ _ => true
  | _ => false

/-- An answer is about the transfer whose record it settles, and ends it where it is an
error. -/
def Meant (s : Session) (r : Reply) : Prop :=
  ∀ p ∈ s.settledBy r.answer, p.direction = .upload ∧ r.origin = some p.serial ∧
    (isError r.answer = true → r.leavesOpen = false)

/-- An outcome that is posted before the connection manager knows finds nothing on its way
to the write job, and no reading job under its id. -/
def Unused (s : Session) (id : Int) : Prop :=
  ∀ p ∈ s.conn.pendingFileAudits.get id,
    (p.direction = .upload → s.Untouched id p.serial) ∧
      (p.direction = .download → ∀ j ∈ s.conn.readJobs, j.job.id ≠ id)

/-- What the audit relies on in an event while the loop runs. -/
def CarefulRun (s : Session) : ServerEvent → Prop
  | .send id _ _ _ _ _ _ _ => (∀ j ∈ s.conn.readJobs, j.job.id ≠ id) ∧
      ∀ p ∈ s.conn.pendingFileAudits.get id, p.direction = .download → p.sourceFinished = true
  | .receive id _ _ _ _ _ => id ∉ s.writeIds
  | .cancel id => ∀ p ∈ s.conn.pendingFileAudits.get id,
      p.direction = .upload → s.Untouched id p.serial
  | .done id _ permitted => id ∈ s.conn.deviceRemoteJobs → permitted = false → s.Unused id
  | _ => True

/-- What the audit relies on when the connection is closed. -/
def CarefulEnd (s : Session) : ServerEvent → Prop
  | .close => ∀ e ∈ s.conn.pendingFileAudits.entries,
      e.2.direction = .upload → s.Untouched e.1 e.2.serial
  | _ => True

/-- What the audit relies on in an event. -/
def Careful (s : Session) : SessionEvent → Prop
  | .server e => (s.conn.phase = .running → s.CarefulRun e) ∧
      (s.conn.phase = .draining → s.CarefulEnd e)
  | .reply => ∀ r ∈ s.replies.head?, s.Meant r
  | .cm _ _ => True
  | .disk _ => True

instance (s : Session) (r : Reply) : Decidable (s.Meant r) :=
  inferInstanceAs (Decidable (∀ p ∈ s.settledBy r.answer, _ ∧ _ ∧ (_ → _)))

instance (s : Session) (id : Int) : Decidable (s.Unused id) :=
  inferInstanceAs (Decidable (∀ p ∈ s.conn.pendingFileAudits.get id, (_ → _) ∧ (_ → _)))

instance (s : Session) : (e : ServerEvent) → Decidable (s.CarefulRun e)
  | .send id _ _ _ _ _ _ _ => inferInstanceAs (Decidable ((∀ j ∈ s.conn.readJobs, j.job.id ≠ id) ∧
      ∀ p ∈ s.conn.pendingFileAudits.get id, _ → _))
  | .receive _ _ _ _ _ _ => inferInstanceAs (Decidable (_ ∉ s.writeIds))
  | .cancel id => inferInstanceAs (Decidable (∀ p ∈ s.conn.pendingFileAudits.get id, _ → _))
  | .done id _ _ => inferInstanceAs (Decidable (id ∈ s.conn.deviceRemoteJobs → _ → s.Unused id))
  | .startDirect _ _ _ | .action _ _ | .sendConfirm _ _ | .block _ _ _ _ | .digest _ _ _ _ _
  | .error _ _ _ | .answer _ | .round _ _ | .leave | .drained _ | .close => .isTrue trivial

instance (s : Session) : (e : ServerEvent) → Decidable (s.CarefulEnd e)
  | .close => inferInstanceAs (Decidable (∀ e ∈ s.conn.pendingFileAudits.entries, _ → _))
  | .send _ _ _ _ _ _ _ _ | .receive _ _ _ _ _ _ | .cancel _ | .done _ _ _ | .startDirect _ _ _
  | .action _ _ | .sendConfirm _ _ | .block _ _ _ _ | .digest _ _ _ _ _ | .error _ _ _ | .answer _
  | .round _ _ | .leave | .drained _ => .isTrue trivial

instance (s : Session) : (e : SessionEvent) → Decidable (s.Careful e)
  | .server e => inferInstanceAs (Decidable ((_ → s.CarefulRun e) ∧ (_ → s.CarefulEnd e)))
  | .reply => inferInstanceAs (Decidable (∀ r ∈ s.replies.head?, s.Meant r))
  | .cm _ _ | .disk _ => .isTrue trivial

end Session

end MDesk
