import MDesk.Client.Reconnect
import MDesk.Recording.NoteFiles
import MDesk.Recording.VideoThread
import Mathlib.Logic.Function.Basic

/-!
# Saving a recording note while a session goes on

The connections of a session share the tracked files, the results of finalised recorders and the
identifier of the connection that files are tracked under. A note is saved for a snapshot of the
tracked files, which is taken once all of their sources are finalised. The sections under a lock are
the steps; what a recording is asked to do by the user and the peer may come at any time.
-/

namespace MDesk.RecordingHandover

open Core

/-- Where a connection is: its round is drawn; `reconnect` has rotated the identifier; its loop
runs; `finalize_recorders` waits; the result goes to the call that asked for it, or the round ends;
and it has ended. -/
inductive RemotePhase where
  | absent
  | drawn
  | rotated
  | running
  | finalizing (batch : Nat) (caller : Option Nat)
  | replying (caller : Nat) (error : Option String)
  | ending
  | over
  deriving DecidableEq, Repr

/-- The loop of the connection has been left and its result is there. -/
def RemotePhase.ended : RemotePhase → Bool
  | .ending | .over => true
  | _ => false

/-- The fields of `Remote` that matter to recordings. -/
structure Remote where
  phase : RemotePhase := .absent
  connectionRound : Nat := 0
  recordingSourceConnectionId : String := ""
  recordingConnectionTicket : String := ""
  deriving DecidableEq, Repr

/-- The thread of `track_late_recording_finalize_acks`. -/
structure LateTracker where
  remote : Nat
  round : Nat
  sourceConnectionId : String
  deriving DecidableEq, Repr

/-- Where a call of `save_recording_note` is: it waits for the recorders, it may take its snapshot,
the snapshot is being saved, it has returned before there was one, or behind it. -/
inductive SaveCall where
  | idle
  | waiting (round : Nat) (sourceConnectionId : String)
  | ready (round : Nat) (sourceConnectionId : String)
  | saving (files : List RecordingUploadFile)
  | refused (message : String)
  | settled (files : List RecordingUploadFile) (message : String)
  deriving DecidableEq, Repr

/-- The snapshot of a call. -/
def SaveCall.files : SaveCall → List RecordingUploadFile
  | .saving files => files
  | .settled files _ => files
  | _ => []

/-- The files of the snapshot of a call that it has not reported as saved. -/
def SaveCall.unsaved : SaveCall → List RecordingUploadFile
  | .saving files => files
  | .settled files message => if message = "" then [] else files
  | _ => []

/-- A session, with the connections that have taken an identifier, the files that recorders have
opened and those that were reported as saved. -/
structure NoteSession where
  connectionRoundState : ConnectionRoundState := {}
  finalizeResults : FinalizeResults := ∅
  auditSourceConnectionId : String
  auditConnectionTicket : String := ""
  recordingFiles : List RecordingUploadFile := []
  remotes : Nat → Remote := fun _ => {}
  remoteCount : Nat := 0
  threads : Nat → VideoThread := fun _ => {}
  threadCount : Nat := 0
  waiting : Nat → List Nat := fun _ => []
  batchCount : Nat := 0
  trackers : Nat → Option LateTracker := fun _ => none
  calls : Nat → SaveCall := fun _ => .idle
  owners : String → Option Nat := fun _ => none
  opened : List String := []
  saved : List (String × String) := []

/-- What happens to a session. Connections, video threads, finalisations and calls go by number. -/
inductive NoteEvent where
  /-- `reconnect`: the round is drawn, the identifier rotated, the thread started. The session
  begins without rotating. -/
  | beginRound
  | rotate (a : Nat) (sourceConnectionId : String)
  | start (a : Nat)
  | connect (a : Nat)
  /-- The server gives the connection a ticket. -/
  | ticket (ticket : String)
  /-- The login is accepted. -/
  | login (a : Nat)
  | newVideoThread (a : Nat)
  | videoFrame (t : Nat)
  /-- `Data::RecordScreen`. -/
  | recordScreen (a : Nat) (start : Bool)
  /-- `update_record_state` finds that the recording is to be switched. -/
  | updateRecordState (a : Nat) (start : Bool)
  /-- `Data::FinalizeRecording` of a call. -/
  | finalizeRecording (a i : Nat)
  | leave (a : Nat)
  /-- `finalize_recorders` has all acknowledgements. -/
  | finalized (a : Nat)
  /-- It gives up, because the time is over or because the channel is closed. -/
  | giveUp (a : Nat) (timedOut : Bool)
  | reply (a : Nat)
  | disconnect (a : Nat)
  | lateAcks (batch : Nat)
  /-- A video thread does its next piece of work. -/
  | work (t : Nat) (o : VideoOutcome)
  | saveNote (i : Nat)
  /-- A call that has waited in vain looks at the state of the connection. -/
  | poll (i : Nat) (closed expired : Bool)
  | snapshot (i : Nat)
  | finish (i : Nat) (titleContainsKorean : Bool) (errorsOf : RecordingUploadFile → List String)
  | expire (i : Nat)

namespace NoteSession

def localKept : String := " 로컬 원본은 유지되며 다시 시도할 수 있습니다."

def roundChanged : String :=
  "재접속 중 연결 세대가 변경되어 녹화 저장을 중단했습니다. " ++
    "연결을 종료한 뒤 다시 시도해 주세요. 로컬 원본은 유지됩니다."

def finalizeError (timedOut : Bool) : String :=
  if timedOut then "녹화 파일 마감 확인 시간이 초과되었습니다."
  else "녹화 파일 마감 채널이 종료되었습니다."

def setRemote (s : NoteSession) (a : Nat) (remote : Remote) : NoteSession :=
  { s with remotes := Function.update s.remotes a remote }

def setPhase (s : NoteSession) (a : Nat) (phase : RemotePhase) : NoteSession :=
  s.setRemote a { s.remotes a with phase }

def setCall (s : NoteSession) (i : Nat) (call : SaveCall) : NoteSession :=
  { s with calls := Function.update s.calls i call }

/-- A message for every video thread of a connection. -/
def pushAll (s : NoteSession) (a : Nat) (x : Work) : NoteSession :=
  { s with
    threads := fun t =>
      if (s.threads t).remote = some a then (s.threads t).push x else s.threads t }

/-- The video threads of a connection. -/
def threadsOf (s : NoteSession) (a : Nat) : List Nat :=
  (List.range s.threadCount).filter fun t => (s.threads t).remote = some a

/-- `set_recording_finalize_result`. -/
def setFinalizeResult (s : NoteSession) (round : Nat) (sourceConnectionId : String)
    (error : Option String) : NoteSession :=
  { s with finalizeResults := s.finalizeResults.insert round { sourceConnectionId, error } }

/-- `new_round`. -/
def beginRound (s : NoteSession) : NoteSession :=
  { s with
    connectionRoundState := s.connectionRoundState.newRound
    remotes := Function.update s.remotes s.remoteCount
      { phase := .drawn, connectionRound := s.connectionRoundState.newRound.round }
    remoteCount := s.remoteCount + 1 }

/-- `rotate_enterprise_audit_context` in `reconnect`. -/
def rotate (s : NoteSession) (a : Nat) (sourceConnectionId : String) : NoteSession :=
  { s.setPhase a .rotated with
    auditSourceConnectionId := sourceConnectionId
    auditConnectionTicket := "" }

/-- The connection takes the identifier and the ticket that are current. -/
def login (s : NoteSession) (a : Nat) : NoteSession :=
  let remote := s.remotes a
  if remote.recordingSourceConnectionId = "" ∨ remote.recordingConnectionTicket = "" then
    { s.setRemote a { remote with
        recordingSourceConnectionId := s.auditSourceConnectionId
        recordingConnectionTicket := s.auditConnectionTicket } with
      owners := Function.update s.owners s.auditSourceConnectionId (some a) }
  else s

/-- `new_video_thread`. -/
def newVideoThread (s : NoteSession) (a : Nat) : NoteSession :=
  { s with
    threads := Function.update s.threads s.threadCount
      { remote := some a
        recordingSourceConnectionId := (s.remotes a).recordingSourceConnectionId
        recordingConnectionTicket := (s.remotes a).recordingConnectionTicket }
    threadCount := s.threadCount + 1 }

/-- `finalize_recorders` up to the wait. -/
def beginFinalize (s : NoteSession) (a : Nat) (caller : Option Nat) : NoteSession :=
  { (s.pushAll a (.finalizeRecording s.batchCount)).setPhase a
      (.finalizing s.batchCount caller) with
    waiting := Function.update s.waiting s.batchCount (s.threadsOf a)
    batchCount := s.batchCount + 1 }

/-- Where `finalize_recorders` goes back to. -/
def afterFinalize (caller : Option Nat) (error : Option String) : RemotePhase :=
  match caller with
  | none => .ending
  | some i => .replying i error

/-- The connection handles `Data::FinalizeRecording`. -/
def requestFinalize (s : NoteSession) (a i : Nat) : NoteSession :=
  match s.calls i with
  | .waiting round sourceConnectionId =>
    if round ≠ (s.remotes a).connectionRound ∨
        sourceConnectionId ≠ (s.remotes a).recordingSourceConnectionId ∨
        sourceConnectionId = "" then
      s.setCall i (.refused ("녹화 마감 요청이 현재 연결 세대와 일치하지 않습니다." ++ localKept))
    else s.beginFinalize a (some i)
  | _ => s

/-- `finalize_recorders` has received all acknowledgements. -/
def finalized (s : NoteSession) (a : Nat) : NoteSession :=
  match (s.remotes a).phase with
  | .finalizing batch caller =>
    if s.waiting batch = [] then
      (s.setFinalizeResult (s.remotes a).connectionRound
        (s.remotes a).recordingSourceConnectionId none).setPhase a (afterFinalize caller none)
    else s
  | _ => s

/-- `finalize_recorders` gives up. At the end of the loop it goes on to wait in a thread. -/
def giveUp (s : NoteSession) (a : Nat) (timedOut : Bool) : NoteSession :=
  match (s.remotes a).phase with
  | .finalizing batch caller =>
    if s.threadsOf a = [] then s
    else
      let tracker : LateTracker :=
        { remote := a
          round := (s.remotes a).connectionRound
          sourceConnectionId := (s.remotes a).recordingSourceConnectionId }
      { (s.setFinalizeResult (s.remotes a).connectionRound
          (s.remotes a).recordingSourceConnectionId (some (finalizeError timedOut))).setPhase a
            (afterFinalize caller (some (finalizeError timedOut))) with
        trackers := if timedOut && caller.isNone
          then Function.update s.trackers batch (some tracker) else s.trackers }
  | _ => s

/-- The result goes to the call. -/
def reply (s : NoteSession) (a : Nat) : NoteSession :=
  match (s.remotes a).phase with
  | .replying i error =>
    let s := s.setPhase a .running
    match s.calls i, error with
    | .waiting round sourceConnectionId, none => s.setCall i (.ready round sourceConnectionId)
    | .waiting _ _, some err => s.setCall i (.refused (err ++ localKept))
    | _, _ => s
  | _ => s

/-- The round ends. -/
def disconnect (s : NoteSession) (a : Nat) : NoteSession :=
  { s.setPhase a .over with
    connectionRoundState :=
      (s.connectionRoundState.setDisconnected (s.remotes a).connectionRound).2 }

/-- All acknowledgements have come late. -/
def lateAcks (s : NoteSession) (batch : Nat) : NoteSession :=
  match s.trackers batch with
  | none => s
  | some tracker =>
    if s.waiting batch = [] then
      { s.setFinalizeResult tracker.round tracker.sourceConnectionId none with
        trackers := Function.update s.trackers batch none }
    else s

/-- What a piece of work of a video thread does to the session. -/
def effect (s : NoteSession) (t : Nat) : Work → NoteSession
  | .untrack path =>
    { s with
      recordingFiles := untrackRecordingFile s.recordingFiles path
        (s.threads t).recordingSourceConnectionId }
  | .register _ false =>
    { s with
      finalizeResults :=
        invalidateSource s.finalizeResults (s.threads t).recordingSourceConnectionId }
  | .register path true =>
    { s with
      recordingFiles := trackRecordingFile s.recordingFiles path
        (s.threads t).recordingSourceConnectionId (s.threads t).recordingConnectionTicket }
  | .acknowledge batch =>
    { s with
      waiting := Function.update s.waiting batch ((s.waiting batch).filter (· ≠ t)) }
  | .frame | .recordScreen _ | .finalizeRecording _ => s

/-- A video thread does its next piece of work. -/
def workOn (s : NoteSession) (t : Nat) (o : VideoOutcome) : NoteSession :=
  match (s.threads t).work with
  | [] => s
  | x :: _ =>
    { s.effect t x with
      threads := Function.update s.threads t ((s.threads t).next o)
      opened := o.opened ++ s.opened }

/-- `save_recording_note` up to the wait. -/
def saveNote (s : NoteSession) (i : Nat) : NoteSession :=
  let round := s.connectionRoundState.round
  let source := s.auditSourceConnectionId
  if s.connectionRoundState.state = .disconnected then
    match recordingFinalizeResult s.finalizeResults round source with
    | some none => s.setCall i (.ready round source)
    | some (some err) => s.setCall i (.refused (err ++ localKept))
    | none =>
      s.setCall i (.refused ("연결 종료 시 녹화 파일 마감 결과를 확인하지 못했습니다." ++ localKept))
  else s.setCall i (.waiting round source)

/-- `save_recording_note` has not got a result in time, or never will. -/
def poll (s : NoteSession) (i round : Nat) (source : String) (closed expired : Bool) :
    NoteSession :=
  let giveUp :=
    if closed then s.setCall i (.refused ("녹화 파일 마감 채널이 종료되었습니다." ++ localKept))
    else if expired then s.setCall i (.refused ("녹화 파일 마감을 확인하지 못했습니다." ++ localKept))
    else s
  if s.connectionRoundState.state = .disconnected ∧ s.connectionRoundState.round = round then
    match recordingFinalizeResult s.finalizeResults round source with
    | some none => s.setCall i (.ready round source)
    | some (some err) => s.setCall i (.refused (err ++ localKept))
    | none => giveUp
  else if !closed ∧ s.connectionRoundState.round ≠ round then s.setCall i (.refused roundChanged)
  else giveUp

/-- `save_recording_note` takes its snapshot. -/
def snapshot (s : NoteSession) (i round : Nat) (source : String) : NoteSession :=
  if s.connectionRoundState.round ≠ round then s.setCall i (.refused roundChanged)
  else if s.auditSourceConnectionId ≠ source then
    s.setCall i (.refused ("녹화 연결 식별자가 변경되어 저장을 중단했습니다." ++ localKept))
  else if s.recordingFiles.any fun f => !sourceFinalized s.finalizeResults f.sourceConnectionId then
    s.setCall i (.refused ("일부 녹화 세그먼트의 파일 마감을 확인하지 못했습니다." ++ localKept))
  else s.setCall i (.saving s.recordingFiles)

/-- The result of `save_recording_notes` is there. -/
def finish (s : NoteSession) (i : Nat) (files : List RecordingUploadFile)
    (result : RecordingNoteSaveResult) : NoteSession :=
  { s.setCall i (.settled files result.error) with
    recordingFiles := settleRecordingFiles s.recordingFiles files result
    saved := if result.error = "" then files.map (·.key) ++ s.saved else s.saved }

/-- The session behind an event. -/
def step (s : NoteSession) : NoteEvent → NoteSession
  | .beginRound => s.beginRound
  | .rotate a sourceConnectionId =>
    if (s.remotes a).phase = .drawn then s.rotate a sourceConnectionId else s
  | .start a =>
    if (s.remotes a).phase = .drawn ∨ (s.remotes a).phase = .rotated then s.setPhase a .running
    else s
  | .connect a =>
    if (s.remotes a).phase = .running then
      { s with connectionRoundState := s.connectionRoundState.setConnected }
    else s
  | .ticket ticket =>
    if s.auditConnectionTicket = "" then { s with auditConnectionTicket := ticket } else s
  | .login a => if (s.remotes a).phase = .running then s.login a else s
  | .newVideoThread a => if (s.remotes a).phase = .running then s.newVideoThread a else s
  | .videoFrame t =>
    match (s.threads t).remote with
    | none => s
    | some a =>
      if (s.remotes a).phase = .running then
        { s with threads := Function.update s.threads t ((s.threads t).push .frame) }
      else s
  | .recordScreen a start =>
    if (s.remotes a).phase = .running ∧ start = true then
      { s with
        finalizeResults :=
          invalidateSource s.finalizeResults (s.remotes a).recordingSourceConnectionId }
    else s
  | .updateRecordState a start =>
    if (s.remotes a).phase = .running then s.pushAll a (.recordScreen start) else s
  | .finalizeRecording a i => if (s.remotes a).phase = .running then s.requestFinalize a i else s
  | .leave a => if (s.remotes a).phase = .running then s.beginFinalize a none else s
  | .finalized a => s.finalized a
  | .giveUp a timedOut => s.giveUp a timedOut
  | .reply a => s.reply a
  | .disconnect a => if (s.remotes a).phase = .ending then s.disconnect a else s
  | .lateAcks batch => s.lateAcks batch
  | .work t o => s.workOn t o
  | .saveNote i =>
    match s.calls i with
    | .idle => s.saveNote i
    | _ => s
  | .poll i closed expired =>
    match s.calls i with
    | .waiting round source => s.poll i round source closed expired
    | _ => s
  | .snapshot i =>
    match s.calls i with
    | .ready round source => s.snapshot i round source
    | _ => s
  | .finish i titleContainsKorean errorsOf =>
    match s.calls i with
    | .saving files => s.finish i files (saveRecordingNotes files titleContainsKorean errorsOf)
    | _ => s
  | .expire i =>
    match s.calls i with
    | .saving files =>
      s.setCall i (.settled files ("녹화 영상 서버 저장 시간이 초과되었습니다." ++ localKept))
    | _ => s

/-- No recorder has the file any more. -/
def Dropped (s : NoteSession) (path : String) : Prop := ∀ t, path ∉ (s.threads t).files

/-- The file is tracked. -/
def Tracked (s : NoteSession) (f : RecordingUploadFile) : Prop :=
  ∃ g ∈ s.recordingFiles, g.key = f.key

/-- A login takes an identifier that no other connection has taken; a video thread begins behind a
login; and a file that is opened has a new name. -/
def Fits (s : NoteSession) : NoteEvent → Prop
  | .login a =>
    (s.remotes a).phase = .running →
      (s.remotes a).recordingSourceConnectionId = "" ∨
          (s.remotes a).recordingConnectionTicket = "" →
        ∀ b, s.owners s.auditSourceConnectionId = some b → b = a
  | .newVideoThread a =>
    (s.remotes a).phase = .running → (s.remotes a).recordingSourceConnectionId ≠ ""
  | .work _ o => ∀ path ∈ o.opened, path ∉ s.opened
  | _ => True

end NoteSession

end MDesk.RecordingHandover
