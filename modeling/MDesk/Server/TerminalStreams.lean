import MDesk.Core.Run
import MDesk.Server.TerminalService

/-!
# The streams of the terminals

Through whatever happens to its service, a session gives the shell what the peer has typed and
the peer what the shell has printed, in order and without a gap, and says once at most that it is
closed.
-/

namespace MDesk

open Core TerminalSession

variable {P : Platform}

namespace TerminalSession

/-- The state of a session in the registry. -/
structure Sound (P : Platform) (s : TerminalSession) : Prop where
  live : s.Live P
  announced : s.Announced

variable {s : TerminalSession}

theorem Sound.faithful (h : s.Sound P) : s.Faithful P := h.live.faithful h.announced

theorem sound_opened (child pid rows cols : Nat) : (opened child pid rows cols).Sound P :=
  ⟨live_opened child pid rows cols, rfl⟩

/-- Fields besides the channels and the notes do not matter. -/
theorem Sound.of_same {s' : TerminalSession} (h : s.Sound P)
    (hin : (s'.input, s'.writer, s'.typed, s'.written) = (s.input, s.writer, s.typed, s.written))
    (hout : (s'.output, s'.outputBuffer, s'.printed, s'.told) =
      (s.output, s.outputBuffer, s.printed, s.told))
    (hsent : s'.closedMessageSent = s.closedMessageSent) : s'.Sound P := by
  have htold : s'.told = s.told := by
    simp only [Prod.mk.injEq] at hout
    exact hout.2.2.2
  refine ⟨h.live.of_same hin hout, ?_⟩
  unfold Announced
  rw [htold, hsent]
  exact h.announced

/-- The threads say nothing to the peer. -/
theorem announced_of_same {s' : TerminalSession} (h : s.Announced)
    (hsame : (s'.told, s'.closedMessageSent) = (s.told, s.closedMessageSent)) : s'.Announced := by
  simp only [Prod.mk.injEq] at hsame
  unfold Announced
  rw [hsame.1, hsame.2]
  exact h

theorem Sound.readerStep (h : s.Sound P) (read : TerminalRead) : (s.readerStep read).Sound P := by
  refine ⟨h.live.readerStep read, announced_of_same h.announced ?_⟩
  unfold TerminalSession.readerStep
  by_cases hfinished : s.reader = .finished
  · rw [if_pos hfinished]
  · rw [if_neg hfinished]
    cases read with
    | eof => rfl
    | failed => rfl
    | wouldBlock =>
      dsimp only
      split_ifs <;> rfl
    | chunk data =>
      dsimp only
      split_ifs
      · rfl
      · cases s.output <;> rfl

theorem Sound.writerStep (h : s.Sound P) (ok : Bool) : (s.writerStep ok).Sound P := by
  refine ⟨h.live.writerStep ok, announced_of_same h.announced ?_⟩
  unfold TerminalSession.writerStep
  cases s.writer with
  | finished => rfl
  | starting => rfl
  | running =>
    rcases s.input with - | (- | ⟨data, waiting⟩)
    · rfl
    · rfl
    · dsimp only
      split_ifs <;> rfl

theorem Sound.sendInput (h : s.Sound P) (data : Bytes) (hroom : s.Accepts) :
    (s.sendInput data).Sound P := by
  refine ⟨h.live.sendInput data hroom, announced_of_same h.announced ?_⟩
  unfold TerminalSession.sendInput
  split
  · rfl
  · split_ifs <;> rfl

theorem Sound.pass (hcompress : ∀ data, P.decompress (P.compress data) = data) (h : s.Sound P)
    (terminalId : Int) (locked : Bool) (status : Option Int) :
    (s.pass P terminalId locked status).Sound P :=
  ⟨h.live.pass hcompress terminalId locked status, h.announced.pass terminalId locked status⟩

theorem Sound.stop (h : s.Sound P) (flush : TerminalFlush) : (s.stop flush).Faithful P :=
  h.live.stop h.faithful.closed flush

end TerminalSession

/-- The sessions of a service are sound. -/
def SoundSessions (P : Platform) (sessions : Table Int TerminalSession) : Prop :=
  ∀ terminalId s, sessions.get terminalId = some s → s.Sound P

namespace SoundSessions

variable {sessions : Table Int TerminalSession} {terminalId : Int} {s : TerminalSession}

theorem insert (h : SoundSessions P sessions) (hs : s.Sound P) :
    SoundSessions P (sessions.insert terminalId s) := by
  intro id s' hget
  rw [Table.get_insert] at hget
  split_ifs at hget with hid
  · cases hget
    exact hs
  · exact h id s' hget

theorem remove (h : SoundSessions P sessions) : SoundSessions P (sessions.remove terminalId) := by
  intro id s' hget
  rw [Table.get_remove] at hget
  split_ifs at hget
  exact h id s' hget

/-- A change that every session survives. -/
theorem mapWithKey (h : SoundSessions P sessions) {f : Int → TerminalSession → TerminalSession}
    (hf : ∀ id s, s.Sound P → (f id s).Sound P) : SoundSessions P (sessions.mapWithKey f) := by
  intro id s' hget
  rw [Table.get_mapWithKey] at hget
  obtain ⟨s, hs, rfl⟩ := Option.map_eq_some_iff.mp hget
  exact hf id s (h id s hs)

theorem retain (h : SoundSessions P sessions) (p : Int → TerminalSession → Bool) :
    SoundSessions P (sessions.retain p) := by
  intro id s' hget
  exact h id s' (Table.get_retain_eq_some_iff.mp hget).1

theorem modify (h : SoundSessions P sessions) {f : TerminalSession → TerminalSession}
    (hf : ∀ s, s.Sound P → (f s).Sound P) : SoundSessions P (sessions.modify terminalId f) := by
  intro id s' hget
  rw [Table.get_modify] at hget
  split_ifs at hget with hid
  · obtain ⟨s, hs, rfl⟩ := Option.map_eq_some_iff.mp hget
    exact hf s (h terminalId s hs)
  · exact h id s' hget

theorem resetStatus {service : PersistentTerminalService} (h : SoundSessions P service.sessions)
    (isPersistent : Bool) : SoundSessions P (service.resetStatus isPersistent).sessions :=
  h.mapWithKey fun _ _ hs => hs.of_same rfl rfl rfl

end SoundSessions

namespace Terminals

/-- Every session is sound, and those that are gone have left a faithful account. -/
structure Streams (P : Platform) (w : Terminals) : Prop where
  services : ∀ serviceId service, w.services.get serviceId = some service →
    SoundSessions P service.sessions
  ended : ∀ s ∈ w.ended, s.Faithful P

variable {w : Terminals} {serviceId : String} {service : PersistentTerminalService}

theorem Streams.putService (h : w.Streams P) (hservice : SoundSessions P service.sessions) :
    (w.putService serviceId service).Streams P := by
  refine ⟨fun id service' hget => ?_, h.ended⟩
  unfold Terminals.putService at hget
  dsimp only at hget
  rw [Table.get_insert] at hget
  split_ifs at hget
  · cases hget
    exact hservice
  · exact h.services id service' hget

/-- Only the services and the sessions that are gone matter. -/
theorem Streams.of_same {w' : Terminals} (h : w.Streams P)
    (hsame : (w'.services, w'.ended) = (w.services, w.ended)) : w'.Streams P := by
  simp only [Prod.mk.injEq] at hsame
  refine ⟨?_, ?_⟩
  · rw [hsame.1]
    exact h.services
  · rw [hsame.2]
    exact h.ended

theorem Streams.new (h : w.Streams P) (serviceId : String) (isPersistent isSpecifiedUser : Bool)
    (now : Nat) : (w.new serviceId isPersistent isSpecifiedUser now).Streams P := by
  unfold Terminals.new getOrCreateService
  split_ifs
  · exact h
  · refine h.putService (SoundSessions.resetStatus ?_ isPersistent)
    cases hget : w.services.get serviceId with
    | none => exact fun id s hnone => by cases hnone
    | some service => exact h.services serviceId service hget

theorem Streams.removeService (h : w.Streams P) (serviceId : String)
    (flush : Int → TerminalFlush) : (w.removeService serviceId flush).Streams P := by
  unfold Terminals.removeService
  split
  · exact h
  · rename_i service hget
    refine ⟨fun id service' hget' => ?_, fun s hs => ?_⟩
    · dsimp only at hget'
      rw [Table.get_remove] at hget'
      split_ifs at hget'
      exact h.services id service' hget'
    · rcases List.mem_append.mp hs with hold | hnew
      · exact h.ended s hold
      · obtain ⟨id, s', hs', hmem⟩ := Table.mem_collect.mp hnew
        rw [List.mem_singleton.mp hmem]
        exact (h.services serviceId service hget id s' hs').stop (flush id)

theorem Streams.cleanup (h : w.Streams P) (now : Nat) (flush : String → Int → TerminalFlush) :
    (w.cleanupInactiveServices now flush).Streams P := by
  unfold cleanupInactiveServices
  generalize (w.services.entries.filter _).map Sigma.fst = ids
  induction ids generalizing w with
  | nil => exact h
  | cons id ids ih => exact ih (h.removeService id (flush id))

theorem Streams.leave (h : w.Streams P) (serviceId : String) (flush : Int → TerminalFlush) :
    (w.leave serviceId flush).Streams P := by
  unfold Terminals.leave
  split
  · exact h
  · split_ifs
    · exact h
    · exact h.removeService serviceId flush

theorem Streams.setPersistent (h : w.Streams P) (serviceId : String) (isPersistent : Bool) :
    (w.setPersistent serviceId isPersistent).Streams P := by
  unfold Terminals.setPersistent Table.modify
  split
  · exact h
  · rename_i service hget
    exact h.putService (h.services serviceId service hget)

theorem Streams.onSession (h : w.Streams P) (serviceId : String) (terminalId : Int)
    {f : TerminalSession → TerminalSession} (hf : ∀ s, s.Sound P → (f s).Sound P) :
    (w.onSession serviceId terminalId f).Streams P := by
  unfold Terminals.onSession
  rw [Table.modify]
  split
  · exact h
  · rename_i service hget
    exact h.putService ((h.services serviceId service hget).modify hf)

theorem Streams.readOutputs (hcompress : ∀ data, P.decompress (P.compress data) = data)
    (h : w.Streams P) (serviceId : String) (isPersistent : Bool) (c : ReadCircumstances) :
    (w.readOutputs P serviceId isPersistent c).Streams P := by
  unfold Terminals.readOutputs
  split
  · exact h
  · rename_i service hget
    have hservice := h.services serviceId service hget
    have hpass : ∀ id (s : TerminalSession), s.Sound P →
        (s.pass P id (c.locked id) (c.status id)).Sound P := fun id s hs =>
      hs.pass hcompress id (c.locked id) (c.status id)
    refine ⟨(h.putService ?_).services, fun s hs => ?_⟩
    · cases isPersistent with
      | true => exact hservice.mapWithKey hpass
      | false => exact (hservice.retain fun id s => !closing c id s).mapWithKey hpass
    · rcases List.mem_append.mp hs with hold | hnew
      · exact h.ended s hold
      · cases isPersistent with
        | true => cases hnew
        | false =>
          rw [if_neg Bool.false_ne_true] at hnew
          obtain ⟨id, s', hs', hmem⟩ := Table.mem_collect.mp hnew
          rw [List.mem_singleton.mp hmem]
          have hsound := hservice id s' (Table.get_retain_eq_some_iff.mp hs').1
          exact (hpass id s' hsound).stop (c.flush id)

/-- The terminal that something is typed into. -/
def typedInto : TerminalEvent → Option (String × Int)
  | .action serviceId (.data terminalId _) _ => some (serviceId, terminalId)
  | _ => none

/-- What is typed finds room: the call waits until it does. -/
def Roomy (w : Terminals) (e : TerminalEvent) : Prop :=
  ∀ place ∈ typedInto e, ∀ service ∈ w.services.get place.1,
    ∀ s ∈ service.sessions.get place.2, s.Accepts

instance (w : Terminals) (e : TerminalEvent) : Decidable (w.Roomy e) :=
  inferInstanceAs (Decidable (∀ _ ∈ typedInto e, ∀ _ ∈ _, ∀ _ ∈ _, _))

theorem Streams.handleOpen (h : w.Streams P) (hservice : SoundSessions P service.sessions)
    (serviceId : String) (terminalId : Int) (rows cols : Nat) (c : ActionCircumstances) :
    (w.handleOpen serviceId service terminalId rows cols c).2.Streams P := by
  unfold Terminals.handleOpen
  dsimp only
  split
  · rename_i s hs
    have hsound : ({ s with isOpened := true } : TerminalSession).Sound P :=
      (hservice terminalId s hs).of_same rfl rfl rfl
    exact h.putService (hservice.insert hsound)
  · split
    · exact h
    · exact h
    · exact h.of_same rfl
    · exact h.of_same rfl
    · rename_i pid _
      have hopened : (w.putService serviceId { service with
          sessions := service.sessions.insert terminalId
            (.opened w.started (pid.getD 0) (rows % 2 ^ 16) (cols % 2 ^ 16))
          needsSessionSync := false }).Streams P :=
        h.putService (hservice.insert (sound_opened _ _ _ _))
      exact hopened.of_same rfl

theorem Streams.setSession (h : w.Streams P) (hservice : SoundSessions P service.sessions)
    {terminalId : Int} {s : TerminalSession} (hs : s.Sound P) :
    (w.setSession serviceId service terminalId s).Streams P :=
  h.putService (hservice.insert hs)

theorem Streams.handleResize (h : w.Streams P) (hservice : SoundSessions P service.sessions)
    (serviceId : String) (terminalId : Int) (rows cols : Nat) (c : ActionCircumstances) :
    (w.handleResize serviceId service terminalId rows cols c).2.Streams P := by
  unfold Terminals.handleResize
  split
  · exact h
  · rename_i s hs
    have hsound : ({ s with rows := rows % 2 ^ 16, cols := cols % 2 ^ 16 } :
        TerminalSession).Sound P := (hservice terminalId s hs).of_same rfl rfl rfl
    dsimp only
    split <;> exact h.setSession hservice hsound

theorem Streams.handleClose (h : w.Streams P) (hservice : SoundSessions P service.sessions)
    (serviceId : String) (terminalId : Int) (c : ActionCircumstances) :
    (w.handleClose serviceId service terminalId c).2.Streams P := by
  unfold Terminals.handleClose
  split
  · exact h
  · rename_i s hs
    have hput : (w.putService serviceId { service with
        sessions := service.sessions.remove terminalId }).Streams P := h.putService hservice.remove
    have hclosed : Streams P { w.putService serviceId { service with
        sessions := service.sessions.remove terminalId } with
        ended := w.ended ++ [s.stop c.flush] } := by
      refine ⟨hput.services, fun s' hs' => ?_⟩
      rcases List.mem_append.mp hs' with hold | hnew
      · exact h.ended s' hold
      · rw [List.mem_singleton.mp hnew]
        exact (hservice terminalId s hs).stop c.flush
    dsimp only
    split
    · exact hclosed
    · split
      · exact hclosed.of_same rfl
      · exact hclosed.of_same rfl

theorem Streams.handleAction (h : w.Streams P) (serviceId : String) (action : TerminalAction)
    (c : ActionCircumstances) (hroom : w.Roomy (.action serviceId action c)) :
    (w.handleAction serviceId action c).2.Streams P := by
  unfold Terminals.handleAction
  split
  · exact h
  · rename_i service hget
    have hservice : SoundSessions P
        ({ service with lastActivity := c.now } : PersistentTerminalService).sessions :=
      h.services serviceId service hget
    have hfirst : (w.putService serviceId { service with lastActivity := c.now }).Streams P :=
      h.putService hservice
    dsimp only
    cases action with
    | openTerminal terminalId rows cols =>
      exact hfirst.handleOpen hservice serviceId terminalId rows cols c
    | resize terminalId rows cols =>
      exact hfirst.handleResize hservice serviceId terminalId rows cols c
    | data terminalId data =>
      dsimp only [handleData]
      split
      · exact hfirst
      · rename_i s hs
        have haccepts : s.Accepts := hroom (serviceId, terminalId) rfl service hget s hs
        exact hfirst.setSession hservice ((hservice terminalId s hs).sendInput data haccepts)
    | close terminalId => exact hfirst.handleClose hservice serviceId terminalId c

theorem Streams.step (hcompress : ∀ data, P.decompress (P.compress data) = data)
    (h : w.Streams P) (e : TerminalEvent) (hroom : w.Roomy e) : (w.step P e).Streams P := by
  cases e with
  | new serviceId isPersistent isSpecifiedUser now =>
    exact h.new serviceId isPersistent isSpecifiedUser now
  | setPersistent serviceId isPersistent => exact h.setPersistent serviceId isPersistent
  | action serviceId action c =>
    have haction := h.handleAction serviceId action c hroom
    rw [Terminals.step, Terminals.handleTerminalAction]
    dsimp only
    split
    · exact haction.of_same rfl
    · exact haction.of_same rfl
  | readOutputs serviceId isPersistent c => exact h.readOutputs hcompress serviceId isPersistent c
  | leave serviceId flush => exact h.leave serviceId flush
  | disconnect serviceId isPersistent flush =>
    rw [Terminals.step]
    split_ifs
    · exact h
    · exact h.removeService serviceId flush
  | cleanup now flush => exact h.cleanup now flush
  | reap exited => exact h.of_same rfl
  | reader serviceId terminalId read =>
    exact h.onSession serviceId terminalId fun s hs => hs.readerStep read
  | writer serviceId terminalId ok =>
    exact h.onSession serviceId terminalId fun s hs => hs.writerStep ok

/-- A terminal that is opened, used and closed. -/
def terminalSample : List TerminalEvent :=
  [.new "t" true false 0,
    .action "t" (.openTerminal 1 24 80) { now := 1, start := .started (some 7) },
    .action "t" (.data 1 [0x6c]) { now := 2 },
    .writer "t" 1 true, .writer "t" 1 true,
    .reader "t" 1 (.chunk [0x61]), .readOutputs "t" true {},
    .action "t" (.data 1 [0x73]) { now := 3 },
    .action "t" (.close 1) { now := 4, flush := { chunks := 2 } }]

end Terminals

end MDesk
