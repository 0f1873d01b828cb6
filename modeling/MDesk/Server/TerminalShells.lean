import MDesk.Core.Run
import MDesk.Server.TerminalService

/-!
# The shells of the terminals

Every shell that is started is in one place: with its session, with those that are waited for,
among those that have been waited for, or lost with an error that the peer has been told.
-/

namespace MDesk

open Core

namespace Terminals

variable {P : Platform}

/-- The shells that belong to sessions. -/
def held (w : Terminals) : List Nat := w.services.collect fun _ service => service.shells

/-- The places in which a shell is found. -/
def places (w : Terminals) (n : Nat) : Nat :=
  w.held.count n + w.tasks.count n + w.reaped.count n + (w.lost.map Prod.fst).count n

/-- A step starts shells and moves them about, and does not open too many services. -/
structure Moves (w w' : Terminals) : Prop where
  places : ∀ n, w'.places n + (List.range w.started).count n =
    w.places n + (List.range w'.started).count n
  services : w.services.len ≤ maxServices → w'.services.len ≤ maxServices

theorem Moves.refl (w : Terminals) : Moves w w := ⟨fun _ => rfl, fun h => h⟩

theorem Moves.trans {w w' w'' : Terminals} (h : Moves w w') (h' : Moves w' w'') :
    Moves w w'' := by
  refine ⟨fun n => ?_, fun hw => h'.services (h.services hw)⟩
  have hn := h.places n
  have hn' := h'.places n
  omega

variable {w : Terminals} {serviceId : String} {service service' : PersistentTerminalService}
  {terminalId : Int} {session session' : TerminalSession}

/-- A service that is there is given another value. -/
theorem count_held_insert (h : w.services.get serviceId = some service)
    (service' : PersistentTerminalService) (n : Nat) :
    (w.putService serviceId service').held.count n + service.shells.count n =
      w.held.count n + service'.shells.count n :=
  Table.count_insert h

/-- A session that is there is given another value. -/
theorem count_shells_insert (h : service.sessions.get terminalId = some session)
    (session' : TerminalSession) (n : Nat) :
    ({ service with sessions := service.sessions.insert terminalId session' }).shells.count n +
      session.child.toList.count n = service.shells.count n + session'.child.toList.count n :=
  Table.count_insert h

/-- Another value for a service, with as many of each shell. -/
theorem moves_insert (h : w.services.get serviceId = some service)
    (hsame : ∀ n, service'.shells.count n = service.shells.count n) :
    Moves w (w.putService serviceId service') := by
  refine ⟨fun n => ?_, fun hlen => ?_⟩
  · have hheld := count_held_insert h service' n
    rw [hsame] at hheld
    unfold places
    dsimp only [putService] at hheld ⊢
    omega
  · unfold putService
    rw [Table.len_insert_of_some h]
    exact hlen

/-- A session is given another value, with its shell. -/
theorem moves_setSession (h : w.services.get serviceId = some service)
    (hs : service.sessions.get terminalId = some session)
    (hchild : session'.child = session.child) :
    Moves w (w.setSession serviceId service terminalId session') := by
  refine moves_insert h fun n => ?_
  have hcount := count_shells_insert hs session' n
  rw [hchild] at hcount
  omega

theorem shells_resetStatus (isPersistent : Bool) (service : PersistentTerminalService) :
    (service.resetStatus isPersistent).shells = service.shells := by
  unfold PersistentTerminalService.resetStatus PersistentTerminalService.shells
  rw [Table.collect_mapWithKey]

theorem moves_new (w : Terminals) (serviceId : String) (isPersistent isSpecifiedUser : Bool)
    (now : Nat) : Moves w (w.new serviceId isPersistent isSpecifiedUser now) := by
  unfold new getOrCreateService
  split_ifs with hfull
  · exact .refl w
  · cases hget : w.services.get serviceId with
    | some service =>
      refine moves_insert hget fun n => ?_
      rw [shells_resetStatus]
      rfl
    | none =>
      refine ⟨fun n => ?_, fun _ => ?_⟩
      · have hcount : ((w.services.insert serviceId (PersistentTerminalService.resetStatus
            { lastActivity := now, isPersistent, isSpecifiedUser } isPersistent)).collect
              fun _ service => service.shells).count n = w.held.count n := by
          rw [Table.count_insert_of_none hget, shells_resetStatus]
          exact Nat.zero_add _
        unfold places held
        dsimp only [Except.toOption, Option.getD_some, Option.getD_none, putService]
        rw [hcount]
        rfl
      · have hroom : w.services.len < maxServices := by
          by_contra hge
          exact hfull ⟨hget, Nat.not_lt.mp hge⟩
        show (w.services.insert serviceId _).len ≤ maxServices
        rw [Table.len_insert_of_none hget]
        exact hroom

theorem moves_removeService (w : Terminals) (serviceId : String) (flush : Int → TerminalFlush) :
    Moves w (w.removeService serviceId flush) := by
  unfold removeService
  split
  · exact .refl w
  · rename_i service hget
    refine ⟨fun n => ?_, fun hlen => Nat.le_trans Table.len_remove_le hlen⟩
    have hcount : w.held.count n = service.shells.count n +
        ((w.services.remove serviceId).collect fun _ service => service.shells).count n :=
      Table.count_remove hget
    unfold places
    dsimp only [held] at hcount ⊢
    rw [List.count_append]
    omega

theorem moves_cleanup (w : Terminals) (now : Nat) (flush : String → Int → TerminalFlush) :
    Moves w (w.cleanupInactiveServices now flush) := by
  unfold cleanupInactiveServices
  generalize (w.services.entries.filter _).map Sigma.fst = ids
  induction ids generalizing w with
  | nil => exact .refl w
  | cons id ids ih => exact (w.moves_removeService id (flush id)).trans (ih _)

theorem moves_checkZombieTerminals (w : Terminals) (exited : Nat → Bool) :
    Moves w (w.checkZombieTerminals exited) := by
  refine ⟨fun n => ?_, fun hlen => hlen⟩
  have hsplit : (w.tasks.filter exited).count n + (w.tasks.filter fun m => !exited m).count n =
      w.tasks.count n := by
    rw [← List.count_append]
    exact (List.filter_append_perm exited w.tasks).count_eq n
  unfold places checkZombieTerminals
  dsimp only [held]
  rw [List.count_append]
  omega

theorem moves_setPersistent (w : Terminals) (serviceId : String) (isPersistent : Bool) :
    Moves w (w.setPersistent serviceId isPersistent) := by
  unfold setPersistent Table.modify
  split
  · exact .refl w
  · rename_i service hget
    exact moves_insert hget fun _ => rfl

/-- A step of a thread leaves the shell where it is. -/
theorem moves_onSession (w : Terminals) (serviceId : String) (terminalId : Int)
    {f : TerminalSession → TerminalSession} (hf : ∀ s, (f s).child = s.child) :
    Moves w (w.onSession serviceId terminalId f) := by
  unfold onSession
  rw [Table.modify]
  split
  · exact .refl w
  · rename_i service hget
    refine moves_insert hget fun n => ?_
    rw [Table.modify]
    split
    · rfl
    · rename_i session hsession
      have hcount := count_shells_insert hsession (f session) n
      rw [hf] at hcount
      omega

/-! ## The actions -/

theorem count_range_succ (k n : Nat) :
    (List.range (k + 1)).count n = (List.range k).count n + [k].count n := by
  rw [List.range_succ, List.count_append]

/-- A shell that is lost as soon as it has been started. -/
theorem moves_lost (w : Terminals) (e : String) :
    Moves w { w with started := w.started + 1, lost := w.lost ++ [(w.started, e)] } := by
  refine ⟨fun n => ?_, fun hlen => hlen⟩
  have hlost : ((w.lost ++ [(w.started, e)]).map Prod.fst).count n =
      (w.lost.map Prod.fst).count n + [w.started].count n := by
    rw [List.map_append, List.count_append]
    rfl
  unfold places
  dsimp only [held]
  rw [count_range_succ, hlost]
  omega

/-- A shell that is started for a session. -/
theorem moves_started (h : w.services.get serviceId = some service)
    (hshells : ∀ n, service'.shells.count n = [w.started].count n + service.shells.count n) :
    Moves w { w.putService serviceId service' with started := w.started + 1 } := by
  refine ⟨fun n => ?_, fun hlen => ?_⟩
  · have hheld := count_held_insert h service' n
    have hn := hshells n
    unfold places
    dsimp only [held, putService] at hheld ⊢
    rw [count_range_succ]
    omega
  · unfold putService
    dsimp only
    rw [Table.len_insert_of_some h]
    exact hlen

theorem moves_handleOpen (h : w.services.get serviceId = some service) (terminalId : Int)
    (rows cols : Nat) (c : ActionCircumstances) :
    Moves w (w.handleOpen serviceId service terminalId rows cols c).2 := by
  unfold handleOpen
  dsimp only
  split
  · rename_i session hsession
    refine moves_insert h fun n => ?_
    have hcount := count_shells_insert hsession { session with isOpened := true } n
    dsimp only [PersistentTerminalService.shells] at hcount ⊢
    omega
  · rename_i hnone
    split
    · exact .refl w
    · exact .refl w
    · exact w.moves_lost _
    · exact w.moves_lost _
    · exact moves_started h fun n => Table.count_insert_of_none hnone

/-- A session is taken out of its service, with its shell. -/
theorem count_held_remove (h : w.services.get serviceId = some service)
    (hs : service.sessions.get terminalId = some session) (n : Nat) :
    (w.putService serviceId { service with
        sessions := service.sessions.remove terminalId }).held.count n +
      session.child.toList.count n = w.held.count n := by
  have hheld := count_held_insert h
    { service with sessions := service.sessions.remove terminalId } n
  have hshells : service.shells.count n = session.child.toList.count n +
      ((service.sessions.remove terminalId).collect fun _ s => s.child.toList).count n :=
    Table.count_remove hs
  dsimp only [PersistentTerminalService.shells] at hheld hshells ⊢
  omega

theorem moves_handleClose (h : w.services.get serviceId = some service) (terminalId : Int)
    (c : ActionCircumstances) : Moves w (w.handleClose serviceId service terminalId c).2 := by
  unfold handleClose
  split
  · exact .refl w
  · rename_i session hsession
    have hlen : w.services.len ≤ maxServices → (w.putService serviceId
        { service with sessions := service.sessions.remove terminalId }).services.len ≤
          maxServices := by
      unfold putService
      rw [Table.len_insert_of_some h]
      exact id
    have hcount := count_held_remove h hsession
    dsimp only
    split
    · rename_i hchild
      refine ⟨fun n => ?_, hlen⟩
      have hn := hcount n
      rw [hchild, Option.toList_none, List.count_nil] at hn
      unfold places
      dsimp only [held, putService] at hn ⊢
      omega
    · rename_i child hchild
      rw [hchild, Option.toList_some] at hcount
      split
      · rename_i e _
        refine ⟨fun n => ?_, hlen⟩
        have hn := hcount n
        have hlost : ((w.lost ++ [(child, e)]).map Prod.fst).count n =
            (w.lost.map Prod.fst).count n + [child].count n := by
          rw [List.map_append, List.count_append]
          rfl
        unfold places
        dsimp only [held, putService] at hn ⊢
        rw [hlost]
        omega
      · refine ⟨fun n => ?_, hlen⟩
        have hn := hcount n
        unfold places
        dsimp only [held, putService] at hn ⊢
        rw [List.count_append]
        omega

theorem child_sendInput (s : TerminalSession) (data : Bytes) :
    (s.sendInput data).child = s.child := by
  unfold TerminalSession.sendInput
  split
  · rfl
  · split_ifs <;> rfl

theorem moves_handleAction (w : Terminals) (serviceId : String) (action : TerminalAction)
    (c : ActionCircumstances) : Moves w (w.handleAction serviceId action c).2 := by
  unfold handleAction
  split
  · exact .refl w
  · rename_i service hget
    have hfirst : Moves w (w.putService serviceId { service with lastActivity := c.now }) :=
      moves_insert hget fun _ => rfl
    have hgot : (w.putService serviceId { service with lastActivity := c.now }).services.get
        serviceId = some { service with lastActivity := c.now } := Table.get_insert_self
    dsimp only
    cases action with
    | openTerminal terminalId rows cols =>
      exact hfirst.trans (moves_handleOpen hgot terminalId rows cols c)
    | resize terminalId rows cols =>
      refine hfirst.trans ?_
      dsimp only
      unfold handleResize
      split
      · exact .refl _
      · rename_i session hsession
        dsimp only
        split
        · exact moves_setSession hgot hsession rfl
        · exact moves_setSession hgot hsession rfl
    | data terminalId data =>
      refine hfirst.trans ?_
      dsimp only
      unfold handleData
      split
      · exact .refl _
      · rename_i session hsession
        exact moves_setSession hgot hsession (child_sendInput session data)
    | close terminalId => exact hfirst.trans (moves_handleClose hgot terminalId c)

/-! ## The end of a shell -/

/-- A pass takes the shell away from a session that it closes. -/
theorem child_pass (s : TerminalSession) (c : ReadCircumstances) (terminalId : Int)
    (status : Option Int) : (s.pass P terminalId (c.locked terminalId) status).child =
      if closing c terminalId s then none else s.child := by
  have hread : ∀ s : TerminalSession, (s.readOutput P terminalId).child = s.child := by
    intro s
    unfold TerminalSession.readOutput
    dsimp only
    split_ifs <;> rfl
  unfold TerminalSession.pass closing
  by_cases hlocked : c.locked terminalId = true
  · rw [if_pos hlocked, hlocked]
    rfl
  · rw [if_neg hlocked, Bool.eq_false_iff.mpr hlocked]
    by_cases hcloses : s.closes = true
    · rw [if_pos hcloses, hcloses]
      rfl
    · rw [if_neg hcloses, Bool.eq_false_iff.mpr hcloses]
      exact hread s

theorem moves_readOutputs (w : Terminals) (serviceId : String) (isPersistent : Bool)
    (c : ReadCircumstances) : Moves w (w.readOutputs P serviceId isPersistent c) := by
  unfold readOutputs
  split
  · exact .refl w
  · rename_i service hget
    dsimp only
    generalize hsessions : (if isPersistent then _ else _ : Table Int TerminalSession) = sessions
    have hshells : ∀ n, service.shells.count n =
        (PersistentTerminalService.shells { service with sessions }).count n +
          ((service.sessions.retain (closing c)).collect fun _ s => s.child.toList).count n := by
      intro n
      subst hsessions
      unfold PersistentTerminalService.shells
      cases isPersistent with
      | true =>
        rw [if_pos rfl, Table.collect_mapWithKey, Table.collect_retain]
        refine Table.count_split fun id s => ?_
        rw [child_pass]
        split_ifs <;> simp
      | false =>
        rw [if_neg Bool.false_ne_true, Table.collect_mapWithKey, Table.collect_retain]
        rw [Table.count_retain (closing c), Table.collect_retain (fun id s => !closing c id s),
          Nat.add_comm]
        congr 2
        refine congrArg _ (funext fun id => funext fun s => ?_)
        rw [child_pass]
        cases closing c id s <;> rfl
    refine ⟨fun n => ?_, fun hlen => ?_⟩
    · have hheld := count_held_insert hget { service with sessions } n
      have hn := hshells n
      unfold places
      dsimp only [held, putService] at hheld ⊢
      rw [List.count_append]
      omega
    · unfold putService
      dsimp only
      rw [Table.len_insert_of_some hget]
      exact hlen

theorem moves_leave (w : Terminals) (serviceId : String) (flush : Int → TerminalFlush) :
    Moves w (w.leave serviceId flush) := by
  unfold leave
  split
  · exact .refl w
  · split_ifs
    · exact .refl w
    · exact w.moves_removeService serviceId flush

/-- What a connection answers to the result of an action. -/
def said : Except String (Option TerminalResponse) → List TerminalResponse
  | .ok answer => answer.toList
  | .error e => [actionError e]

theorem handleTerminalAction_eq (w : Terminals) (serviceId : String) (action : TerminalAction)
    (c : ActionCircumstances) : w.handleTerminalAction serviceId action c =
      { (w.handleAction serviceId action c).2 with
        answers := (w.handleAction serviceId action c).2.answers ++
          said (w.handleAction serviceId action c).1 } := by
  unfold handleTerminalAction
  rcases w.handleAction serviceId action c with ⟨answer | e, w'⟩ <;> rfl

theorem child_readerStep (s : TerminalSession) (read : TerminalRead) :
    (s.readerStep read).child = s.child := by
  unfold TerminalSession.readerStep
  by_cases hfinished : s.reader = .finished
  · rw [if_pos hfinished]
  · rw [if_neg hfinished]
    cases read with
    | eof => rfl
    | failed => rfl
    | wouldBlock =>
      dsimp only
      split_ifs <;> rfl
    | chunk data =>
      dsimp only
      split_ifs
      · rfl
      · cases s.output <;> rfl

theorem child_writerStep (s : TerminalSession) (ok : Bool) : (s.writerStep ok).child = s.child := by
  unfold TerminalSession.writerStep
  cases s.writer with
  | finished => rfl
  | starting => rfl
  | running =>
    rcases s.input with - | (- | ⟨data, waiting⟩)
    · rfl
    · rfl
    · dsimp only
      split_ifs <;> rfl

theorem moves_step (w : Terminals) (e : TerminalEvent) : Moves w (w.step P e) := by
  cases e with
  | new serviceId isPersistent isSpecifiedUser now =>
    exact w.moves_new serviceId isPersistent isSpecifiedUser now
  | setPersistent serviceId isPersistent => exact w.moves_setPersistent serviceId isPersistent
  | action serviceId action c =>
    have haction := w.moves_handleAction serviceId action c
    rw [step, handleTerminalAction_eq]
    exact ⟨haction.places, haction.services⟩
  | readOutputs serviceId isPersistent c =>
    exact w.moves_readOutputs serviceId isPersistent c
  | leave serviceId flush => exact w.moves_leave serviceId flush
  | disconnect serviceId isPersistent flush =>
    rw [step]
    split_ifs
    · exact .refl w
    · exact w.moves_removeService serviceId flush
  | cleanup now flush => exact w.moves_cleanup now flush
  | reap exited => exact w.moves_checkZombieTerminals exited
  | reader serviceId terminalId read =>
    exact w.moves_onSession serviceId terminalId fun s => child_readerStep s read
  | writer serviceId terminalId ok =>
    exact w.moves_onSession serviceId terminalId fun s => child_writerStep s ok

/-! ## The shells that are lost -/

/-- What is lost, and what the peer has been answered. -/
def losses (w : Terminals) : List (Nat × String) × List TerminalResponse := (w.lost, w.answers)

theorem losses_new (w : Terminals) (serviceId : String) (isPersistent isSpecifiedUser : Bool)
    (now : Nat) : (w.new serviceId isPersistent isSpecifiedUser now).losses = w.losses := by
  unfold new getOrCreateService
  split_ifs <;> rfl

theorem losses_removeService (w : Terminals) (serviceId : String) (flush : Int → TerminalFlush) :
    (w.removeService serviceId flush).losses = w.losses := by
  unfold removeService
  split <;> rfl

theorem losses_cleanup (w : Terminals) (now : Nat) (flush : String → Int → TerminalFlush) :
    (w.cleanupInactiveServices now flush).losses = w.losses := by
  unfold cleanupInactiveServices
  generalize (w.services.entries.filter _).map Sigma.fst = ids
  induction ids generalizing w with
  | nil => rfl
  | cons id ids ih => exact (ih _).trans (w.losses_removeService id (flush id))

theorem losses_readOutputs (w : Terminals) (serviceId : String) (isPersistent : Bool)
    (c : ReadCircumstances) : (w.readOutputs P serviceId isPersistent c).losses = w.losses := by
  unfold readOutputs
  split <;> rfl

theorem losses_leave (w : Terminals) (serviceId : String) (flush : Int → TerminalFlush) :
    (w.leave serviceId flush).losses = w.losses := by
  unfold leave
  split
  · rfl
  · split_ifs
    · rfl
    · exact w.losses_removeService serviceId flush

/-- An action loses a shell with its error only. -/
theorem losses_handleAction (w : Terminals) (serviceId : String) (action : TerminalAction)
    (c : ActionCircumstances) : ∃ lost,
      (w.handleAction serviceId action c).2.losses = (w.lost ++ lost, w.answers) ∧
      (lost.map fun l => actionError l.2).Sublist (said (w.handleAction serviceId action c).1) := by
  have hsame : ∀ {w' : Terminals} {said : List TerminalResponse}, w'.losses = w.losses →
      ∃ lost, w'.losses = (w.lost ++ lost, w.answers) ∧
        (lost.map fun l => actionError l.2).Sublist said := fun h =>
    ⟨[], h.trans (Prod.ext (List.append_nil _).symm rfl), List.nil_sublist _⟩
  have hone : ∀ (n : Nat) (e : String), ∃ lost,
      (w.lost ++ [(n, e)], w.answers) = (w.lost ++ lost, w.answers) ∧
        (lost.map fun l => actionError l.2).Sublist [actionError e] := fun n e =>
    ⟨[(n, e)], rfl, List.Sublist.refl _⟩
  unfold handleAction
  split
  · exact hsame rfl
  · rename_i service hget
    dsimp only
    cases action with
    | openTerminal terminalId rows cols =>
      dsimp only [handleOpen]
      split
      · exact hsame rfl
      · split
        · exact hsame rfl
        · exact hsame rfl
        · exact hone _ _
        · exact hone _ _
        · exact hsame rfl
    | resize terminalId rows cols =>
      dsimp only [handleResize]
      split
      · exact hsame rfl
      · split <;> exact hsame rfl
    | data terminalId data =>
      dsimp only [handleData]
      split <;> exact hsame rfl
    | close terminalId =>
      dsimp only [handleClose]
      split
      · exact hsame rfl
      · split
        · exact hsame rfl
        · split
          · exact hone _ _
          · exact hsame rfl

/-- The peer is told of every shell that is lost. -/
def LossesTold (w : Terminals) : Prop := (w.lost.map fun l => actionError l.2).Sublist w.answers

theorem LossesTold.of_losses {w w' : Terminals} (h : w.LossesTold) (hsame : w'.losses = w.losses) :
    w'.LossesTold := by
  have hlost : w'.lost = w.lost := congrArg Prod.fst hsame
  have hanswers : w'.answers = w.answers := congrArg Prod.snd hsame
  unfold LossesTold
  rw [hlost, hanswers]
  exact h

theorem LossesTold.step (h : w.LossesTold) (e : TerminalEvent) : (w.step P e).LossesTold := by
  cases e with
  | new serviceId isPersistent isSpecifiedUser now =>
    exact h.of_losses (w.losses_new serviceId isPersistent isSpecifiedUser now)
  | setPersistent serviceId isPersistent => exact h
  | action serviceId action c =>
    obtain ⟨lost, hlosses, hsaid⟩ := w.losses_handleAction serviceId action c
    have hlost : (w.handleAction serviceId action c).2.lost = w.lost ++ lost :=
      congrArg Prod.fst hlosses
    have hanswers : (w.handleAction serviceId action c).2.answers = w.answers :=
      congrArg Prod.snd hlosses
    rw [Terminals.step, handleTerminalAction_eq]
    unfold LossesTold
    dsimp only
    rw [hlost, hanswers, List.map_append]
    exact h.append hsaid
  | readOutputs serviceId isPersistent c =>
    exact h.of_losses (w.losses_readOutputs serviceId isPersistent c)
  | leave serviceId flush => exact h.of_losses (w.losses_leave serviceId flush)
  | disconnect serviceId isPersistent flush =>
    rw [Terminals.step]
    split_ifs
    · exact h
    · exact h.of_losses (w.losses_removeService serviceId flush)
  | cleanup now flush => exact h.of_losses (w.losses_cleanup now flush)
  | reap exited => exact h
  | reader serviceId terminalId read => exact h
  | writer serviceId terminalId ok => exact h

/-- Every shell that has been started is in exactly one place. -/
structure ShellsAccounted (w : Terminals) : Prop where
  places : (w.held ++ w.tasks ++ w.reaped ++ w.lost.map Prod.fst).Perm (List.range w.started)
  lost : w.LossesTold
  services : w.services.len ≤ maxServices

/-- Whatever the connections, the service threads, the cleanup task and the threads of the
sessions do, and in whatever order, no shell is forgotten: each one that has been started is with
its session, waited for, has been waited for, or is lost with an error that the peer has been
told, and in one of these places only. There are never too many services. -/
theorem shells_accounted (es : List TerminalEvent) : (run (step P) {} es).ShellsAccounted := by
  have hall : Allowed (step P) (fun _ _ => True) {} es :=
    allowed_of_forall (fun _ _ => trivial) _ es
  have hmoves : Moves {} (run (step P) {} es) := by
    refine run_keeps (Q := Moves {}) (fun w e h _ => ?_) (.refl _) hall
    exact h.trans (w.moves_step e)
  have htold : (run (step P) {} es).LossesTold := by
    refine run_keeps (Q := LossesTold) (fun w e h _ => h.step e) ?_ hall
    exact List.Sublist.refl []
  refine ⟨List.perm_iff_count.mpr fun n => ?_, htold, hmoves.services (Nat.zero_le _)⟩
  have hn := hmoves.places n
  rw [List.count_append, List.count_append, List.count_append]
  change _ + 0 = 0 + _ at hn
  rw [Nat.add_zero, Nat.zero_add] at hn
  exact hn

end Terminals

end MDesk
