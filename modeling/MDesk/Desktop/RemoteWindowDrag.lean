import Mathlib.Data.Finset.Basic
import MDesk.Desktop.LayoutInvariant

/-!
# Moving a pane to another window

The window a pane is dragged from asks the one it is dropped on to take it. That one asks back,
reserves a slot, waits until the screen is there and asks back again; then it answers. The first
window gives the pane up on the answer. Any call may be late, be lost or time out.
-/

namespace MDesk

open Core

namespace Desktop

open RemoteLayoutModel

variable {ς : Type*}

/-- How far the source is. From `clearing` on the calls that end the hovering are out. -/
inductive SourcePhase where
  | dragging
  | probing
  | waiting
  | clearing
  | finished
deriving DecidableEq

/-- How far the destination is; it is validating for the first or the second time. -/
inductive DestinationPhase where
  | idle
  | validating (second : Bool)
  | waiting
  | done (accepted : Bool)
deriving DecidableEq

inductive DragMessage where
  | drop (slot : Int)
  | validate (second : Bool)
  | validated (second valid : Bool)
  | dropped (accepted : Bool)
deriving DecidableEq

/-- The two windows and the calls between them, none of which goes out twice. The source's
`valid` is what its own check of the offer says now. -/
structure PaneMove (ς : Type*) where
  source : RemoteLayoutModel ς
  sourcePhase : SourcePhase
  cancelled : Bool
  disposed : Bool
  valid : Bool
  destination : RemoteLayoutModel ς
  destinationPhase : DestinationPhase
  slot : Int
  wire : Finset DragMessage

inductive DragEvent where
  | finish (acceptedLocally : Bool)
  | probed (hit : Option Int)
  | cancel
  | dispose
  | revalidate (valid : Bool)
  | deliver (message : DragMessage) (agrees : Bool)
  | lose (message : DragMessage)
  | validateTimeout
  | ready (ready : Bool)
  | dropTimeout
  | cleared
deriving DecidableEq

/-- A pane is free for a screen the window does not have. -/
def RemoteLayoutModel.canReceiveWindowTarget (m : RemoteLayoutModel ς) (slot : Int)
    (target : RemotePaneTarget) : Bool :=
  match m.slot slot with
  | some i => decide (m.isSplit ∧ m.slots i = none ∧ ∀ j, m.slots j ≠ some target)
  | none => false

namespace PaneMove

/-- Before the mouse is released. -/
def start (source destination : RemoteLayoutModel ς) : PaneMove ς :=
  { source, sourcePhase := .dragging, cancelled := false, disposed := false, valid := true
    destination, destinationPhase := .idle, slot := 0, wire := ∅ }

def send (s : PaneMove ς) (message : DragMessage) : PaneMove ς :=
  { s with wire := insert message s.wire }

/-- The source's answer to the destination. -/
def validates (s : PaneMove ς) : Bool :=
  !s.disposed && !s.cancelled && s.sourcePhase != .finished && s.valid

/-- The destination is through. -/
def answer (s : PaneMove ς) (accepted : Bool) : PaneMove ς :=
  { s with destinationPhase := .done accepted }.send (.dropped accepted)

/-- The destination gives up and takes its reservation back. -/
def rollback (s : PaneMove ς) (target : RemotePaneTarget) : PaneMove ς :=
  { s with destination := s.destination.removeTarget target }.answer false

/-- The first or the second validation is through. -/
def validated (s : PaneMove ς) (target : RemotePaneTarget) (second valid : Bool) : PaneMove ς :=
  match second, valid with
  | false, false => s.answer false
  | false, true =>
    if s.destination.canReceiveWindowTarget s.slot target then
      { s with
        destination := s.destination.moveToEmpty s.slot target, destinationPhase := .waiting }
    else s.answer false
  | true, false => s.rollback target
  | true, true => s.answer true

/-- A call or an answer arrives. Nobody waits any more for an answer that is late. -/
def receive (s : PaneMove ς) (target : RemotePaneTarget) (agrees : Bool) :
    DragMessage → PaneMove ς
  | .drop slot =>
    if agrees then
      { s with slot, destinationPhase := .validating false }.send (.validate false)
    else s.answer false
  | .validate second => s.send (.validated second s.validates)
  | .validated second valid =>
    if s.destinationPhase = .validating second then s.validated target second valid else s
  | .dropped accepted =>
    if s.sourcePhase ≠ .waiting then s
    else if accepted && !s.disposed && s.valid then
      { s with source := s.source.removeTarget target, sourcePhase := .clearing }
    else { s with sourcePhase := .clearing }

def step (target : RemotePaneTarget) (s : PaneMove ς) : DragEvent → PaneMove ς
  | .finish acceptedLocally =>
    if s.sourcePhase ≠ .dragging then s
    else if acceptedLocally || s.cancelled || s.disposed then { s with sourcePhase := .clearing }
    else { s with sourcePhase := .probing }
  | .probed hit =>
    if s.sourcePhase ≠ .probing then s
    else
      match hit with
      | some slot =>
        if s.cancelled || s.disposed || !s.valid then { s with sourcePhase := .clearing }
        else { s with sourcePhase := .waiting }.send (.drop slot)
      | none => { s with sourcePhase := .clearing }
  | .cancel => { s with cancelled := true }
  | .dispose =>
    { s with
      disposed := true, cancelled := true
      sourcePhase := if s.sourcePhase = .dragging then .clearing else s.sourcePhase }
  | .revalidate valid => { s with valid }
  | .deliver message agrees =>
    if message ∈ s.wire then
      { s with wire := s.wire.erase message }.receive target agrees message
    else s
  | .lose message => { s with wire := s.wire.erase message }
  | .validateTimeout =>
    match s.destinationPhase with
    | .validating second => s.validated target second false
    | _ => s
  | .ready ready =>
    if s.destinationPhase ≠ .waiting then s
    else if ready then { s with destinationPhase := .validating true }.send (.validate true)
    else s.rollback target
  | .dropTimeout =>
    if s.sourcePhase = .waiting then { s with sourcePhase := .clearing } else s
  | .cleared => if s.sourcePhase = .clearing then { s with sourcePhase := .finished } else s

end PaneMove

/-- The destination has a pane reserved, or has kept it. -/
def DestinationPhase.keeps : DestinationPhase → Bool
  | .waiting | .validating true | .done true => true
  | _ => false

namespace PaneMove

variable {target : RemotePaneTarget} {s : PaneMove ς}

/-- What holds in every state of a move: the answer on its way is the destination's, and the
source has given the pane up only for a destination that has kept it. -/
structure Safe (target : RemotePaneTarget) (s : PaneMove ς) : Prop where
  source : s.source.slots.Distinct
  destination : s.destination.slots.Distinct
  holds : s.destination.Holds target ↔ s.destinationPhase.keeps = true
  quiet : s.sourcePhase = .dragging ∨ s.sourcePhase = .probing →
    s.destinationPhase = .idle ∧ ∀ slot, .drop slot ∉ s.wire
  drop : ∀ slot, .drop slot ∈ s.wire → s.destinationPhase = .idle
  once : ∀ slot slot', .drop slot ∈ s.wire → .drop slot' ∈ s.wire → slot = slot'
  dropped : ∀ accepted, .dropped accepted ∈ s.wire → s.destinationPhase = .done accepted
  removed : ¬s.source.Holds target → s.destinationPhase = .done true

/-- The source is before its call. -/
def early (s : PaneMove ς) : Prop := s.sourcePhase = .dragging ∨ s.sourcePhase = .probing

/-- Messages may get lost. -/
theorem Safe.subset (h : s.Safe target) {wire : Finset DragMessage} (hwire : wire ⊆ s.wire) :
    ({ s with wire } : PaneMove ς).Safe target :=
  { h with
    quiet := fun hearly =>
      ⟨(h.quiet hearly).1, fun slot hslot => (h.quiet hearly).2 slot (hwire hslot)⟩
    drop := fun slot hslot => h.drop slot (hwire hslot)
    once := fun slot slot' hslot hslot' => h.once slot slot' (hwire hslot) (hwire hslot')
    dropped := fun accepted haccepted => h.dropped accepted (hwire haccepted) }

/-- Messages other than the call and its answer change nothing. -/
theorem Safe.send (h : s.Safe target) {message : DragMessage}
    (hdrop : ∀ slot, message ≠ .drop slot) (hdropped : ∀ accepted, message ≠ .dropped accepted) :
    (s.send message).Safe target := by
  have hold {other : DragMessage} (hne : message ≠ other) (hother : other ∈ insert message s.wire) :
      other ∈ s.wire := (Finset.mem_insert.mp hother).resolve_left hne.symm
  exact
    { h with
      quiet := fun hearly =>
        ⟨(h.quiet hearly).1, fun slot hslot => (h.quiet hearly).2 slot (hold (hdrop slot) hslot)⟩
      drop := fun slot hslot => h.drop slot (hold (hdrop slot) hslot)
      once := fun slot slot' hslot hslot' =>
        h.once slot slot' (hold (hdrop slot) hslot) (hold (hdrop slot') hslot')
      dropped := fun accepted haccepted =>
        h.dropped accepted (hold (hdropped accepted) haccepted) }

/-- The destination goes on while it is at work for the source. -/
theorem Safe.turn (h : s.Safe target) {phase : DestinationPhase} (hearly : ¬s.early)
    (hdrop : ∀ slot, .drop slot ∉ s.wire) (hopen : ∀ accepted, s.destinationPhase ≠ .done accepted)
    {destination : RemoteLayoutModel ς} (hdistinct : destination.slots.Distinct)
    (hholds : destination.Holds target ↔ phase.keeps = true) :
    ({ s with destination, destinationPhase := phase } : PaneMove ς).Safe target :=
  { h with
    destination := hdistinct
    holds := hholds
    quiet := fun h => absurd h hearly
    drop := fun slot hslot => absurd hslot (hdrop slot)
    dropped := fun accepted haccepted => absurd (h.dropped accepted haccepted) (hopen accepted)
    removed := fun hgone => absurd (h.removed hgone) (hopen true) }

/-- The destination is through, with a layout that has the screen exactly if it accepts. -/
theorem Safe.answer (h : s.Safe target) {accepted : Bool} (hearly : ¬s.early)
    (hdrop : ∀ slot, .drop slot ∉ s.wire) (hopen : ∀ accepted, s.destinationPhase ≠ .done accepted)
    {destination : RemoteLayoutModel ς} (hdistinct : destination.slots.Distinct)
    (hholds : destination.Holds target ↔ accepted = true) :
    (({ s with destination } : PaneMove ς).answer accepted).Safe target := by
  have hkeeps : (DestinationPhase.done accepted).keeps = accepted := by cases accepted <;> rfl
  have hturn := h.turn hearly hdrop hopen hdistinct (hholds.trans (by rw [hkeeps]))
  exact
    { hturn with
      quiet := fun h => absurd h hearly
      drop := fun slot hslot =>
        absurd ((Finset.mem_insert.mp hslot).resolve_left (by simp)) (hdrop slot)
      once := fun slot slot' hslot _ =>
        absurd ((Finset.mem_insert.mp hslot).resolve_left (by simp)) (hdrop slot)
      dropped := fun other hother => by
        rcases Finset.mem_insert.mp hother with heq | hother
        · rw [DragMessage.dropped.inj heq]
          rfl
        · exact absurd (h.dropped other hother) (hopen other) }

theorem Safe.rollback (h : s.Safe target) (hearly : ¬s.early)
    (hdrop : ∀ slot, .drop slot ∉ s.wire)
    (hopen : ∀ accepted, s.destinationPhase ≠ .done accepted) :
    (s.rollback target).Safe target :=
  h.answer hearly hdrop hopen h.destination.remove
    (iff_of_false (not_holds_removeTarget h.destination) (by simp))

theorem Safe.slot (h : s.Safe target) (slot : Int) : ({ s with slot } : PaneMove ς).Safe target :=
  { h with }

theorem not_early (h : s.Safe target) (hphase : s.destinationPhase ≠ .idle) : ¬s.early :=
  fun hearly => hphase (h.quiet hearly).1

theorem no_drop (h : s.Safe target) (hphase : s.destinationPhase ≠ .idle) (slot : Int) :
    .drop slot ∉ s.wire := fun hslot => hphase (h.drop slot hslot)

theorem holds_receive {slot : Int} {m : RemoteLayoutModel ς}
    (h : m.canReceiveWindowTarget slot target = true) :
    (m.moveToEmpty slot target).Holds target := by
  unfold canReceiveWindowTarget at h
  unfold moveToEmpty
  cases hslot : m.slot slot with
  | none => simp [hslot] at h
  | some i =>
    obtain ⟨hsplit, hempty, -⟩ : m.isSplit ∧ m.slots i = none ∧ ∀ j, m.slots j ≠ some target := by
      simpa [hslot] using h
    simp only
    rw [if_neg (by simp [hsplit, hempty])]
    exact ⟨i, Slots.put_self⟩

theorem Safe.validated (h : s.Safe target) {second valid : Bool}
    (hphase : s.destinationPhase = .validating second) :
    (s.validated target second valid).Safe target := by
  have hbusy : s.destinationPhase ≠ .idle := by simp [hphase]
  have hopen (accepted : Bool) : s.destinationPhase ≠ .done accepted := by simp [hphase]
  have hearly := not_early h hbusy
  have hdrop := no_drop h hbusy
  have hholds := h.holds
  rw [hphase] at hholds
  unfold PaneMove.validated
  cases second with
  | false =>
    cases valid with
    | false => exact h.answer hearly hdrop hopen h.destination hholds
    | true =>
      simp only
      split_ifs with hreceive
      · exact h.turn hearly hdrop hopen (rearranges_moveToEmpty.distinct h.destination)
          (iff_of_true (holds_receive hreceive) rfl)
      · exact h.answer hearly hdrop hopen h.destination hholds
  | true =>
    cases valid with
    | false => exact h.rollback hearly hdrop hopen
    | true => exact h.answer hearly hdrop hopen h.destination hholds

/-- The source goes on behind its call; the pane goes only for a destination that has kept it. -/
theorem Safe.source_turn (h : s.Safe target) {phase : SourcePhase} {cancelled disposed valid : Bool}
    (hphase : phase = .dragging ∨ phase = .probing → s.early) :
    ({ s with sourcePhase := phase, cancelled, disposed, valid } : PaneMove ς).Safe target :=
  { h with quiet := fun hearly => h.quiet (hphase hearly) }

/-- The source calls the destination. -/
theorem Safe.call (h : s.Safe target) (hearly : s.early) {slot : Int} :
    (({ s with sourcePhase := .waiting } : PaneMove ς).send (.drop slot)).Safe target := by
  obtain ⟨hidle, hnone⟩ := h.quiet hearly
  exact
    { h with
      quiet := fun hearly => by simp [PaneMove.send] at hearly
      drop := fun _ _ => hidle
      once := fun slot' slot'' hslot' hslot'' => by
        have hone := (Finset.mem_insert.mp hslot').resolve_right (hnone slot')
        have hother := (Finset.mem_insert.mp hslot'').resolve_right (hnone slot'')
        exact DragMessage.drop.inj (hone.trans hother.symm)
      dropped := fun accepted haccepted =>
        h.dropped accepted ((Finset.mem_insert.mp haccepted).resolve_left (by simp)) }

theorem Safe.removeTarget (h : s.Safe target) (hdone : s.destinationPhase = .done true) :
    ({ s with source := s.source.removeTarget target, sourcePhase := .clearing } :
      PaneMove ς).Safe target :=
  { h with
    source := h.source.remove
    quiet := fun hearly => by simp at hearly
    removed := fun _ => hdone }

theorem Safe.receive (h : s.Safe target) {message : DragMessage} (hmessage : message ∈ s.wire)
    {agrees : Bool} :
    (({ s with wire := s.wire.erase message } : PaneMove ς).receive target agrees message).Safe
      target := by
  have hrest := h.subset (Finset.erase_subset message s.wire)
  cases message with
  | drop slot =>
    have hidle := h.drop slot hmessage
    have hearly : ¬s.early := fun hearly => (h.quiet hearly).2 slot hmessage
    have hdrop (slot' : Int) : .drop slot' ∉ s.wire.erase (.drop slot) := by
      rw [Finset.mem_erase]
      rintro ⟨hne, hslot'⟩
      exact hne (congrArg _ (h.once slot' slot hslot' hmessage))
    have hopen (accepted : Bool) : s.destinationPhase ≠ .done accepted := by simp [hidle]
    have hholds : s.destination.Holds target ↔ false = true := by
      rw [h.holds, hidle]
      rfl
    cases agrees with
    | false => exact hrest.answer hearly hdrop hopen h.destination hholds
    | true =>
      have hkeeps : s.destination.Holds target ↔
          (DestinationPhase.validating false).keeps = true := hholds
      exact (((hrest.turn hearly hdrop hopen h.destination hkeeps).slot slot).send (by simp)
        (by simp))
  | validate second => exact hrest.send (by simp) (by simp)
  | validated second valid =>
    simp only [PaneMove.receive]
    split_ifs with hphase
    · exact hrest.validated hphase
    · exact hrest
  | dropped accepted =>
    have hdone := h.dropped accepted hmessage
    simp only [PaneMove.receive]
    split_ifs with hphase haccepted
    · exact hrest
    · simp only [Bool.and_eq_true] at haccepted
      rw [haccepted.1.1] at hdone
      exact hrest.removeTarget hdone
    · exact hrest.source_turn (by simp)

theorem Safe.step (h : s.Safe target) (event : DragEvent) : (step target s event).Safe target := by
  cases event with
  | finish acceptedLocally =>
    simp only [PaneMove.step]
    split_ifs with hphase
    · exact h
    · exact h.source_turn (by simp)
    · exact h.source_turn fun _ => .inl (not_not.mp hphase)
  | probed hit =>
    simp only [PaneMove.step]
    split_ifs with hphase
    · exact h
    · split
      · exact h.source_turn (by simp)
      · exact h.source_turn (by simp)
    · split
      · exact h.call (.inr (not_not.mp hphase))
      · exact h.source_turn (by simp)
  | cancel => exact h.source_turn id
  | dispose =>
    refine h.source_turn ?_
    split_ifs with hphase
    · simp
    · exact id
  | revalidate valid => exact h.source_turn id
  | deliver message agrees =>
    simp only [PaneMove.step]
    split_ifs with hmessage
    · exact h.receive hmessage
    · exact h
  | lose message => exact h.subset (Finset.erase_subset message s.wire)
  | validateTimeout =>
    simp only [PaneMove.step]
    split
    · rename_i second hphase
      exact h.validated hphase
    · exact h
  | ready ready =>
    simp only [PaneMove.step]
    split_ifs with hphase hready
    · exact h
    · have hphase := not_not.mp hphase
      have hopen (accepted : Bool) : s.destinationPhase ≠ .done accepted := by simp [hphase]
      have hbusy : s.destinationPhase ≠ .idle := by simp [hphase]
      have hkeeps :
          s.destination.Holds target ↔ (DestinationPhase.validating true).keeps = true := by
        rw [h.holds, hphase]
        rfl
      exact (h.turn (not_early h hbusy) (no_drop h hbusy) hopen h.destination hkeeps).send (by simp)
        (by simp)
    · have hphase := not_not.mp hphase
      have hopen (accepted : Bool) : s.destinationPhase ≠ .done accepted := by simp [hphase]
      have hbusy : s.destinationPhase ≠ .idle := by simp [hphase]
      exact h.rollback (not_early h hbusy) (no_drop h hbusy) hopen
  | dropTimeout =>
    simp only [PaneMove.step]
    split_ifs with hphase
    · exact h.source_turn (by simp)
    · exact h
  | cleared =>
    simp only [PaneMove.step]
    split_ifs with hphase
    · exact h.source_turn (by simp)
    · exact h

/-- The source no longer waits for anything. -/
def late (s : PaneMove ς) : Prop := s.sourcePhase = .clearing ∨ s.sourcePhase = .finished

/-- The source has its answer, or has never asked: the destination does nothing more. -/
def Settled (target : RemotePaneTarget) (s : PaneMove ς) : Prop :=
  s.late → ¬s.source.Holds target ∨ s.destinationPhase = .done false ∨
    s.destinationPhase = .idle ∧ ∀ slot, .drop slot ∉ s.wire

/-- The call does not time out, and an acceptance finds the offer as it was. -/
def Timely (s : PaneMove ς) : DragEvent → Prop
  | .dropTimeout => s.sourcePhase ≠ .waiting
  | .deliver (.dropped true) _ => s.disposed = false ∧ s.valid = true
  | _ => True

/-- While the destination is at work, or its call is on the way, the source waits. -/
theorem Settled.not_late (h : s.Safe target) (hsettled : s.Settled target)
    (hdone : ∀ accepted, s.destinationPhase ≠ .done accepted)
    (hbusy : s.destinationPhase ≠ .idle ∨ ∃ slot, .drop slot ∈ s.wire) : ¬s.late := by
  intro hlate
  rcases hsettled hlate with hgone | hrefused | ⟨hidle, hnone⟩
  · exact hdone true (h.removed hgone)
  · exact hdone false hrefused
  · rcases hbusy with hbusy | ⟨slot, hslot⟩
    · exact hbusy hidle
    · exact hnone slot hslot

theorem Settled.subset (hsettled : s.Settled target) {wire : Finset DragMessage}
    (hwire : ∀ slot, .drop slot ∈ wire → .drop slot ∈ s.wire) :
    ({ s with wire } : PaneMove ς).Settled target := by
  intro hlate
  rcases hsettled hlate with hgone | hrefused | ⟨hidle, hnone⟩
  · exact .inl hgone
  · exact .inr (.inl hrefused)
  · exact .inr (.inr ⟨hidle, fun slot hslot => hnone slot (hwire slot hslot)⟩)

theorem validated_sourcePhase {second valid : Bool} :
    (s.validated target second valid).sourcePhase = s.sourcePhase := by
  unfold PaneMove.validated
  cases second with
  | false =>
    cases valid with
    | false => rfl
    | true =>
      simp only
      split_ifs
      · rfl
      · rfl
  | true =>
    cases valid with
    | false => rfl
    | true => rfl

theorem Settled.validated (h : s.Safe target) (hsettled : s.Settled target) {second valid : Bool}
    (hphase : s.destinationPhase = .validating second) :
    (s.validated target second valid).Settled target := by
  intro hlate
  unfold late at hlate
  rw [validated_sourcePhase] at hlate
  exact absurd hlate (hsettled.not_late h (by simp [hphase]) (.inl (by simp [hphase])))

theorem Settled.receive (h : s.Safe target) (hsettled : s.Settled target) {message : DragMessage}
    (hmessage : message ∈ s.wire) {agrees : Bool} (htimely : s.Timely (.deliver message agrees)) :
    (({ s with wire := s.wire.erase message } : PaneMove ς).receive target agrees
      message).Settled target := by
  have hrest : ({ s with wire := s.wire.erase message } : PaneMove ς).Settled target :=
    hsettled.subset fun slot hslot => Finset.mem_of_mem_erase hslot
  have hsafe := h.subset (Finset.erase_subset message s.wire)
  cases message with
  | drop slot =>
    have hidle := h.drop slot hmessage
    have hwaits : ¬s.late := hsettled.not_late h (by simp [hidle]) (.inr ⟨slot, hmessage⟩)
    cases agrees with
    | false => exact fun hlate => absurd hlate hwaits
    | true => exact fun hlate => absurd hlate hwaits
  | validate second =>
    refine hrest.subset fun slot hslot => ?_
    exact (Finset.mem_insert.mp hslot).resolve_left (by simp)
  | validated second valid =>
    simp only [PaneMove.receive]
    split_ifs with hphase
    · exact hrest.validated hsafe hphase
    · exact hrest
  | dropped accepted =>
    simp only [PaneMove.receive]
    split_ifs with hphase haccepted
    · exact hrest
    · exact fun _ => .inl (not_holds_removeTarget h.source)
    · cases accepted with
      | false => exact fun _ => .inr (.inl (h.dropped false hmessage))
      | true =>
        obtain ⟨hdisposed, hvalid⟩ := htimely
        simp [hdisposed, hvalid] at haccepted

theorem Settled.step (h : s.Safe target) (hsettled : s.Settled target) {event : DragEvent}
    (htimely : s.Timely event) : (step target s event).Settled target := by
  cases event with
  | finish acceptedLocally =>
    simp only [PaneMove.step]
    split_ifs with hphase
    · exact hsettled
    · exact fun _ => .inr (.inr (h.quiet (.inl (not_not.mp hphase))))
    · exact fun hlate => by simp [late] at hlate
  | probed hit =>
    simp only [PaneMove.step]
    split_ifs with hphase
    · exact hsettled
    · split
      · exact fun _ => .inr (.inr (h.quiet (.inr (not_not.mp hphase))))
      · exact fun _ => .inr (.inr (h.quiet (.inr (not_not.mp hphase))))
    · split
      · exact fun hlate => by simp [late, send] at hlate
      · exact fun _ => .inr (.inr (h.quiet (.inr (not_not.mp hphase))))
  | cancel => exact hsettled
  | dispose =>
    by_cases hphase : s.sourcePhase = .dragging
    · exact fun _ => .inr (.inr (h.quiet (.inl hphase)))
    · intro hlate
      refine hsettled ?_
      simpa [late, PaneMove.step, hphase] using hlate
  | revalidate valid => exact hsettled
  | deliver message agrees =>
    simp only [PaneMove.step]
    split_ifs with hmessage
    · exact hsettled.receive h hmessage htimely
    · exact hsettled
  | lose message => exact hsettled.subset fun slot hslot => Finset.mem_of_mem_erase hslot
  | validateTimeout =>
    simp only [PaneMove.step]
    split
    · rename_i second hphase
      exact hsettled.validated h hphase
    · exact hsettled
  | ready ready =>
    simp only [PaneMove.step]
    split_ifs with hphase hready
    · exact hsettled
    · have hphase := not_not.mp hphase
      have hwaits := hsettled.not_late h (by simp [hphase]) (.inl (by simp [hphase]))
      exact fun hlate => absurd hlate hwaits
    · have hphase := not_not.mp hphase
      have hwaits := hsettled.not_late h (by simp [hphase]) (.inl (by simp [hphase]))
      exact fun hlate => absurd hlate hwaits
  | dropTimeout =>
    simp only [PaneMove.step]
    rw [if_neg htimely]
    exact hsettled
  | cleared =>
    simp only [PaneMove.step]
    split_ifs with hphase
    · exact fun _ => hsettled (.inl hphase)
    · exact hsettled

variable {source destination : RemoteLayoutModel ς}

theorem safe_start (hsource : source.Inv) (hdestination : destination.Inv)
    (hheld : source.Holds target) (hnew : ¬destination.Holds target) :
    (start source destination).Safe target where
  source := hsource.distinct
  destination := hdestination.distinct
  holds := iff_of_false hnew (by simp [start, DestinationPhase.keeps])
  quiet _ := ⟨rfl, by simp [start]⟩
  drop := by simp [start]
  once := by simp [start]
  dropped := by simp [start]
  removed hgone := absurd hheld hgone

theorem safe_run (hsource : source.Inv) (hdestination : destination.Inv)
    (hheld : source.Holds target) (hnew : ¬destination.Holds target) (events : List DragEvent) :
    (run (step target) (start source destination) events).Safe target := by
  have hall : Allowed (step target) (fun _ _ => True) (start source destination) events :=
    allowed_of_forall (fun _ _ => trivial) _ events
  exact run_keeps (fun _ event h _ => h.step event)
    (safe_start hsource hdestination hheld hnew) hall

/-- The screen is not lost, and a destination that refuses keeps nothing. -/
structure Kept (target : RemotePaneTarget) (s : PaneMove ς) : Prop where
  removed : ¬s.source.Holds target → s.destinationPhase = .done true
  accepted : s.destinationPhase = .done true → s.destination.Holds target
  refused : s.destinationPhase = .done false →
    s.source.Holds target ∧ ¬s.destination.Holds target

theorem Safe.kept (h : s.Safe target) : s.Kept target where
  removed := h.removed
  accepted hdone := by
    rw [h.holds, hdone]
    rfl
  refused hrefused := by
    rw [h.holds, hrefused]
    refine ⟨?_, by simp [DestinationPhase.keeps]⟩
    by_contra hgone
    simp [h.removed hgone] at hrefused

/-- A source that is through in time has the screen, or the destination has, and not both. -/
theorem Settled.once (h : s.Safe target) (hsettled : s.Settled target) (hlate : s.late) :
    s.source.Holds target ↔ ¬s.destination.Holds target := by
  rcases hsettled hlate with hgone | hrefused | ⟨hidle, -⟩
  · exact iff_of_false hgone (not_not.mpr (h.kept.accepted (h.removed hgone)))
  · exact iff_of_true (h.kept.refused hrefused).1 (h.kept.refused hrefused).2
  · refine iff_of_true ?_ ?_
    · by_contra hgone
      simp [h.removed hgone] at hidle
    · rw [h.holds, hidle]
      simp [DestinationPhase.keeps]

/-- A window with the screen in its first pane, and one with two empty panes. -/
def sender : RemoteLayoutModel Unit := (new ()).setMode .sideBySide (some ⟨"A", 0⟩)

def receiver : RemoteLayoutModel Unit := (new ()).setMode .sideBySide none

/-- A drop up to the answer of the destination. -/
def drag : List DragEvent :=
  [.finish false, .probed (some 1), .deliver (.drop 1) true, .deliver (.validate false) true,
    .deliver (.validated false true) true, .ready true, .deliver (.validate true) true,
    .deliver (.validated true true) true]

end PaneMove

end Desktop

end MDesk
