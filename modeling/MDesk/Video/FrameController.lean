import Mathlib.Data.Finset.Card
import Mathlib.Data.Finset.Insert
import Mathlib.Logic.Function.Basic
import MDesk.Core.Run
import MDesk.Core.Table

/-!
# Frames and their acknowledgements

A video service sends a frame to the subscribed connections and waits until as many of them as it
was sent to have acknowledged one. An acknowledgement carries no frame, and the channel of a display
outlives the frame and the service. So the service waits for the frame it has sent only where every
acknowledgement it hears is one of that frame.
-/

namespace MDesk.FrameController

open Core

inductive VideoSource where
  | monitor
  | camera
  deriving DecidableEq, Repr

/-- A video service by its source and its display. -/
structure VideoService where
  source : VideoSource
  idx : Nat
  deriving DecidableEq, Repr

/-- Where the loop of a service is. -/
inductive Phase where
  | capture
  /-- The frame is sent, and `set_send` is to come. -/
  | sent (sendConnIds : Finset Int)
  | wait (sendConnIds fetchedConnIds : Finset Int)
  /-- The wait is over, and the display is still in `DISPLAY_CONN_IDS`. -/
  | leave
  deriving DecidableEq

/-- The connections that a service waits for. -/
def Phase.waiting : Phase → Finset Int
  | .wait sendConnIds _ => sendConnIds
  | _ => ∅

/-- The channels of the displays, the connections to notify, the notifications that are on their
way, the loops, and for each connection whose frames it has not acknowledged yet, in their order. -/
structure Frames where
  notifiers : Table Nat (List Int) := ∅
  displayConnIds : Table Nat (Finset Int) := ∅
  pending : List (Int × Nat) := []
  loops : VideoService → Phase := fun _ => .capture
  owed : Int → List VideoService := fun _ => []
  closed : Finset Int := ∅

inductive Event where
  | new (v : VideoService)
  /-- `handle_one_frame` sends a frame to the subscribed connections, or there is no frame. -/
  | send (v : VideoService) (connIds : Finset Int)
  | setSend (v : VideoService)
  /-- `try_wait_next`, and the comparison behind it. -/
  | tryWaitNext (v : VideoService)
  /-- Three seconds have passed. -/
  | timeout (v : VideoService)
  /-- The display is taken out of `DISPLAY_CONN_IDS`. -/
  | next (v : VideoService)
  /-- `run` returns. -/
  | stop (v : VideoService)
  /-- A connection that need not acknowledge takes its next frame. -/
  | fetched (connId : Int)
  /-- `VideoReceived` from a connection. -/
  | received (connId : Int)
  | close (connId : Int)
  /-- A notification by the connection gets to the channel. -/
  | notify (i : Nat)
  deriving DecidableEq

namespace Frames

variable (s : Frames)

def setLoop (v : VideoService) (p : Phase) : Frames :=
  { s with loops := Function.update s.loops v p }

/-- `notify_video_frame_fetched`. -/
def notifyVideoFrameFetched (displayIdx : Nat) (connId : Int) : Frames :=
  { s with notifiers := s.notifiers.modify displayIdx (· ++ [connId]) }

/-- `notify_video_frame_fetched_by_conn_id`, up to the second lock. -/
def notifyByConnId (connId : Int) : Frames :=
  let displays := s.displayConnIds.entries.filter fun e => connId ∈ e.2
  { s with pending := s.pending ++ displays.map fun e => (connId, e.1) }

/-- A connection has handled its next frame. -/
def acknowledge (connId : Int) : Frames :=
  { s with owed := Function.update s.owed connId (s.owed connId).tail }

/-- A frame of a service goes to connections. -/
def sendVideoFrame (v : VideoService) (connIds : Finset Int) : Frames :=
  { s with owed := fun c => if c ∈ connIds then s.owed c ++ [v] else s.owed c }

/-- The channel of a display. -/
def channel (displayIdx : Nat) : List Int := (s.notifiers.get displayIdx).getD []

def tryWaitNext (v : VideoService) (sendConnIds fetchedConnIds : Finset Int) :
    Frames × Finset Int :=
  if sendConnIds = ∅ then (s, fetchedConnIds)
  else ({ s with notifiers := s.notifiers.modify v.idx fun _ => [] },
    fetchedConnIds ∪ (s.channel v.idx).toFinset)

def leaveDisplay (v : VideoService) : Frames :=
  { s with displayConnIds := s.displayConnIds.remove v.idx }.setLoop v .capture

def step (s : Frames) : Event → Frames
  | .new v =>
    match s.notifiers.get v.idx with
    | some _ => s
    | none => { s with notifiers := s.notifiers.insert v.idx [] }
  | .send v connIds =>
    match s.loops v with
    | .capture => (s.sendVideoFrame v connIds).setLoop v (.sent connIds)
    | _ => s
  | .setSend v =>
    match s.loops v with
    | .sent connIds =>
      if connIds = ∅ then s.setLoop v (.wait ∅ ∅)
      else { s with displayConnIds := s.displayConnIds.insert v.idx connIds }.setLoop v
        (.wait connIds ∅)
    | _ => s
  | .tryWaitNext v =>
    match s.loops v with
    | .wait sendConnIds fetchedConnIds =>
      let r := s.tryWaitNext v sendConnIds fetchedConnIds
      r.1.setLoop v (if sendConnIds.card ≤ r.2.card then .leave else .wait sendConnIds r.2)
    | _ => s
  | .timeout v =>
    match s.loops v with
    | .wait _ _ => s.setLoop v .leave
    | _ => s
  | .next v =>
    match s.loops v with
    | .leave => s.leaveDisplay v
    | _ => s
  | .stop v => s.leaveDisplay v
  | .fetched connId =>
    match s.owed connId with
    | [] => s
    | v :: _ => (s.acknowledge connId).notifyVideoFrameFetched v.idx connId
  | .received connId => (s.acknowledge connId).notifyByConnId connId
  | .close connId => { s with closed := insert connId s.closed }.notifyByConnId connId
  | .notify i =>
    match s.pending[i]? with
    | some (connId, displayIdx) =>
      { s with pending := s.pending.eraseIdx i }.notifyVideoFrameFetched displayIdx connId
    | none => s

/-- A connection of those a frame was sent to has acknowledged the frame or has closed. -/
def Answered (v : VideoService) (sendConnIds : Finset Int) (connId : Int) : Prop :=
  connId ∈ sendConnIds ∧ (v ∉ s.owed connId ∨ connId ∈ s.closed)

instance (v : VideoService) (sendConnIds : Finset Int) (connId : Int) :
    Decidable (s.Answered v sendConnIds connId) :=
  inferInstanceAs (Decidable (_ ∧ _))

/-- A service goes on only if all the connections have answered the frame they were sent. -/
def Waits : Prop := ∀ v sendConnIds fetchedConnIds,
  s.loops v = .wait sendConnIds fetchedConnIds → (s.step (.tryWaitNext v)).loops v = .leave →
    ∀ c ∈ sendConnIds, s.Answered v sendConnIds c

/-- Every service that waits at a display was waiting for this acknowledgement. -/
def Expects (displayIdx : Nat) (connId : Int) : Prop :=
  ∀ source ∈ [VideoSource.monitor, .camera],
    (s.loops ⟨source, displayIdx⟩).waiting ≠ ∅ →
      s.Answered ⟨source, displayIdx⟩ (s.loops ⟨source, displayIdx⟩).waiting connId

instance (displayIdx : Nat) (connId : Int) : Decidable (s.Expects displayIdx connId) := by
  unfold Expects
  infer_instance

/-- The steps that bring a service no acknowledgement of another frame: what gets to the channel of
a display is expected there, and so is what is in it when a service begins to wait. -/
def Timely (s : Frames) : Event → Prop
  | .setSend v =>
    match s.loops v with
    | .sent connIds => connIds ≠ ∅ → ∀ c ∈ s.channel v.idx, s.Answered v connIds c
    | _ => True
  | .fetched connId =>
    match s.owed connId with
    | [] => True
    | v :: _ => (s.acknowledge connId).Expects v.idx connId
  | .notify i =>
    match s.pending[i]? with
    | some (connId, displayIdx) => s.Expects displayIdx connId
    | none => True
  | _ => True

instance (e : Event) : Decidable (s.Timely e) := by
  unfold Timely
  split
  any_goals split
  all_goals infer_instance

/-! ## What a service has heard -/

/-- A waiting service has heard only what answers its frame, and there is nothing else to hear. -/
structure Inv : Prop where
  fetched : ∀ v sendConnIds fetchedConnIds, s.loops v = .wait sendConnIds fetchedConnIds →
    ∀ c ∈ fetchedConnIds, s.Answered v sendConnIds c
  channel : ∀ v sendConnIds fetchedConnIds, s.loops v = .wait sendConnIds fetchedConnIds →
    sendConnIds ≠ ∅ → ∀ c ∈ s.channel v.idx, s.Answered v sendConnIds c

variable {s} {s' : Frames} {v w : VideoService} {p : Phase} {c : Int} {d : Nat}

theorem setLoop_loops : (s.setLoop v p).loops w = if w = v then p else s.loops w :=
  Function.update_apply s.loops v p w

@[simp] theorem setLoop_self : (s.setLoop v p).loops v = p := by rw [setLoop_loops, if_pos rfl]

theorem channel_notify : (s.notifyVideoFrameFetched d c).channel w.idx ⊆
    if w.idx = d then s.channel w.idx ++ [c] else s.channel w.idx := by
  unfold channel notifyVideoFrameFetched
  rw [Table.get_modify]
  split_ifs with hidx
  · rw [hidx]
    cases s.notifiers.get d with
    | none => exact List.nil_subset _
    | some ids => exact List.Subset.refl _
  · exact List.Subset.refl _

/-- The service goes on only where it has heard from all. -/
theorem Inv.waits (h : s.Inv) : s.Waits := by
  intro v sendConnIds fetchedConnIds hloop hleave c hc
  have hnonempty : sendConnIds ≠ ∅ := Finset.ne_empty_of_mem hc
  simp only [step, hloop, tryWaitNext, if_neg hnonempty, setLoop_self] at hleave
  have hall : ∀ b ∈ fetchedConnIds ∪ (s.channel v.idx).toFinset, s.Answered v sendConnIds b := by
    intro b hb
    rcases Finset.mem_union.mp hb with hb | hb
    · exact h.fetched v _ _ hloop b hb
    · exact h.channel v _ _ hloop hnonempty b (List.mem_toFinset.mp hb)
  have hsubset : fetchedConnIds ∪ (s.channel v.idx).toFinset ⊆ sendConnIds := fun b hb =>
    (hall b hb).1
  split_ifs at hleave with hcard
  rw [← Finset.eq_of_subset_of_card_le hsubset hcard] at hc
  exact hall c hc

/-- What neither moves a service nor lets it hear anything new. -/
theorem Inv.mono (h : s.Inv) (hloops : s'.loops = s.loops)
    (hanswered : ∀ v sendConnIds fetchedConnIds c, s.loops v = .wait sendConnIds fetchedConnIds →
      s.Answered v sendConnIds c → s'.Answered v sendConnIds c)
    (hchannel : ∀ d, s'.channel d ⊆ s.channel d) : s'.Inv := by
  constructor
  · intro v sendConnIds fetchedConnIds hloop c hc
    rw [hloops] at hloop
    exact hanswered v _ _ c hloop (h.fetched v _ _ hloop c hc)
  · intro v sendConnIds fetchedConnIds hloop hnonempty c hc
    rw [hloops] at hloop
    exact hanswered v _ _ c hloop (h.channel v _ _ hloop hnonempty c (hchannel _ hc))

theorem Inv.setLoop (h : s.Inv) (hp : ∀ sendConnIds fetchedConnIds,
    p = .wait sendConnIds fetchedConnIds → (∀ c ∈ fetchedConnIds, s.Answered v sendConnIds c) ∧
      (sendConnIds ≠ ∅ → ∀ c ∈ s.channel v.idx, s.Answered v sendConnIds c)) :
    (s.setLoop v p).Inv := by
  constructor
  · intro w sendConnIds fetchedConnIds hloop
    rw [setLoop_loops] at hloop
    split_ifs at hloop with heq
    · subst heq
      exact (hp _ _ hloop).1
    · exact h.fetched w _ _ hloop
  · intro w sendConnIds fetchedConnIds hloop
    rw [setLoop_loops] at hloop
    split_ifs at hloop with heq
    · subst heq
      exact (hp _ _ hloop).2
    · exact h.channel w _ _ hloop

/-- A notification that every waiting service expects. -/
theorem Inv.notify (h : s.Inv) (hexpects : s.Expects d c) :
    (s.notifyVideoFrameFetched d c).Inv := by
  constructor
  · exact h.fetched
  · intro v sendConnIds fetchedConnIds hloop hnonempty b hb
    have hloop' : s.loops v = .wait sendConnIds fetchedConnIds := hloop
    have hmem := channel_notify hb
    split_ifs at hmem with hidx
    · rcases List.mem_append.mp hmem with hold | hnew
      · exact h.channel v _ _ hloop' hnonempty b hold
      · rw [List.mem_singleton] at hnew
        subst hidx hnew
        have hwaiting := hexpects v.source (by cases v.source <;> decide)
        rw [hloop'] at hwaiting
        exact hwaiting hnonempty
    · exact h.channel v _ _ hloop' hnonempty b hmem

theorem Answered.acknowledge {sendConnIds : Finset Int} {b : Int}
    (h : s.Answered v sendConnIds c) : (s.acknowledge b).Answered v sendConnIds c := by
  refine ⟨h.1, h.2.imp_left fun howed hmem => howed ?_⟩
  have hupdate : Function.update s.owed b (s.owed b).tail c ⊆ s.owed c := by
    rw [Function.update_apply]
    split_ifs with heq
    · rw [heq]
      exact List.tail_subset _
    · exact List.Subset.refl _
  exact hupdate hmem

theorem Inv.acknowledge (h : s.Inv) (b : Int) : (s.acknowledge b).Inv :=
  h.mono rfl (fun _ _ _ _ _ hanswered => hanswered.acknowledge) fun _ => List.Subset.refl _

/-- What is drained from the channel has answered. -/
theorem Inv.tryWaitNext {sendConnIds fetchedConnIds : Finset Int} (h : s.Inv)
    (hloop : s.loops v = .wait sendConnIds fetchedConnIds) :
    ((s.tryWaitNext v sendConnIds fetchedConnIds).1.setLoop v
      (if sendConnIds.card ≤ (s.tryWaitNext v sendConnIds fetchedConnIds).2.card then .leave
        else .wait sendConnIds (s.tryWaitNext v sendConnIds fetchedConnIds).2)).Inv := by
  by_cases hempty : sendConnIds = ∅
  · rw [Frames.tryWaitNext, if_pos hempty, hempty]
    refine h.setLoop fun _ _ hp => ?_
    rw [Finset.card_empty, if_pos (Nat.zero_le _)] at hp
    cases hp
  · rw [Frames.tryWaitNext, if_neg hempty]
    have hdrained : Inv { s with notifiers := s.notifiers.modify v.idx fun _ => [] } := by
      refine h.mono rfl (fun _ _ _ _ _ hanswered => hanswered) fun d => ?_
      simp only [Frames.channel, Table.get_modify]
      split_ifs with hidx
      · cases s.notifiers.get v.idx <;> exact List.nil_subset _
      · exact List.Subset.refl _
    refine hdrained.setLoop fun _ _ hp => ?_
    split_ifs at hp
    cases hp
    refine ⟨fun c hc => ?_, fun hne => hdrained.channel v _ _ hloop hne⟩
    rcases Finset.mem_union.mp hc with hc | hc
    · exact h.fetched v _ _ hloop c hc
    · exact h.channel v _ _ hloop hempty c (List.mem_toFinset.mp hc)

theorem Inv.leaveDisplay (h : s.Inv) (v : VideoService) : (s.leaveDisplay v).Inv := by
  have hremove : Inv { s with displayConnIds := s.displayConnIds.remove v.idx } :=
    h.mono rfl (fun _ _ _ _ _ hanswered => hanswered) fun _ => List.Subset.refl _
  exact hremove.setLoop fun _ _ hp => nomatch hp

/-- A frame of a service that waits for none is owed by those it was sent to. -/
theorem Inv.sendVideoFrame (h : s.Inv) (hloop : s.loops v = .capture) (connIds : Finset Int) :
    (s.sendVideoFrame v connIds).Inv := by
  refine h.mono rfl (fun w _ _ c hwait hanswered => ?_) fun _ => List.Subset.refl _
  have hne : w ≠ v := by
    rintro rfl
    rw [hloop] at hwait
    cases hwait
  refine ⟨hanswered.1, hanswered.2.imp_left fun howed hmem => howed ?_⟩
  simp only [Frames.sendVideoFrame] at hmem
  split_ifs at hmem
  · rcases List.mem_append.mp hmem with hmem | hmem
    · exact hmem
    · exact absurd (List.mem_singleton.mp hmem) hne
  · exact hmem

theorem inv_init : ({} : Frames).Inv :=
  ⟨fun _ _ _ hloop => (nomatch hloop), fun _ _ _ hloop => (nomatch hloop)⟩

theorem Inv.step (h : s.Inv) (e : Event) (he : s.Timely e) : (s.step e).Inv := by
  cases e with
  | new v =>
    simp only [Frames.step]
    cases hget : s.notifiers.get v.idx with
    | some ids => exact h
    | none =>
      refine h.mono rfl (fun _ _ _ _ _ hanswered => hanswered) fun d => ?_
      simp only [Frames.channel, Table.get_insert]
      split_ifs
      · exact List.nil_subset _
      · exact List.Subset.refl _
  | send v connIds =>
    simp only [Frames.step]
    cases hloop : s.loops v with
    | capture => exact (h.sendVideoFrame hloop connIds).setLoop fun _ _ hp => by cases hp
    | sent | wait | leave => exact h
  | setSend v =>
    simp only [Frames.step, Timely] at he ⊢
    cases hloop : s.loops v with
    | sent connIds =>
      rw [hloop] at he
      dsimp only
      split_ifs with hempty
      · refine h.setLoop fun _ _ hp => ?_
        cases hp
        exact ⟨fun c hc => absurd hc (Finset.notMem_empty c), fun hne => absurd rfl hne⟩
      · refine Inv.setLoop (h.mono rfl (fun _ _ _ _ _ hanswered => hanswered)
          fun _ => List.Subset.refl _) fun _ _ hp => ?_
        cases hp
        exact ⟨fun c hc => absurd hc (Finset.notMem_empty c), he⟩
    | capture | wait | leave => exact h
  | tryWaitNext v =>
    simp only [Frames.step]
    cases hloop : s.loops v with
    | wait sendConnIds fetchedConnIds => exact h.tryWaitNext hloop
    | capture | sent | leave => exact h
  | timeout v =>
    simp only [Frames.step]
    cases s.loops v with
    | wait => exact h.setLoop fun _ _ hp => by cases hp
    | capture | sent | leave => exact h
  | next v =>
    simp only [Frames.step]
    cases s.loops v with
    | leave => exact h.leaveDisplay v
    | capture | sent | wait => exact h
  | stop v => exact h.leaveDisplay v
  | fetched connId =>
    simp only [Frames.step, Timely] at he ⊢
    cases howed : s.owed connId with
    | nil => exact h
    | cons v rest =>
      rw [howed] at he
      exact (h.acknowledge connId).notify he
  | received connId =>
    refine (h.acknowledge connId).mono rfl ?_ fun _ => List.Subset.refl _
    exact fun _ _ _ _ _ hanswered => hanswered
  | close connId =>
    refine h.mono rfl (fun _ _ _ _ _ hanswered => ?_) fun _ => List.Subset.refl _
    exact ⟨hanswered.1, hanswered.2.imp_right (Finset.mem_insert_of_mem ·)⟩
  | notify i =>
    simp only [Frames.step, Timely] at he ⊢
    cases hpending : s.pending[i]? with
    | none => exact h
    | some n =>
      rw [hpending] at he
      refine Inv.notify (h.mono rfl ?_ fun _ => List.Subset.refl _) he
      exact fun _ _ _ _ _ hanswered => hanswered

/-- Where every acknowledgement that a service hears is one of the frame it waits for, it goes on to
the next frame before the timeout only if all connections have acknowledged the present one or have
closed. -/
theorem waits_of_timely (es : List Event) (hes : Allowed step Timely {} es) :
    (run step ({} : Frames) es).Waits :=
  (run_keeps (fun _ e h he => h.step e he) inv_init hes).waits

/-- The first screen. -/
def screen : VideoService := ⟨.monitor, 0⟩

/-- A frame to two connections, one of which needs more than three seconds for it, and the next
frame to that one alone. -/
def slow : List Event :=
  [.new screen, .send screen {1, 2}, .setSend screen, .fetched 2, .tryWaitNext screen,
    .timeout screen, .next screen, .send screen {1}, .setSend screen]

/-- Both frames are acknowledged before the service goes on. -/
theorem slow_waits : (run step ({} : Frames)
    (slow.take 3 ++ [.fetched 2, .tryWaitNext screen, .fetched 1])).Waits :=
  waits_of_timely (slow.take 3 ++ [.fetched 2, .tryWaitNext screen, .fetched 1]) (by decide)

/-- The late acknowledgement of the first frame lets the service go on behind the second one. -/
theorem slow_not_waits : ¬ (run step ({} : Frames) (slow ++ [.fetched 1])).Waits := by
  intro hwaits
  have hanswered := hwaits screen {1} ∅ (by decide) (by decide) 1 (by decide)
  exact absurd hanswered (by decide)

end Frames

end MDesk.FrameController
