import Mathlib.Data.List.Lattice
import Mathlib.Logic.Function.Basic
import MDesk.Core.Run

/-!
# Subscribers of a service

A service that needs a snapshot keeps a new subscriber apart in `new_subscribes` until its
thread has sent it a snapshot. `snapshot` hands the callback a `ServiceSwap`: what is sent
through it goes to the new subscribers, and when it is dropped they all become regular
ones. Every lock is taken and released in one step, so another thread may subscribe
between what a callback sends and the drop; such a subscriber becomes a regular one
without the snapshot.
-/

namespace MDesk

open Core

/-- What a subscriber was sent: a message to the regular subscribers, or message `index`
of a run of a snapshot callback. -/
inductive Delivery (μ : Type*) where
  | regular (msg : μ)
  | snapshot (callback index : Nat) (msg : μ)

/-- `ServiceInner`, with the runs of snapshot callbacks: what each has sent through its
`ServiceSwap`, which of them still hold theirs, what the subscribers were sent, and which
run made whom a regular one. -/
structure Service (μ : Type*) where
  needSnapshot : Bool
  subscribes : List Int := []
  newSubscribes : List Int := []
  runs : Nat := 0
  live : List Nat := []
  emitted : Nat → List μ := fun _ => []
  sent : List (Int × Delivery μ) := []
  moved : List (Nat × Int) := []

/-- What the threads of a server do to a service, one lock at a time. -/
inductive ServiceStep (μ : Type*) where
  | onSubscribe (id : Int)
  | onUnsubscribe (id : Int)
  | sendShared (msg : μ)
  | sendTo (msg : μ) (id : Int)
  | sendWithout (msg : μ) (id : Int)
  /-- `snapshot` finds new subscribers and calls the callback. -/
  | snapshot
  /-- `ServiceSwap::send_shared` in a run of a callback. -/
  | swapSend (callback : Nat) (msg : μ)
  /-- `ServiceSwap` is dropped, whether the callback succeeded or not. -/
  | swapDrop (callback : Nat)

namespace Service

variable {μ : Type*}

/-- Send to some of the subscribers. -/
def deliver (s : Service μ) (ids : List Int) (d : Delivery μ) : Service μ :=
  { s with sent := s.sent ++ ids.map fun id => (id, d) }

def onSubscribe (s : Service μ) (id : Int) : Service μ :=
  if id ∈ s.subscribes then s
  else if s.needSnapshot then { s with newSubscribes := s.newSubscribes.insert id }
  else { s with subscribes := s.subscribes.insert id }

def onUnsubscribe (s : Service μ) (id : Int) : Service μ :=
  if id ∈ s.subscribes then { s with subscribes := s.subscribes.filter (· ≠ id) }
  else { s with newSubscribes := s.newSubscribes.filter (· ≠ id) }

def sendShared (s : Service μ) (msg : μ) : Service μ := s.deliver s.subscribes (.regular msg)

def sendTo (s : Service μ) (msg : μ) (id : Int) : Service μ :=
  s.deliver (s.subscribes.filter (· = id)) (.regular msg)

/-- `send_without` and `send_to_others`. -/
def sendWithout (s : Service μ) (msg : μ) (id : Int) : Service μ :=
  s.deliver (s.subscribes.filter (· ≠ id)) (.regular msg)

def snapshot (s : Service μ) : Service μ :=
  if s.newSubscribes ≠ [] then
    { s with
      runs := s.runs + 1
      live := s.runs :: s.live }
  else s

/-- `send_new_subscribes`. -/
def sendNewSubscribes (s : Service μ) (callback : Nat) (msg : μ) : Service μ :=
  { s.deliver s.newSubscribes (.snapshot callback (s.emitted callback).length msg) with
    emitted := Function.update s.emitted callback (s.emitted callback ++ [msg]) }

/-- `swap_new_subscribes`. -/
def swapNewSubscribes (s : Service μ) (callback : Nat) : Service μ :=
  { s with
    subscribes := s.newSubscribes ∪ s.subscribes
    newSubscribes := []
    live := s.live.filter (· ≠ callback)
    moved := s.moved ++ s.newSubscribes.map fun id => (callback, id) }

/-- A step that a thread without a `ServiceSwap` cannot take changes nothing. -/
def step (s : Service μ) : ServiceStep μ → Service μ
  | .onSubscribe id => s.onSubscribe id
  | .onUnsubscribe id => s.onUnsubscribe id
  | .sendShared msg => s.sendShared msg
  | .sendTo msg id => s.sendTo msg id
  | .sendWithout msg id => s.sendWithout msg id
  | .snapshot => s.snapshot
  | .swapSend callback msg =>
    if callback ∈ s.live then s.sendNewSubscribes callback msg else s
  | .swapDrop callback => if callback ∈ s.live then s.swapNewSubscribes callback else s

/-- A service that needs a snapshot, without subscribers. -/
def new (needSnapshot : Bool) : Service μ := { needSnapshot }

/-- A subscriber has everything that a run of a callback has sent. -/
def HasSnapshot (s : Service μ) (callback : Nat) (id : Int) : Prop :=
  ∀ index msg, (s.emitted callback)[index]? = some msg →
    (id, .snapshot callback index msg) ∈ s.sent

/-- Every regular subscriber was made one by a run of a callback, and whoever was has
everything that the run has sent. -/
structure Snapshotted (s : Service μ) : Prop where
  moved : ∀ id ∈ s.subscribes, ∃ callback, (callback, id) ∈ s.moved
  sent : ∀ callback id, (callback, id) ∈ s.moved → s.HasSnapshot callback id

/-- A subscriber that comes behind the first message of a run that is still going on. -/
def Late (s : Service μ) (id : Int) : Prop :=
  id ∉ s.subscribes ∧ id ∉ s.newSubscribes ∧ ∃ callback ∈ s.live, s.emitted callback ≠ []

/-- Nobody subscribes late. -/
def InTime (s : Service μ) : ServiceStep μ → Prop
  | .onSubscribe id => ¬ s.Late id
  | _ => True

/-- What holds between the steps. -/
structure Inv (s : Service μ) : Prop where
  needSnapshot : s.needSnapshot = true
  live : ∀ callback ∈ s.live, callback < s.runs
  fresh : ∀ callback, s.runs ≤ callback → s.emitted callback = []
  done : ∀ callback id, (callback, id) ∈ s.moved → callback ∉ s.live ∧ callback < s.runs
  waiting : ∀ callback ∈ s.live, ∀ id ∈ s.newSubscribes, s.HasSnapshot callback id
  snapshotted : s.Snapshotted

variable {s : Service μ} {callback : Nat} {id : Int} {msg : μ}

theorem inv_new : (new true : Service μ).Inv where
  needSnapshot := rfl
  live := nofun
  fresh := fun _ _ => rfl
  done := nofun
  waiting := nofun
  snapshotted := ⟨nofun, nofun⟩

/-- A delivery that belongs to no run changes nothing that is waited for. -/
theorem Inv.deliver (h : s.Inv) (ids : List Int) (d : Delivery μ) : (s.deliver ids d).Inv where
  needSnapshot := h.needSnapshot
  live := h.live
  fresh := h.fresh
  done := h.done
  waiting := fun callback hlive id hid index m hm =>
    List.mem_append_left _ (h.waiting callback hlive id hid index m hm)
  snapshotted := ⟨h.snapshotted.moved, fun callback id hmoved index m hm =>
    List.mem_append_left _ (h.snapshotted.sent callback id hmoved index m hm)⟩

theorem Inv.onSubscribe (h : s.Inv) (htime : ¬ s.Late id) : (s.onSubscribe id).Inv := by
  unfold Service.onSubscribe
  split_ifs with hold hneed
  · exact h
  · refine { h with waiting := ?_, snapshotted := ⟨h.snapshotted.moved, h.snapshotted.sent⟩ }
    intro callback hlive id' hid'
    rcases List.mem_insert_iff.mp hid' with rfl | hin
    · by_cases hnew : id' ∈ s.newSubscribes
      · exact h.waiting callback hlive id' hnew
      · -- no run has sent anything yet
        have hnone : s.emitted callback = [] := by
          by_contra hsome
          exact htime ⟨hold, hnew, callback, hlive, hsome⟩
        intro index m hm
        rw [show Service.emitted _ callback = s.emitted callback from rfl, hnone] at hm
        cases hm
    · exact h.waiting callback hlive id' hin
  · exact absurd h.needSnapshot hneed

theorem Inv.onUnsubscribe (h : s.Inv) (id : Int) : (s.onUnsubscribe id).Inv := by
  unfold Service.onUnsubscribe
  split
  · refine { h with waiting := h.waiting, snapshotted := ⟨fun id' hid' => ?_, h.snapshotted.sent⟩ }
    exact h.snapshotted.moved id' (List.mem_of_mem_filter hid')
  · refine { h with
      waiting := fun callback hlive id' hid' => ?_
      snapshotted := ⟨h.snapshotted.moved, h.snapshotted.sent⟩ }
    exact h.waiting callback hlive id' (List.mem_of_mem_filter hid')

theorem Inv.snapshot (h : s.Inv) : s.snapshot.Inv := by
  unfold Service.snapshot
  split
  · refine { h with
      live := ?_
      fresh := ?_
      done := ?_
      waiting := ?_
      snapshotted := ⟨h.snapshotted.moved, h.snapshotted.sent⟩ }
    · intro callback hlive
      rcases List.mem_cons.mp hlive with rfl | hin
      · exact Nat.lt_succ_self _
      · exact Nat.lt_succ_of_lt (h.live callback hin)
    · exact fun callback hle => h.fresh callback (Nat.le_of_succ_le hle)
    · intro callback id hmoved
      obtain ⟨hdead, hlt⟩ := h.done callback id hmoved
      refine ⟨fun hlive => ?_, Nat.lt_succ_of_lt hlt⟩
      rcases List.mem_cons.mp hlive with rfl | hin
      · exact Nat.lt_irrefl _ hlt
      · exact hdead hin
    · intro callback hlive id hid
      rcases List.mem_cons.mp hlive with rfl | hin
      · intro index m hm
        rw [show Service.emitted _ s.runs = s.emitted s.runs from rfl,
          h.fresh s.runs (Nat.le_refl _)] at hm
        cases hm
      · exact h.waiting callback hin id hid
  · exact h

/-- Whoever has what a run has sent keeps it when another one sends. -/
theorem HasSnapshot.sendNewSubscribes {other : Nat} (h : s.HasSnapshot other id)
    (hne : other ≠ callback) (msg : μ) :
    (s.sendNewSubscribes callback msg).HasSnapshot other id := by
  intro index m hm
  have hold : (s.emitted other)[index]? = some m := by
    rw [← hm]
    exact congrArg (·[index]?) (Function.update_of_ne hne _ _).symm
  exact List.mem_append_left _ (h index m hold)

/-- A new subscriber gets what a run sends. -/
theorem HasSnapshot.received (h : s.HasSnapshot callback id) (hid : id ∈ s.newSubscribes)
    (msg : μ) : (s.sendNewSubscribes callback msg).HasSnapshot callback id := by
  intro index m hm
  have hlog : (s.sendNewSubscribes callback msg).emitted callback =
      s.emitted callback ++ [msg] := Function.update_self _ _ _
  rw [hlog] at hm
  rcases getElem?_concat hm with hold | ⟨rfl, rfl⟩
  · exact List.mem_append_left _ (h index m hold)
  · exact List.mem_append_right _ (List.mem_map.mpr ⟨id, hid, rfl⟩)

theorem Inv.sendNewSubscribes (h : s.Inv) (hlive : callback ∈ s.live) (msg : μ) :
    (s.sendNewSubscribes callback msg).Inv where
  needSnapshot := h.needSnapshot
  live := h.live
  fresh := by
    intro other hle
    have hne : other ≠ callback := Nat.ne_of_gt (Nat.lt_of_lt_of_le (h.live callback hlive) hle)
    exact (Function.update_of_ne hne _ _).trans (h.fresh other hle)
  done := h.done
  waiting := by
    intro other hother id hid
    by_cases hne : other = callback
    · subst hne
      exact (h.waiting other hother id hid).received hid msg
    · exact (h.waiting other hother id hid).sendNewSubscribes hne msg
  snapshotted := by
    refine ⟨h.snapshotted.moved, fun other id hmoved => ?_⟩
    have hne : other ≠ callback := by
      rintro rfl
      exact (h.done other id hmoved).1 hlive
    exact (h.snapshotted.sent other id hmoved).sendNewSubscribes hne msg

theorem Inv.swapNewSubscribes (h : s.Inv) (hlive : callback ∈ s.live) :
    (s.swapNewSubscribes callback).Inv where
  needSnapshot := h.needSnapshot
  live := fun other hother => h.live other (List.mem_of_mem_filter hother)
  fresh := h.fresh
  done := by
    intro other id hmoved
    rcases List.mem_append.mp hmoved with hold | hnew
    · obtain ⟨hdead, hlt⟩ := h.done other id hold
      exact ⟨fun hin => hdead (List.mem_of_mem_filter hin), hlt⟩
    · obtain ⟨_, -, heq⟩ := List.mem_map.mp hnew
      cases heq
      refine ⟨fun hin => ?_, h.live _ hlive⟩
      simpa using List.of_mem_filter hin
  waiting := nofun
  snapshotted := by
    constructor
    · intro id hid
      rcases List.mem_union_iff.mp hid with hnew | hold
      · exact ⟨callback, List.mem_append_right _ (List.mem_map.mpr ⟨id, hnew, rfl⟩)⟩
      · obtain ⟨other, hmoved⟩ := h.snapshotted.moved id hold
        exact ⟨other, List.mem_append_left _ hmoved⟩
    · intro other id hmoved
      rcases List.mem_append.mp hmoved with hold | hnew
      · exact h.snapshotted.sent other id hold
      · obtain ⟨id', hid', heq⟩ := List.mem_map.mp hnew
        cases heq
        exact h.waiting callback hlive id hid'

/-- A step without a late subscriber keeps what holds. -/
theorem Inv.step (h : s.Inv) (e : ServiceStep μ) (htime : s.InTime e) : (s.step e).Inv := by
  cases e with
  | onSubscribe id => exact h.onSubscribe htime
  | onUnsubscribe id => exact h.onUnsubscribe id
  | sendShared msg => exact h.deliver s.subscribes (.regular msg)
  | sendTo msg id => exact h.deliver (s.subscribes.filter (· = id)) (.regular msg)
  | sendWithout msg id => exact h.deliver (s.subscribes.filter (· ≠ id)) (.regular msg)
  | snapshot => exact h.snapshot
  | swapSend callback msg =>
    simp only [Service.step]
    split
    · exact h.sendNewSubscribes ‹callback ∈ s.live› msg
    · exact h
  | swapDrop callback =>
    simp only [Service.step]
    split
    · exact h.swapNewSubscribes ‹callback ∈ s.live›
    · exact h

/-- Where nobody subscribes late, every regular subscriber has the whole snapshot that
made it one, in every state that is reached. -/
theorem snapshot_delivered (es : List (ServiceStep μ))
    (htime : Allowed step InTime (new true) es) :
    ∀ pre, pre <+: es → (run step (new true) pre).Snapshotted := by
  rintro pre ⟨rest, rfl⟩
  have hpre := (allowed_append.mp htime).1
  exact (run_keeps (Q := Inv) (fun s e h hok => Inv.step h e hok) inv_new hpre).snapshotted

/-- Two subscribers before a callback sends, and one behind its end. -/
def timelySteps : List (ServiceStep Nat) :=
  [.onSubscribe 1, .onSubscribe 2, .snapshot, .swapSend 0 7, .onUnsubscribe 2, .swapSend 0 8,
   .swapDrop 0, .onSubscribe 3, .sendShared 9]

theorem timelySteps_delivered : (run step (new true) timelySteps).Snapshotted := by
  refine snapshot_delivered timelySteps ⟨?_, ?_, trivial, trivial, trivial, trivial, trivial,
    ?_, trivial, trivial⟩ timelySteps List.prefix_rfl
  all_goals
    simp only [InTime, Late]
    decide

/-- A subscriber that comes between the message of a callback and its end never gets it. -/
theorem snapshot_lost_by_late_subscriber :
    ¬ ∀ es : List (ServiceStep Nat), (run step (new true) es).Snapshotted := by
  intro hall
  have hlost := (hall [.onSubscribe 1, .snapshot, .swapSend 0 7, .onSubscribe 2, .swapDrop 0]).sent
    0 2 (by decide) 0 7 (by decide)
  simp [Service.step, Service.onSubscribe, Service.snapshot, Service.sendNewSubscribes,
    Service.swapNewSubscribes, Service.deliver, new, run] at hlost

end Service

end MDesk
