import MDesk.Core.Table
import MDesk.Server.Service

/-!
# Services of a server

A server keeps its services by their names. Connections subscribe to them and are dropped from
all of them at their end; a display or a camera is a video service of its own, added when
somebody first asks for it. `is_subed` looks into the two tables of a service under two locks,
and the thread of the service may move the new subscribers in between: `subscribe` then takes a
subscriber for none, and a subscription that was to end goes on.
-/

namespace MDesk

open Core

variable {μ : Type*}

/-- What the thread of a service does: everything but subscribing. -/
def ServiceStep.isThread : ServiceStep μ → Bool
  | .onSubscribe _ | .onUnsubscribe _ => false
  | _ => true

abbrev ThreadStep (μ : Type*) := { e : ServiceStep μ // e.isThread = true }

namespace Service

/-- Nobody is a regular and a new subscriber, and only snapshots are waited for. -/
structure Apart (s : Service μ) : Prop where
  apart : ∀ id ∈ s.subscribes, id ∉ s.newSubscribes
  regular : s.needSnapshot = false → s.newSubscribes = []

variable {s : Service μ}

theorem apart_new (needSnapshot : Bool) : (new needSnapshot : Service μ).Apart :=
  ⟨List.forall_mem_nil _, fun _ => rfl⟩

theorem Apart.onSubscribe (h : s.Apart) (id : Int) : (s.onSubscribe id).Apart := by
  unfold Service.onSubscribe
  split_ifs with hold hneed
  · exact h
  · refine ⟨fun i hi hnew => ?_, fun hnone => ?_⟩
    · rcases List.mem_insert_iff.mp hnew with rfl | hin
      · exact hold hi
      · exact h.apart i hi hin
    · rw [show s.needSnapshot = false from hnone] at hneed
      cases hneed
  · have hempty : s.newSubscribes = [] := h.regular (Bool.eq_false_iff.mpr hneed)
    refine ⟨fun i _ hnew => ?_, fun _ => hempty⟩
    rw [show s.newSubscribes = [] from hempty] at hnew
    cases hnew

theorem Apart.onUnsubscribe (h : s.Apart) (id : Int) : (s.onUnsubscribe id).Apart := by
  unfold Service.onUnsubscribe
  split
  · exact ⟨fun i hi => h.apart i (List.mem_of_mem_filter hi), h.regular⟩
  · refine ⟨fun i hi hnew => h.apart i hi (List.mem_of_mem_filter hnew), fun hnone => ?_⟩
    rw [show s.newSubscribes = [] from h.regular hnone]
    rfl

theorem needSnapshot_step (s : Service μ) (e : ServiceStep μ) :
    (s.step e).needSnapshot = s.needSnapshot := by
  cases e with
  | onSubscribe id =>
    simp only [step, onSubscribe]
    split_ifs <;> rfl
  | onUnsubscribe id =>
    simp only [step, onUnsubscribe]
    split_ifs <;> rfl
  | snapshot =>
    simp only [step, snapshot]
    split_ifs <;> rfl
  | swapSend callback msg | swapDrop callback =>
    simp only [step]
    split_ifs <;> rfl
  | sendShared msg | sendTo msg id | sendWithout msg id => rfl

/-- The thread of a service changes the tables only when it ends a snapshot. -/
theorem tables_of_thread (s : Service μ) {e : ServiceStep μ} (h : e.isThread = true) :
    (s.step e).subscribes = s.subscribes ∧ (s.step e).newSubscribes = s.newSubscribes ∨
      (s.step e).subscribes = s.newSubscribes ∪ s.subscribes ∧
        (s.step e).newSubscribes = [] := by
  cases e with
  | onSubscribe id | onUnsubscribe id => cases h
  | snapshot =>
    refine .inl ?_
    simp only [step, snapshot]
    split_ifs <;> exact ⟨rfl, rfl⟩
  | swapSend callback msg =>
    refine .inl ?_
    simp only [step]
    split_ifs <;> exact ⟨rfl, rfl⟩
  | swapDrop callback =>
    simp only [step]
    split_ifs
    · exact .inr ⟨rfl, rfl⟩
    · exact .inl ⟨rfl, rfl⟩
  | sendShared msg | sendTo msg id | sendWithout msg id => exact .inl ⟨rfl, rfl⟩

theorem Apart.thread (h : s.Apart) {e : ServiceStep μ} (he : e.isThread = true) :
    (s.step e).Apart := by
  rcases s.tables_of_thread he with ⟨hsub, hnew⟩ | ⟨-, hnew⟩
  · refine ⟨?_, ?_⟩
    · rw [hsub, hnew]
      exact h.apart
    · rw [hnew, needSnapshot_step]
      exact h.regular
  · refine ⟨fun _ _ hin => ?_, fun _ => hnew⟩
    rw [hnew] at hin
    cases hin

end Service

/-! ## A service -/

/-- `ServiceTmpl`: the tables of a service under its lock. -/
structure ServiceTmpl (μ : Type*) where
  inner : Service μ
  apart : inner.Apart

namespace ServiceTmpl

def new (needSnapshot : Bool) : ServiceTmpl μ := ⟨Service.new needSnapshot, Service.apart_new _⟩

def onSubscribe (t : ServiceTmpl μ) (id : Int) : ServiceTmpl μ :=
  ⟨t.inner.onSubscribe id, t.apart.onSubscribe id⟩

def onUnsubscribe (t : ServiceTmpl μ) (id : Int) : ServiceTmpl μ :=
  ⟨t.inner.onUnsubscribe id, t.apart.onUnsubscribe id⟩

def thread (t : ServiceTmpl μ) (e : ThreadStep μ) : ServiceTmpl μ :=
  ⟨t.inner.step e.1, t.apart.thread e.2⟩

/-- `is_subed`, with what the thread of the service does between its two looks. -/
def isSubed (t : ServiceTmpl μ) (id : Int) (between : List (ThreadStep μ)) : Bool :=
  decide (id ∈ t.inner.subscribes) ||
    decide (id ∈ (run thread t between).inner.newSubscribes)

/-- What `Server::subscribe` does to a service that it finds. -/
def subscribe (t : ServiceTmpl μ) (id : Int) (sub : Bool) (between : List (ThreadStep μ)) :
    ServiceTmpl μ :=
  if t.isSubed id between = sub then run thread t between
  else if sub then (run thread t between).onSubscribe id
  else (run thread t between).onUnsubscribe id

/-- A subscriber in either table. -/
def Subscribed (t : ServiceTmpl μ) (id : Int) : Prop :=
  id ∈ t.inner.subscribes ∨ id ∈ t.inner.newSubscribes

instance (t : ServiceTmpl μ) (id : Int) : Decidable (t.Subscribed id) :=
  inferInstanceAs (Decidable (_ ∨ _))

/-- `is_subed` misses a subscriber that is to be one no more. -/
def loses (t : ServiceTmpl μ) (id : Int) (sub : Bool) (between : List (ThreadStep μ)) : Bool :=
  !sub && decide (t.Subscribed id) && !t.isSubed id between

variable {t : ServiceTmpl μ} {id i : Int} {sub : Bool} {between : List (ThreadStep μ)}

theorem not_subscribed_new (needSnapshot : Bool) :
    ¬ (new needSnapshot : ServiceTmpl μ).Subscribed id := by
  rintro (h | h) <;> cases h

theorem subscribed_onSubscribe : (t.onSubscribe id).Subscribed i ↔ i = id ∨ t.Subscribed i := by
  unfold Subscribed onSubscribe Service.onSubscribe
  dsimp only
  split_ifs with hold hneed
  · exact ⟨.inr, fun h => h.elim (fun heq => .inl (heq ▸ hold)) fun h => h⟩
  · rw [List.mem_insert_iff, or_left_comm]
  · rw [List.mem_insert_iff, or_assoc]

theorem subscribed_onUnsubscribe :
    (t.onUnsubscribe id).Subscribed i ↔ i ≠ id ∧ t.Subscribed i := by
  unfold Subscribed onUnsubscribe Service.onUnsubscribe
  dsimp only
  split_ifs with hold
  · have hnew : i ∈ t.inner.newSubscribes → i ≠ id := by
      rintro hin rfl
      exact t.apart.apart i hold hin
    rw [List.mem_filter, decide_eq_true_eq]
    tauto
  · have hne : i ∈ t.inner.subscribes → i ≠ id := by
      rintro hin rfl
      exact hold hin
    rw [List.mem_filter, decide_eq_true_eq]
    tauto

theorem subscribed_thread (e : ThreadStep μ) : (t.thread e).Subscribed i ↔ t.Subscribed i := by
  unfold Subscribed thread
  dsimp only
  rcases t.inner.tables_of_thread e.2 with ⟨hsub, hnew⟩ | ⟨hsub, hnew⟩
  · rw [hsub, hnew]
  · rw [hsub, hnew, List.mem_union_iff]
    simp only [List.not_mem_nil, or_false]
    exact or_comm

theorem subscribed_threads (es : List (ThreadStep μ)) :
    (run thread t es).Subscribed i ↔ t.Subscribed i := by
  induction es generalizing t with
  | nil => exact Iff.rfl
  | cons e es ih => rw [run_cons, ih, subscribed_thread]

theorem subscribed_of_isSubed (h : t.isSubed id between = true) : t.Subscribed id := by
  rcases Bool.or_eq_true_iff.mp h with hsub | hnew
  · exact .inl (of_decide_eq_true hsub)
  · exact (subscribed_threads between).mp (.inr (of_decide_eq_true hnew))

/-- Behind `subscribe` its caller is what it asked to be, unless it is missed. -/
theorem subscribed_subscribe_self (h : t.loses id sub between = false) :
    (t.subscribe id sub between).Subscribed id ↔ sub = true := by
  unfold subscribe
  by_cases heq : t.isSubed id between = sub
  · rw [if_pos heq, subscribed_threads]
    subst heq
    refine ⟨fun hsub => ?_, subscribed_of_isSubed⟩
    by_contra hmissed
    simp [loses, hsub, hmissed] at h
  · rw [if_neg heq]
    cases sub with
    | true =>
      rw [if_pos rfl, subscribed_onSubscribe]
      exact iff_of_true (.inl rfl) rfl
    | false =>
      rw [if_neg Bool.false_ne_true, subscribed_onUnsubscribe]
      exact iff_of_false (fun hboth => hboth.1 rfl) Bool.false_ne_true

/-- Without asking nobody is subscribed. -/
theorem subscribed_of_subscribe (hsub : sub ≠ true)
    (h : (t.subscribe id sub between).Subscribed i) : t.Subscribed i := by
  unfold subscribe at h
  split_ifs at h
  · exact (subscribed_threads between).mp h
  · exact (subscribed_threads between).mp (subscribed_onUnsubscribe.mp h).2

/-- Nobody else has changed. -/
theorem subscribed_subscribe_of_ne (h : i ≠ id) :
    (t.subscribe id sub between).Subscribed i ↔ t.Subscribed i := by
  unfold subscribe
  split_ifs
  · exact subscribed_threads between
  · rw [subscribed_onSubscribe, subscribed_threads]
    exact or_iff_right h
  · rw [subscribed_onUnsubscribe, subscribed_threads]
    exact and_iff_right h

theorem needSnapshot_threads (es : List (ThreadStep μ)) :
    (run thread t es).inner.needSnapshot = t.inner.needSnapshot := by
  induction es generalizing t with
  | nil => rfl
  | cons e es ih => exact ih.trans (t.inner.needSnapshot_step e.1)

theorem needSnapshot_subscribe :
    (t.subscribe id sub between).inner.needSnapshot = t.inner.needSnapshot := by
  unfold subscribe
  split_ifs
  · exact needSnapshot_threads between
  · exact ((run thread t between).inner.needSnapshot_step (.onSubscribe id)).trans
      (needSnapshot_threads between)
  · exact ((run thread t between).inner.needSnapshot_step (.onUnsubscribe id)).trans
      (needSnapshot_threads between)

/-- Without snapshots nobody is moved between two looks. -/
theorem loses_of_regular (h : t.inner.needSnapshot = false) :
    t.loses id sub between = false := by
  have hnew : id ∉ t.inner.newSubscribes := by
    rw [t.apart.regular h]
    exact List.not_mem_nil
  by_cases hsub : id ∈ t.inner.subscribes
  · simp [loses, isSubed, hsub]
  · simp [loses, Subscribed, hsub, hnew]

end ServiceTmpl

/-! ## The server -/

inductive VideoSource where
  | monitor
  | camera
  deriving DecidableEq, Repr

def VideoSource.serviceNamePrefix : VideoSource → List Char
  | .monitor => "monitor".toList
  | .camera => "camera".toList

/-- `video_service::get_service_name`. -/
def getServiceName (source : VideoSource) (idx : Nat) : List Char :=
  source.serviceNamePrefix ++ (toString idx).toList

def isVideoServiceName (name : List Char) : Bool :=
  VideoSource.monitor.serviceNamePrefix.isPrefixOf name ||
    VideoSource.camera.serviceNamePrefix.isPrefixOf name

/-- The services of a server, and the subscriptions that were to end and go on, as the last
request for them has missed its subscriber. -/
structure Server (μ : Type*) where
  services : Table (List Char) (ServiceTmpl μ) := ∅
  lost : List (List Char × Int) := []

namespace Server

def contains (s : Server μ) (name : List Char) : Bool := (s.services.get name).isSome

def addService (s : Server μ) (name : List Char) (needSnapshot : Bool) : Server μ :=
  { s with services := s.services.insert name (.new needSnapshot) }

/-- A video service is added where there is none of its name. -/
def tryAddVideoService (s : Server μ) (source : VideoSource) (idx : Nat) : Server μ :=
  if s.contains (getServiceName source idx) then s
  else s.addService (getServiceName source idx) true

/-- A request that misses its subscriber. -/
def loses (s : Server μ) (name : List Char) (id : Int) (sub : Bool)
    (between : List Char → List (ThreadStep μ)) : Bool :=
  (s.services.get name).any fun t => t.loses id sub (between name)

def subscribe (s : Server μ) (name : List Char) (id : Int) (sub : Bool)
    (between : List Char → List (ThreadStep μ)) : Server μ where
  services := s.services.modify name fun t => t.subscribe id sub (between name)
  lost :=
    if s.loses name id sub between then (name, id) :: s.lost
    else s.lost.filter (· ≠ (name, id))

/-- The services that a connection for the screen of `primary` gets. -/
def addable (primary : Nat) (noperms : List (List Char)) (name : List Char) : Bool :=
  !(isVideoServiceName name && name != getServiceName .monitor primary) && !noperms.contains name

def addConnection (s : Server μ) (id : Int) (primary : Nat) (noperms : List (List Char)) :
    Server μ :=
  { s with
    services := s.services.mapWithKey fun name t =>
      if addable primary noperms name then t.onSubscribe id else t }

def addCameraConnection (s : Server μ) (id : Int) (primary : Nat) : Server μ :=
  { s with services := s.services.modify (getServiceName .camera primary) (·.onSubscribe id) }

def removeConnection (s : Server μ) (id : Int) : Server μ where
  services := s.services.mapValues (·.onUnsubscribe id)
  lost := s.lost.filter (·.2 ≠ id)

/-- What `capture_displays` does with one service. -/
def captureDisplay (id : Int) (displays : List (List Char)) (incl excl : Bool)
    (between : List Char → List (ThreadStep μ)) (s : Server μ) (name : List Char) : Server μ :=
  if isVideoServiceName name then
    if displays.contains name then if incl then s.subscribe name id true between else s
    else if excl then s.subscribe name id false between
    else s
  else s

def captureDisplays (s : Server μ) (id : Int) (source : VideoSource) (displays : List Nat)
    (incl excl : Bool) (between : List Char → List (ThreadStep μ)) : Server μ :=
  s.services.keys.foldl
    (captureDisplay id (displays.map (getServiceName source)) incl excl between) s

/-- `get_subbed_displays_count`, with what the threads do meanwhile. -/
def getSubbedDisplaysCount (s : Server μ) (id : Int) (between : List Char → List (ThreadStep μ)) :
    Nat × Server μ :=
  ((s.services.entries.filter fun e =>
    isVideoServiceName e.1 && e.2.isSubed id (between e.1)).length,
    { s with
      services := s.services.mapWithKey fun name t => run ServiceTmpl.thread t (between name) })

/-- One step of the thread of a service. -/
def thread (s : Server μ) (name : List Char) (e : ThreadStep μ) : Server μ :=
  { s with services := s.services.modify name (·.thread e) }

def Subscribed (s : Server μ) (name : List Char) (id : Int) : Prop :=
  ∃ t ∈ s.services.get name, t.Subscribed id

variable {s : Server μ} {name n : List Char} {id i : Int} {sub : Bool}
  {between : List Char → List (ThreadStep μ)}

theorem get_modify (s : Server μ) (name n : List Char) (f : ServiceTmpl μ → ServiceTmpl μ) :
    (s.services.modify name f).get n =
      if n = name then (s.services.get name).map f else s.services.get n := Table.get_modify f

/-! ### The services that there are -/

/-- Whether a service needs a snapshot, where there is one of the name. -/
def needs (s : Server μ) (n : List Char) : Option Bool :=
  (s.services.get n).map (·.inner.needSnapshot)

theorem isSome_needs : (s.needs n).isSome = s.contains n := Option.isSome_map

theorem needs_tryAddVideoService {source : VideoSource} {idx : Nat}
    (h : n ≠ getServiceName source idx) :
    (s.tryAddVideoService source idx).needs n = s.needs n := by
  unfold tryAddVideoService
  split_ifs
  · rfl
  · rw [needs, addService, Table.get_insert_ne h, needs]

/-- A video service needs snapshots. -/
theorem needs_tryAddVideoService_self {source : VideoSource} {idx : Nat}
    (h : s.needs (getServiceName source idx) ≠ some false) :
    (s.tryAddVideoService source idx).needs (getServiceName source idx) = some true := by
  unfold tryAddVideoService
  split_ifs with hold
  · rw [← isSome_needs] at hold
    obtain ⟨b, hb⟩ := Option.isSome_iff_exists.mp hold
    cases b with
    | true => exact hb
    | false => exact absurd hb h
  · rw [needs, addService, Table.get_insert_self]
    rfl

theorem needs_of_map {s' : Server μ} {f : ServiceTmpl μ → ServiceTmpl μ}
    (h : s'.services.get n = (s.services.get n).map f)
    (hf : ∀ t, (f t).inner.needSnapshot = t.inner.needSnapshot) : s'.needs n = s.needs n := by
  rw [needs, h, Option.map_map, needs]
  exact congrArg (Option.map · _) (funext hf)

theorem needs_of_modify {s' : Server μ} {f : ServiceTmpl μ → ServiceTmpl μ}
    (h : s'.services = s.services.modify name f)
    (hf : ∀ t, (f t).inner.needSnapshot = t.inner.needSnapshot) : s'.needs n = s.needs n := by
  have hget := s.get_modify name n f
  rw [← h] at hget
  split_ifs at hget with heq
  · subst heq
    exact needs_of_map hget hf
  · rw [needs, hget, needs]

theorem needs_subscribe : (s.subscribe name id sub between).needs n = s.needs n :=
  needs_of_modify rfl fun _ => ServiceTmpl.needSnapshot_subscribe

theorem needs_addConnection {primary : Nat} {noperms : List (List Char)} :
    (s.addConnection id primary noperms).needs n = s.needs n := by
  refine needs_of_map (Table.get_mapWithKey _) fun t => ?_
  split_ifs
  · exact t.inner.needSnapshot_step (.onSubscribe id)
  · rfl

theorem needs_addCameraConnection {primary : Nat} :
    (s.addCameraConnection id primary).needs n = s.needs n :=
  needs_of_modify rfl fun t => t.inner.needSnapshot_step (.onSubscribe id)

theorem needs_removeConnection : (s.removeConnection id).needs n = s.needs n :=
  needs_of_map (Table.get_mapValues _) fun t => t.inner.needSnapshot_step (.onUnsubscribe id)

theorem needs_captureDisplays {source : VideoSource} {displays : List Nat} {incl excl : Bool} :
    (s.captureDisplays id source displays incl excl between).needs n = s.needs n := by
  have hstep : ∀ (s : Server μ) (k : List Char), (captureDisplay id
      (displays.map (getServiceName source)) incl excl between s k).needs n = s.needs n := by
    intro s k
    unfold captureDisplay
    split_ifs
    exacts [needs_subscribe, rfl, needs_subscribe, rfl, rfl]
  unfold captureDisplays
  induction s.services.keys generalizing s with
  | nil => rfl
  | cons k names ih => exact ih.trans (hstep s k)

theorem needs_getSubbedDisplaysCount :
    (s.getSubbedDisplaysCount id between).2.needs n = s.needs n :=
  needs_of_map (Table.get_mapWithKey _) fun _ => ServiceTmpl.needSnapshot_threads _

theorem needs_thread {e : ThreadStep μ} : (s.thread name e).needs n = s.needs n :=
  needs_of_modify rfl fun t => t.inner.needSnapshot_step e.1

/-- Nothing is lost of a service without snapshots, or of one that there is not. -/
theorem not_mem_lost_subscribe (h : s.needs name ≠ some true) :
    (name, id) ∉ (s.subscribe name id sub between).lost := by
  have hfound : s.loses name id sub between = false := by
    unfold loses
    unfold needs at h
    cases hget : s.services.get name with
    | none => rfl
    | some t =>
      rw [hget] at h
      refine ServiceTmpl.loses_of_regular (Bool.eq_false_iff.mpr fun hneeds => h ?_)
      exact congrArg some hneeds
  unfold subscribe
  dsimp only
  rw [hfound, if_neg Bool.false_ne_true]
  simp

/-! ### Who is subscribed -/

theorem contains_of_subscribed (h : s.Subscribed n i) : s.contains n = true := by
  obtain ⟨t, ht, -⟩ := h
  exact Option.isSome_of_mem ht

/-- A service that is added has no subscribers. -/
theorem subscribed_tryAddVideoService {source : VideoSource} {idx : Nat} :
    (s.tryAddVideoService source idx).Subscribed n i ↔ s.Subscribed n i := by
  unfold tryAddVideoService
  split_ifs with hold
  · exact Iff.rfl
  · unfold Subscribed addService
    simp only [Table.get_insert]
    split_ifs with heq
    · subst heq
      have hnone : s.services.get (getServiceName source idx) = none := by
        simpa [contains] using hold
      rw [hnone]
      constructor
      · rintro ⟨t, ht, hsub⟩
        cases Option.mem_some_iff.mp ht
        exact absurd hsub (ServiceTmpl.not_subscribed_new true)
      · rintro ⟨t, ht, -⟩
        cases ht
    · exact Iff.rfl

/-- What a change of the services makes of a subscription. -/
theorem subscribed_of_map {u : Server μ} {f : ServiceTmpl μ → ServiceTmpl μ} {p : Prop → Prop}
    (h : u.services.get n = (s.services.get n).map f)
    (hf : ∀ t ∈ s.services.get n, ((f t).Subscribed i ↔ p (t.Subscribed i)))
    (hcongr : ∀ {a b : Prop}, (a ↔ b) → (p a ↔ p b)) :
    u.Subscribed n i ↔ s.contains n = true ∧ p (s.Subscribed n i) := by
  cases hget : s.services.get n with
  | none =>
    rw [hget] at h
    refine iff_of_false ?_ fun hboth => ?_
    · rintro ⟨t, ht, -⟩
      rw [h] at ht
      cases ht
    · rw [contains, hget] at hboth
      cases hboth.1
  | some t =>
    have hold : s.Subscribed n i ↔ t.Subscribed i := by
      unfold Subscribed
      rw [hget]
      simp
    have hnew : u.Subscribed n i ↔ (f t).Subscribed i := by
      unfold Subscribed
      rw [h, hget]
      simp
    rw [hnew, hf t hget, hcongr hold, contains, hget]
    exact (and_iff_right rfl).symm

theorem lost_subscribe_of_ne (h : (n, i) ≠ (name, id)) :
    (n, i) ∈ (s.subscribe name id sub between).lost ↔ (n, i) ∈ s.lost := by
  unfold subscribe
  dsimp only
  split_ifs
  · rw [List.mem_cons]
    exact or_iff_right h
  · rw [List.mem_filter, decide_eq_true_eq]
    exact and_iff_left h

/-- Behind a request its caller is what it asked to be, unless it is missed. -/
theorem subscribed_subscribe_self (h : (n, id) ∉ (s.subscribe n id sub between).lost) :
    (s.subscribe n id sub between).Subscribed n id ↔ s.contains n = true ∧ sub = true := by
  have hget := s.get_modify n n fun t => t.subscribe id sub (between n)
  rw [if_pos rfl] at hget
  have hfound : s.loses n id sub between = false := by
    by_contra hlost
    rw [Bool.not_eq_false] at hlost
    unfold subscribe at h
    dsimp only at h
    rw [if_pos hlost] at h
    exact h List.mem_cons_self
  refine subscribed_of_map (u := s.subscribe n id sub between) (p := fun _ => sub = true) hget
    (fun t ht => ?_) fun _ => Iff.rfl
  apply ServiceTmpl.subscribed_subscribe_self
  rw [loses, Option.mem_def.mp ht] at hfound
  exact hfound

/-- Only who asks for it gets a subscription. -/
theorem subscribed_of_subscribe (h : (s.subscribe name id sub between).Subscribed n i) :
    s.Subscribed n i ∨ n = name ∧ sub = true := by
  by_contra hnot
  have hget := s.get_modify name n fun t => t.subscribe id sub (between name)
  obtain ⟨t', ht', hsub⟩ := h
  rw [show (s.subscribe name id sub between).services.get n = _ from hget] at ht'
  split_ifs at ht' with heq
  · subst heq
    obtain ⟨t, ht, rfl⟩ := Option.map_eq_some_iff.mp ht'
    have hold : ¬ t.Subscribed i := fun hold => hnot (.inl ⟨t, ht, hold⟩)
    exact hold (ServiceTmpl.subscribed_of_subscribe (fun hb => hnot (.inr ⟨rfl, hb⟩)) hsub)
  · exact hnot (.inl ⟨t', ht', hsub⟩)

/-- No other subscription has changed. -/
theorem subscribed_subscribe_of_ne (h : (n, i) ≠ (name, id)) :
    (s.subscribe name id sub between).Subscribed n i ↔ s.Subscribed n i := by
  have hget := s.get_modify name n fun t => t.subscribe id sub (between name)
  split_ifs at hget with heq
  · subst heq
    have hne : i ≠ id := by
      rintro rfl
      exact h rfl
    refine (subscribed_of_map (u := s.subscribe n id sub between) (p := fun a => a) hget
      (fun t _ => ServiceTmpl.subscribed_subscribe_of_ne hne) fun h => h).trans ?_
    exact and_iff_right_of_imp contains_of_subscribed
  · unfold Subscribed
    rw [show (s.subscribe name id sub between).services.get n = s.services.get n from hget]

theorem subscribed_addConnection {primary : Nat} {noperms : List (List Char)} :
    (s.addConnection id primary noperms).Subscribed n i ↔
      s.Subscribed n i ∨ s.contains n = true ∧ i = id ∧ addable primary noperms n = true := by
  have hget := Table.get_mapWithKey (t := s.services) (k := n) fun name t =>
    if addable primary noperms name then t.onSubscribe id else t
  rw [subscribed_of_map (u := s.addConnection id primary noperms)
    (p := fun a => i = id ∧ addable primary noperms n = true ∨ a) hget (fun t _ => ?_)
    or_congr_right]
  · constructor
    · rintro ⟨hin, hadd | hold⟩
      · exact .inr ⟨hin, hadd⟩
      · exact .inl hold
    · rintro (hold | ⟨hin, hadd⟩)
      · exact ⟨contains_of_subscribed hold, .inr hold⟩
      · exact ⟨hin, .inl hadd⟩
  · split_ifs with hadd
    · rw [ServiceTmpl.subscribed_onSubscribe, and_iff_left hadd]
    · rw [or_iff_right fun hboth => hadd hboth.2]

theorem subscribed_addCameraConnection {primary : Nat} :
    (s.addCameraConnection id primary).Subscribed n i ↔
      s.Subscribed n i ∨
        s.contains n = true ∧ n = getServiceName .camera primary ∧ i = id := by
  have hget := s.get_modify (getServiceName .camera primary) n (·.onSubscribe id)
  split_ifs at hget with heq
  · subst heq
    rw [subscribed_of_map (u := s.addCameraConnection id primary) (p := fun a => i = id ∨ a) hget
      (fun t _ => ServiceTmpl.subscribed_onSubscribe) or_congr_right]
    have hin : s.Subscribed (getServiceName .camera primary) i → _ := contains_of_subscribed
    tauto
  · unfold Subscribed
    rw [show (s.addCameraConnection id primary).services.get n = s.services.get n from hget]
    exact (or_iff_left fun hboth => heq hboth.2.1).symm

theorem subscribed_removeConnection :
    (s.removeConnection id).Subscribed n i ↔ i ≠ id ∧ s.Subscribed n i := by
  have hget := Table.get_mapValues (t := s.services) (k := n) (·.onUnsubscribe id)
  rw [subscribed_of_map (u := s.removeConnection id) (p := fun a => i ≠ id ∧ a) hget
    (fun t _ => ServiceTmpl.subscribed_onUnsubscribe) and_congr_right']
  exact ⟨And.right, fun h => ⟨contains_of_subscribed h.2, h⟩⟩

/-- Two servers have the same service of a name, and have lost the same of it. -/
def SameAt (n : List Char) (s s' : Server μ) : Prop :=
  s'.services.get n = s.services.get n ∧ ∀ i, (n, i) ∈ s'.lost ↔ (n, i) ∈ s.lost

theorem SameAt.subscribed {s' : Server μ} (h : SameAt n s s') :
    s'.Subscribed n i ↔ s.Subscribed n i := by
  unfold Subscribed
  rw [h.1]

theorem SameAt.trans {s' s'' : Server μ} (h : SameAt n s s') (h' : SameAt n s' s'') :
    SameAt n s s'' := ⟨h'.1.trans h.1, fun i => (h'.2 i).trans (h.2 i)⟩

theorem sameAt_subscribe (h : n ≠ name) : SameAt n s (s.subscribe name id sub between) := by
  refine ⟨?_, fun i => lost_subscribe_of_ne fun heq => h (congrArg Prod.fst heq)⟩
  rw [subscribe, Table.get_modify, if_neg h]

theorem SameAt.subscribe {s' : Server μ} (h : SameAt n s s') :
    SameAt n (s.subscribe n id sub between) (s'.subscribe n id sub between) := by
  refine ⟨?_, fun i => ?_⟩
  · rw [Server.subscribe, Server.subscribe, Table.get_modify, Table.get_modify, if_pos rfl,
      if_pos rfl, h.1]
  · have hloses : s'.loses n id sub between = s.loses n id sub between := by
      rw [loses, loses, h.1]
    unfold Server.subscribe
    dsimp only
    rw [hloses]
    split_ifs
    · rw [List.mem_cons, List.mem_cons, h.2]
    · rw [List.mem_filter, List.mem_filter, h.2]

section CaptureDisplays

variable {displays : List (List Char)} {incl excl : Bool}

theorem sameAt_captureDisplay (h : n ≠ name) :
    SameAt n s (captureDisplay id displays incl excl between s name) := by
  have hrefl : SameAt n s s := ⟨rfl, fun _ => Iff.rfl⟩
  unfold captureDisplay
  split_ifs
  exacts [sameAt_subscribe h, hrefl, sameAt_subscribe h, hrefl, hrefl]

theorem SameAt.captureDisplay {s' : Server μ} (h : SameAt n s s') :
    SameAt n (captureDisplay id displays incl excl between s n)
      (captureDisplay id displays incl excl between s' n) := by
  unfold Server.captureDisplay
  split_ifs
  exacts [h.subscribe, h, h.subscribe, h, h]

/-- Each service is looked at once. -/
theorem sameAt_foldl_captureDisplay {names : List (List Char)} (hnodup : names.Nodup) :
    SameAt n (if n ∈ names then captureDisplay id displays incl excl between s n else s)
      (names.foldl (captureDisplay id displays incl excl between) s) := by
  induction names generalizing s with
  | nil => exact ⟨rfl, fun _ => Iff.rfl⟩
  | cons k names ih =>
    obtain ⟨hk, hrest⟩ := List.nodup_cons.mp hnodup
    rw [List.foldl_cons]
    refine SameAt.trans ?_ (ih hrest)
    by_cases heq : n = k
    · subst heq
      rw [if_neg hk, if_pos List.mem_cons_self]
      exact ⟨rfl, fun _ => Iff.rfl⟩
    · simp only [List.mem_cons, heq, false_or]
      have hsame : SameAt n s (captureDisplay id displays incl excl between s k) :=
        sameAt_captureDisplay heq
      split_ifs
      · exact hsame.captureDisplay
      · exact hsame

variable {source : VideoSource} {idxs : List Nat}

theorem captureDisplays_of_contains (h : s.contains n = true) :
    SameAt n (captureDisplay id (idxs.map (getServiceName source)) incl excl between s n)
      (s.captureDisplays id source idxs incl excl between) := by
  have hall : SameAt n
      (if n ∈ s.services.keys then
        captureDisplay id (idxs.map (getServiceName source)) incl excl between s n
      else s) (s.captureDisplays id source idxs incl excl between) :=
    sameAt_foldl_captureDisplay s.services.keys_nodup
  rwa [if_pos (AList.mem_keys.mp (AList.lookup_isSome.mp h))] at hall

/-- A request for displays is about nobody else, and about nothing but displays. -/
theorem captureDisplays_of_ne (h : i ≠ id ∨ isVideoServiceName n = false) :
    ((s.captureDisplays id source idxs incl excl between).Subscribed n i ↔ s.Subscribed n i) ∧
      ((n, i) ∈ (s.captureDisplays id source idxs incl excl between).lost ↔ (n, i) ∈ s.lost) := by
  have hstep : ∀ (s : Server μ) (k : List Char),
      ((captureDisplay id (idxs.map (getServiceName source)) incl excl between s k).Subscribed n i ↔
          s.Subscribed n i) ∧
        ((n, i) ∈ (captureDisplay id (idxs.map (getServiceName source)) incl excl between s
          k).lost ↔ (n, i) ∈ s.lost) := by
    intro s k
    unfold captureDisplay
    by_cases hvideo : isVideoServiceName k = true
    · have hne : (n, i) ≠ (k, id) := by
        rintro heq
        cases heq
        rcases h with hi | hn
        · exact hi rfl
        · rw [hn] at hvideo
          cases hvideo
      rw [if_pos hvideo]
      split_ifs
      exacts [⟨subscribed_subscribe_of_ne hne, lost_subscribe_of_ne hne⟩, ⟨Iff.rfl, Iff.rfl⟩,
        ⟨subscribed_subscribe_of_ne hne, lost_subscribe_of_ne hne⟩, ⟨Iff.rfl, Iff.rfl⟩]
    · rw [if_neg hvideo]
      exact ⟨Iff.rfl, Iff.rfl⟩
  unfold captureDisplays
  induction s.services.keys generalizing s with
  | nil => exact ⟨Iff.rfl, Iff.rfl⟩
  | cons k names ih => exact ⟨ih.1.trans (hstep s k).1, ih.2.trans (hstep s k).2⟩

/-- A connection gets only displays that it asks for. -/
theorem subscribed_of_captureDisplays
    (h : (s.captureDisplays id source idxs incl excl between).Subscribed n i) :
    s.Subscribed n i ∨ n ∈ idxs.map (getServiceName source) := by
  have hstep : ∀ (s : Server μ) (k : List Char),
      (captureDisplay id (idxs.map (getServiceName source)) incl excl between s k).Subscribed n i →
        s.Subscribed n i ∨ n ∈ idxs.map (getServiceName source) := by
    intro s k hk
    unfold captureDisplay at hk
    split_ifs at hk with hvideo hmem hincl hexcl
    · rcases subscribed_of_subscribe hk with hold | ⟨rfl, -⟩
      · exact .inl hold
      · exact .inr (List.contains_iff_mem.mp hmem)
    · exact .inl hk
    · rcases subscribed_of_subscribe hk with hold | ⟨-, hb⟩
      · exact .inl hold
      · cases hb
    · exact .inl hk
    · exact .inl hk
  unfold captureDisplays at h
  generalize s.services.keys = names at h
  induction names generalizing s with
  | nil => exact .inl h
  | cons k names ih =>
    rcases ih h with hold | hin
    · exact hstep s k hold
    · exact .inr hin

/-- The displays that a connection asks for are added to what it gets, and the others are taken
away where it says so. -/
theorem subscribed_captureDisplays (hvideo : isVideoServiceName n = true)
    (h : (n, id) ∉ (s.captureDisplays id source idxs incl excl between).lost) :
    (s.captureDisplays id source idxs incl excl between).Subscribed n id ↔
      if n ∈ idxs.map (getServiceName source) then
        s.contains n = true ∧ incl = true ∨ s.Subscribed n id
      else excl = false ∧ s.Subscribed n id := by
  have hin : s.Subscribed n id → s.contains n = true := contains_of_subscribed
  by_cases hcontains : s.contains n = true
  · have hsame : SameAt n
        (captureDisplay id (idxs.map (getServiceName source)) incl excl between s n)
        (s.captureDisplays id source idxs incl excl between) :=
      captureDisplays_of_contains hcontains
    rw [hsame.2 id] at h
    rw [hsame.subscribed]
    unfold captureDisplay at h ⊢
    rw [if_pos hvideo] at h ⊢
    by_cases hmem : n ∈ idxs.map (getServiceName source)
    · rw [if_pos (List.contains_iff_mem.mpr hmem)] at h ⊢
      rw [if_pos hmem]
      cases incl with
      | true =>
        rw [if_pos rfl] at h ⊢
        rw [subscribed_subscribe_self h]
        tauto
      | false =>
        rw [if_neg Bool.false_ne_true]
        simp
    · rw [if_neg fun hc => hmem (List.contains_iff_mem.mp hc)] at h ⊢
      rw [if_neg hmem]
      cases excl with
      | true =>
        rw [if_pos rfl] at h ⊢
        rw [subscribed_subscribe_self h]
        simp
      | false =>
        rw [if_neg Bool.false_ne_true]
        simp
  · have hnone : ¬ (s.captureDisplays id source idxs incl excl between).Subscribed n id := by
      intro hsub
      apply hcontains
      have hneeds : (s.captureDisplays id source idxs incl excl between).needs n = s.needs n :=
        needs_captureDisplays
      rw [← isSome_needs, ← hneeds, isSome_needs]
      exact contains_of_subscribed hsub
    refine iff_of_false hnone ?_
    split_ifs
    · tauto
    · tauto

end CaptureDisplays

theorem subscribed_thread {e : ThreadStep μ} :
    (s.thread name e).Subscribed n i ↔ s.Subscribed n i := by
  have hget := s.get_modify name n (·.thread e)
  split_ifs at hget with heq
  · subst heq
    refine (subscribed_of_map (u := s.thread n e) (p := fun a => a) hget
      (fun t _ => ServiceTmpl.subscribed_thread e) fun h => h).trans ?_
    exact and_iff_right_of_imp contains_of_subscribed
  · unfold Subscribed
    rw [show (s.thread name e).services.get n = s.services.get n from hget]

theorem subscribed_getSubbedDisplaysCount :
    (s.getSubbedDisplaysCount id between).2.Subscribed n i ↔ s.Subscribed n i := by
  have hget := Table.get_mapWithKey (t := s.services) (k := n) fun name t =>
    run ServiceTmpl.thread t (between name)
  refine (subscribed_of_map (u := (s.getSubbedDisplaysCount id between).2) (p := fun a => a) hget
    (fun t _ => ServiceTmpl.subscribed_threads (between n)) fun h => h).trans ?_
  exact and_iff_right_of_imp contains_of_subscribed

end Server

end MDesk
