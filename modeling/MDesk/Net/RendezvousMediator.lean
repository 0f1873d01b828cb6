import Mathlib.Logic.Function.Basic
import MDesk.Core.Run
import MDesk.Net.AddrMangle

/-!
# Duplicate requests of a rendezvous server

A rendezvous server may repeat a request, so a handler skips one of the address that came last. The
handlers are tasks of their own: they read the last address under one lock and write it under
another, and both requests to punch a hole and requests for the local address share one. A request
starts one connection where the handlers run one after another without delay.
-/

namespace MDesk.RendezvousMediator

open Core

/-- `LAST_MSG` and `LAST_RELAY_MSG`. -/
inductive Slot where
  | lastMsg
  | lastRelayMsg
  deriving DecidableEq, Repr

inductive Kind where
  | punchHole
  | fetchLocalAddr
  | requestRelay
  deriving DecidableEq, Repr

/-- Where the handler of a request looks for the last address. -/
def Kind.slot : Kind → Slot
  | .punchHole => .lastMsg
  | .fetchLocalAddr => .lastMsg
  | .requestRelay => .lastRelayMsg

/-- A request with the address of the peer and the time it came in. -/
structure Request where
  kind : Kind
  addr : SocketAddr
  received : Nat
  deriving DecidableEq

/-- The last address of a slot with its time, as a handler has read it, and what the handler has
done since. -/
inductive Phase where
  | spawned
  | read (last : SocketAddr × Nat)
  | written (last : SocketAddr × Nat)
  | done (attempt : Bool)
  deriving DecidableEq

def Phase.isDone : Phase → Bool
  | .done _ => true
  | _ => false

/-- The handler has written its address. -/
def Phase.wrote : Phase → Bool
  | .written _ => true
  | .done _ => true
  | _ => false

/-- `Duration::as_millis` of nanoseconds. -/
def asMillis (nanos : Nat) : Nat := nanos / 1000000

/-- The address that the slots begin with. -/
def unspecified : SocketAddr := .v4 ⟨0, 0, 0, 0⟩ 0

/-- The time in nanoseconds, the slots, which are set up when they are first read, the requests in
the order they came in, and the handlers of them. -/
structure Mediator where
  now : Nat := 0
  slots : Slot → Option (SocketAddr × Nat) := fun _ => none
  requests : List Request := []
  phases : Nat → Phase := fun _ => .spawned

inductive Event where
  | tick (nanos : Nat)
  | receive (kind : Kind) (addr : SocketAddr)
  /-- The handler of a request reads the last address. -/
  | read (i : Nat)
  | write (i : Nat)
  | decide (i : Nat)
  deriving DecidableEq

namespace Mediator

variable (s : Mediator)

def setPhase (i : Nat) (p : Phase) : Mediator := { s with phases := Function.update s.phases i p }

def setSlot (k : Slot) (last : SocketAddr × Nat) : Mediator :=
  { s with slots := Function.update s.slots k (some last) }

/-- What is read of a slot. -/
def last (k : Slot) : SocketAddr × Nat := (s.slots k).getD (unspecified, s.now)

/-- A request is skipped where its address is the last one, of less than 100 ms ago. -/
def isDuplicate (addr : SocketAddr) (last : SocketAddr × Nat) : Bool :=
  last.1 = addr && asMillis (s.now - last.2) < 100

def step (s : Mediator) : Event → Mediator
  | .tick nanos => { s with now := s.now + nanos }
  | .receive kind addr => { s with requests := s.requests ++ [⟨kind, addr, s.now⟩] }
  | .read i =>
    match s.requests[i]?, s.phases i with
    | some r, .spawned =>
      (s.setSlot r.kind.slot (s.last r.kind.slot)).setPhase i (.read (s.last r.kind.slot))
    | _, _ => s
  | .write i =>
    match s.requests[i]?, s.phases i with
    | some r, .read last => (s.setSlot r.kind.slot (r.addr, s.now)).setPhase i (.written last)
    | _, _ => s
  | .decide i =>
    match s.requests[i]?, s.phases i with
    | some r, .written last => s.setPhase i (.done !s.isDuplicate r.addr last)
    | _, _ => s

/-- A request repeats an earlier one. -/
def Repeats (q r : Request) : Prop :=
  q.kind = r.kind ∧ q.addr = r.addr ∧ asMillis (r.received - q.received) < 100

instance (q r : Request) : Decidable (Repeats q r) := inferInstanceAs (Decidable (_ ∧ _))

/-- Of a request and one that repeats it only one leads to an attempt to connect. -/
def Once : Prop := ∀ i j q r, i < j → s.requests[i]? = some q → s.requests[j]? = some r →
  Repeats q r → ¬ (s.phases i = .done true ∧ s.phases j = .done true)

/-- No earlier request was of the address. -/
def Unseen (j : Nat) (r : Request) : Prop := ∀ q ∈ s.requests.take j, q.addr ≠ r.addr

/-- The first request of an address leads to an attempt. -/
def FirstAttempts : Prop := ∀ j r attempt, s.requests[j]? = some r →
  s.phases j = .done attempt → s.Unseen j r → attempt = true

/-- A request comes in when the handlers of its slot are done, and it is of no address that the slot
begins with. Where it repeats another one, the slot still has its address. Time passes when all
handlers are done. -/
def Prompt (s : Mediator) : Event → Prop
  | .tick _ => ∀ i < s.requests.length, (s.phases i).isDone = true
  | .receive kind addr =>
    addr ≠ unspecified ∧
      (∀ i < s.requests.length, ((s.requests[i]?).map fun q => q.kind.slot) = some kind.slot →
        (s.phases i).isDone = true) ∧
      ((∃ q ∈ s.requests, Repeats q ⟨kind, addr, s.now⟩) →
        (s.slots kind.slot).map Prod.fst = some addr)
  | _ => True

instance (e : Event) : Decidable (s.Prompt e) := by
  unfold Prompt
  split <;> infer_instance

/-! ## The handlers one after another -/

/-- What a handler knows of the requests before its own. -/
def Knows (j : Nat) (r : Request) : Prop :=
  match s.phases j with
  | .spawned => (∃ q ∈ s.requests.take j, Repeats q r) →
      (s.slots r.kind.slot).map Prod.fst = some r.addr
  | .read last | .written last =>
    (∀ q ∈ s.requests.take j, Repeats q r → last.1 = r.addr ∧ q.received ≤ last.2) ∧
      (s.Unseen j r → last.1 ≠ r.addr)
  | .done attempt =>
    (attempt = true → ∀ q ∈ s.requests.take j, ¬ Repeats q r) ∧ (s.Unseen j r → attempt = true)

structure Inv : Prop where
  fresh : ∀ i, s.requests.length ≤ i → s.phases i = .spawned
  time : ∀ r ∈ s.requests, r.received ≤ s.now
  addr : ∀ r ∈ s.requests, r.addr ≠ unspecified
  busy : ∀ j r, s.requests[j]? = some r → (s.phases j).isDone = false → r.received = s.now ∧
    ∀ i q, s.requests[i]? = some q → i ≠ j → q.kind.slot = r.kind.slot →
      i < j ∧ (s.phases i).isDone = true
  slot : ∀ i q, s.requests[i]? = some q → (s.phases i).wrote = true →
    ∃ last, s.slots q.kind.slot = some last ∧ q.received ≤ last.2
  seen : ∀ k last, s.slots k = some last → last.1 = unspecified ∨ ∃ i q,
    s.requests[i]? = some q ∧ q.kind.slot = k ∧ q.addr = last.1 ∧ (s.phases i).wrote = true
  knows : ∀ j r, s.requests[j]? = some r → s.Knows j r

variable {s} {s' : Mediator} {i j : Nat} {q r : Request} {p : Phase} {k k' : Slot}
  {last : SocketAddr × Nat}

theorem setPhase_phases : (s.setPhase i p).phases j = if j = i then p else s.phases j :=
  Function.update_apply s.phases i p j

theorem setSlot_slots : (s.setSlot k last).slots k' = if k' = k then some last else s.slots k' :=
  Function.update_apply s.slots k (some last) k'

theorem mem_take_iff : q ∈ s.requests.take j ↔ ∃ i < j, s.requests[i]? = some q := by
  rw [List.mem_iff_getElem?]
  refine exists_congr fun i => ?_
  rw [List.getElem?_take]
  split_ifs with hlt
  · exact ⟨fun h => ⟨hlt, h⟩, fun h => h.2⟩
  · exact ⟨nofun, fun h => absurd h.1 hlt⟩

theorem wrote_of_isDone (h : p.isDone = true) : p.wrote = true := by
  cases p <;> first | rfl | cases h

theorem Inv.once (h : s.Inv) : s.Once := by
  rintro i j q r hij hi hj hrepeats ⟨-, hdone⟩
  have hknows := h.knows j r hj
  rw [Knows, hdone] at hknows
  refine hknows.1 rfl q ?_ hrepeats
  exact mem_take_iff.mpr ⟨i, hij, hi⟩

theorem Inv.firstAttempts (h : s.Inv) : s.FirstAttempts := by
  intro j r attempt hj hdone hunseen
  have hknows := h.knows j r hj
  rw [Knows, hdone] at hknows
  exact hknows.2 hunseen

theorem inv_init : ({} : Mediator).Inv where
  fresh := fun _ _ => rfl
  time := fun _ h => nomatch h
  addr := fun _ h => nomatch h
  busy := fun _ _ h => nomatch h
  slot := fun _ _ h => nomatch h
  seen := fun _ _ h => nomatch h
  knows := fun _ _ h => nomatch h

theorem Inv.tick (h : s.Inv) (n : Nat)
    (hdone : ∀ i < s.requests.length, (s.phases i).isDone = true) :
    Inv { s with now := s.now + n } where
  fresh := h.fresh
  time := fun r hr => (h.time r hr).trans (Nat.le_add_right _ _)
  addr := h.addr
  busy := fun j r hj hbusy => by
    have hlt := (List.getElem?_eq_some_iff.mp hj).1
    rw [hdone j hlt] at hbusy
    cases hbusy
  slot := h.slot
  seen := h.seen
  knows := h.knows

theorem Inv.receive (h : s.Inv) (kind : Kind) (addr : SocketAddr)
    (he : s.Prompt (.receive kind addr)) :
    Inv { s with requests := s.requests ++ [⟨kind, addr, s.now⟩] } := by
  obtain ⟨haddr, hdone, hslot⟩ := he
  have hold {i : Nat} {q : Request} (hi : (s.requests ++ [⟨kind, addr, s.now⟩])[i]? = some q) :
      s.requests[i]? = some q ∨ i = s.requests.length ∧ (⟨kind, addr, s.now⟩ : Request) = q :=
    getElem?_concat hi
  have hlt {i : Nat} {q : Request} (hi : s.requests[i]? = some q) : i < s.requests.length :=
    (List.getElem?_eq_some_iff.mp hi).1
  have hnew : s.phases s.requests.length = .spawned := h.fresh _ (Nat.le_refl _)
  constructor
  · intro i hi
    rw [List.length_append] at hi
    exact h.fresh i (by omega)
  · intro r hr
    rcases List.mem_append.mp hr with hr | hr
    · exact h.time r hr
    · rw [List.mem_singleton.mp hr]
  · intro r hr
    rcases List.mem_append.mp hr with hr | hr
    · exact h.addr r hr
    · rw [List.mem_singleton.mp hr]
      exact haddr
  · intro j r hj hbusy
    rcases hold hj with hj | ⟨rfl, rfl⟩
    · refine ⟨(h.busy j r hj hbusy).1, fun i q hi hne hkind => ?_⟩
      rcases hold hi with hi | ⟨rfl, rfl⟩
      · exact (h.busy j r hj hbusy).2 i q hi hne hkind
      · have hj' := hdone j (hlt hj) (by rw [hj, Option.map_some, hkind])
        rw [hj'] at hbusy
        cases hbusy
    · refine ⟨rfl, fun i q hi hne hkind => ?_⟩
      rcases hold hi with hi | ⟨rfl, -⟩
      · exact ⟨hlt hi, hdone i (hlt hi) (by rw [hi, Option.map_some, hkind])⟩
      · exact absurd rfl hne
  · intro i q hi hwrote
    rcases hold hi with hi | ⟨rfl, rfl⟩
    · exact h.slot i q hi hwrote
    · rw [hnew] at hwrote
      cases hwrote
  · intro k last hk
    refine (h.seen k last hk).imp_right ?_
    rintro ⟨i, q, hi, hrest⟩
    exact ⟨i, q, getElem?_extend (List.prefix_append s.requests _) hi, hrest⟩
  · intro j r hj
    have htake (hle : j ≤ s.requests.length) :
        (s.requests ++ [(⟨kind, addr, s.now⟩ : Request)]).take j = s.requests.take j :=
      List.take_append_of_le_length hle
    rcases hold hj with hj | ⟨rfl, rfl⟩
    · have hknows := h.knows j r hj
      unfold Knows Unseen at hknows ⊢
      rw [htake (Nat.le_of_lt (hlt hj))]
      exact hknows
    · unfold Knows
      rw [htake (Nat.le_refl _), hnew, List.take_length]
      exact hslot

/-- The requests of a slot that another handler is at work in are done. -/
theorem Inv.slot_ne (h : s.Inv) (hj : s.requests[j]? = some r) (hbusy : (s.phases j).isDone = false)
    (hi : s.requests[i]? = some q) (hne : i ≠ j) (hbusy' : (s.phases i).isDone = false) :
    q.kind.slot ≠ r.kind.slot := by
  intro hkind
  have hdone := ((h.busy j r hj hbusy).2 i q hi hne hkind).2
  rw [hdone] at hbusy'
  cases hbusy'

/-- A handler at work goes on. It may change its own slot. -/
theorem Inv.advance (h : s.Inv) (hj : s.requests[j]? = some r) (hbusy : (s.phases j).isDone = false)
    (hrequests : s'.requests = s.requests) (hnow : s'.now = s.now)
    (hphases : ∀ i ≠ j, s'.phases i = s.phases i)
    (hwrote : (s.phases j).wrote = true → (s'.phases j).wrote = true)
    (hslots : ∀ k ≠ r.kind.slot, s'.slots k = s.slots k)
    (hslot : ∀ i q, s.requests[i]? = some q → q.kind.slot = r.kind.slot →
      (s'.phases i).wrote = true → ∃ last, s'.slots r.kind.slot = some last ∧ q.received ≤ last.2)
    (hseen : ∀ last, s'.slots r.kind.slot = some last → last.1 = unspecified ∨ ∃ i q,
      s.requests[i]? = some q ∧ q.kind.slot = r.kind.slot ∧ q.addr = last.1 ∧
        (s'.phases i).wrote = true)
    (hknows : s'.Knows j r) : s'.Inv := by
  have hstill {i : Nat} (hi : (s.phases i).wrote = true) : (s'.phases i).wrote = true := by
    by_cases heq : i = j
    · rw [heq] at hi ⊢
      exact hwrote hi
    · rw [hphases i heq]
      exact hi
  have hsame {i : Nat} {q : Request} (hi : s.requests[i]? = some q) (heq : i = j) : r = q := by
    rw [heq, hj] at hi
    exact Option.some.inj hi
  constructor
  · intro i hi
    rw [hrequests] at hi
    have hlt := (List.getElem?_eq_some_iff.mp hj).1
    rw [hphases i (by omega)]
    exact h.fresh i hi
  · rw [hrequests, hnow]
    exact h.time
  · rw [hrequests]
    exact h.addr
  · intro i q hi hbusy'
    rw [hrequests] at hi ⊢
    rw [hnow]
    have hold : (s.phases i).isDone = false := by
      by_cases heq : i = j
      · rw [heq]
        exact hbusy
      · rw [← hphases i heq]
        exact hbusy'
    refine ⟨(h.busy i q hi hold).1, fun i' q' hi' hne hkind => ?_⟩
    have hdone := (h.busy i q hi hold).2 i' q' hi' hne hkind
    have hne' : i' ≠ j := by
      rintro rfl
      rw [hbusy] at hdone
      cases hdone.2
    rw [hphases i' hne']
    exact hdone
  · intro i q hi hwrote'
    rw [hrequests] at hi
    by_cases hkind : q.kind.slot = r.kind.slot
    · rw [hkind]
      exact hslot i q hi hkind hwrote'
    · have hne : i ≠ j := fun heq => hkind (by rw [hsame hi heq])
      rw [hphases i hne] at hwrote'
      rw [hslots _ hkind]
      exact h.slot i q hi hwrote'
  · intro k last hk
    rw [hrequests]
    by_cases hkind : k = r.kind.slot
    · subst hkind
      exact hseen last hk
    · rw [hslots k hkind] at hk
      refine (h.seen k last hk).imp_right ?_
      rintro ⟨i, q, hi, hslot', haddr, hi'⟩
      exact ⟨i, q, hi, hslot', haddr, hstill hi'⟩
  · intro i q hi
    rw [hrequests] at hi
    by_cases heq : i = j
    · rw [← hsame hi heq, heq]
      exact hknows
    · have hold := h.knows i q hi
      unfold Knows Unseen at hold ⊢
      rw [hphases i heq, hrequests]
      cases hphase : s.phases i with
      | spawned =>
        rw [hslots _ (h.slot_ne hj hbusy hi heq (by rw [hphase]; rfl))]
        rw [hphase] at hold
        exact hold
      | read last | written last | done attempt =>
        rw [hphase] at hold
        exact hold

theorem Inv.read (h : s.Inv) (hj : s.requests[j]? = some r) (hphase : s.phases j = .spawned) :
    ((s.setSlot r.kind.slot (s.last r.kind.slot)).setPhase j (.read (s.last r.kind.slot))).Inv := by
  have hbusy : (s.phases j).isDone = false := by rw [hphase]; rfl
  have hnot : (s.phases j).wrote = false := by rw [hphase]; rfl
  have hknows := h.knows j r hj
  have haddr : r.addr ≠ unspecified := h.addr r (List.mem_of_getElem? hj)
  rw [Knows, hphase] at hknows
  refine h.advance hj hbusy rfl rfl (fun i hne => Function.update_of_ne hne _ _) ?_
    (fun k hne => Function.update_of_ne hne _ _) ?_ ?_ ?_
  · rw [hnot]
    nofun
  · intro i q hi hkind hwrote
    rw [setPhase_phases] at hwrote
    split_ifs at hwrote with heq
    · cases hwrote
    · obtain ⟨last, hlast, hle⟩ := h.slot i q hi hwrote
      rw [hkind] at hlast
      refine ⟨last, ?_, hle⟩
      show (s.setSlot _ _).slots _ = _
      rw [setSlot_slots, if_pos rfl, Mediator.last, hlast, Option.getD_some]
  · intro last hlast
    replace hlast : (s.setSlot _ _).slots _ = _ := hlast
    rw [setSlot_slots, if_pos rfl, Option.some_inj, Mediator.last] at hlast
    cases hold : s.slots r.kind.slot with
    | none =>
      rw [hold, Option.getD_none] at hlast
      exact .inl (by rw [← hlast])
    | some old =>
      rw [hold, Option.getD_some] at hlast
      subst hlast
      refine (h.seen _ _ hold).imp_right ?_
      rintro ⟨i, q, hi, hkind, heq, hwrote⟩
      refine ⟨i, q, hi, hkind, heq, ?_⟩
      rw [setPhase_phases, if_neg]
      · exact hwrote
      · rintro rfl
        rw [hnot] at hwrote
        cases hwrote
  · unfold Knows
    rw [setPhase_phases, if_pos rfl]
    refine ⟨fun q hq hrepeats => ?_, fun hunseen heq => ?_⟩
    · obtain ⟨i, hij, hi⟩ := mem_take_iff.mp hq
      have hslot := hknows ⟨q, hq, hrepeats⟩
      have hkind : q.kind.slot = r.kind.slot := by rw [hrepeats.1]
      have hdone := ((h.busy j r hj hbusy).2 i q hi (by omega) hkind).2
      obtain ⟨last, hlast, hle⟩ := h.slot i q hi (wrote_of_isDone hdone)
      rw [hkind] at hlast
      rw [hlast, Option.map_some, Option.some_inj] at hslot
      rw [Mediator.last, hlast, Option.getD_some]
      exact ⟨hslot, hle⟩
    · -- the address of the slot is of an earlier request
      cases hold : s.slots r.kind.slot with
      | none =>
        rw [Mediator.last, hold, Option.getD_none] at heq
        exact haddr heq.symm
      | some old =>
        rw [Mediator.last, hold, Option.getD_some] at heq
        rcases h.seen _ _ hold with hnone | ⟨i, q, hi, hkind, hq, hwrote⟩
        · exact haddr (heq ▸ hnone)
        · have hne : i ≠ j := by
            rintro rfl
            rw [hnot] at hwrote
            cases hwrote
          have hij := ((h.busy j r hj hbusy).2 i q hi hne hkind).1
          exact hunseen q (mem_take_iff.mpr ⟨i, hij, hi⟩) (hq.trans heq)

theorem Inv.write (h : s.Inv) (hj : s.requests[j]? = some r) (hphase : s.phases j = .read last) :
    ((s.setSlot r.kind.slot (r.addr, s.now)).setPhase j (.written last)).Inv := by
  have hbusy : (s.phases j).isDone = false := by rw [hphase]; rfl
  have hknows := h.knows j r hj
  rw [Knows, hphase] at hknows
  refine h.advance hj hbusy rfl rfl (fun i hne => Function.update_of_ne hne _ _) ?_
    (fun k hne => Function.update_of_ne hne _ _) ?_ ?_ ?_
  · intro
    rw [setPhase_phases, if_pos rfl]
    rfl
  · intro i q hi hkind _
    refine ⟨(r.addr, s.now), ?_, h.time q (List.mem_of_getElem? hi)⟩
    show (s.setSlot _ _).slots _ = _
    rw [setSlot_slots, if_pos rfl]
  · intro new hnew
    replace hnew : (s.setSlot _ _).slots _ = _ := hnew
    rw [setSlot_slots, if_pos rfl, Option.some_inj] at hnew
    refine .inr ⟨j, r, hj, rfl, by rw [← hnew], ?_⟩
    rw [setPhase_phases, if_pos rfl]
    rfl
  · unfold Knows
    rw [setPhase_phases, if_pos rfl]
    exact hknows

theorem Inv.decide (h : s.Inv) (hj : s.requests[j]? = some r)
    (hphase : s.phases j = .written last) :
    (s.setPhase j (.done !s.isDuplicate r.addr last)).Inv := by
  have hbusy : (s.phases j).isDone = false := by rw [hphase]; rfl
  have hwrote : (s.phases j).wrote = true := by rw [hphase]; rfl
  have hknows := h.knows j r hj
  rw [Knows, hphase] at hknows
  have hstill {i : Nat} : ((s.setPhase j (.done !s.isDuplicate r.addr last)).phases i).wrote =
      (s.phases i).wrote := by
    rw [setPhase_phases]
    split_ifs with heq
    · rw [heq, hwrote]
      rfl
    · rfl
  refine h.advance hj hbusy rfl rfl (fun i hne => Function.update_of_ne hne _ _) ?_
    (fun _ _ => rfl) ?_ ?_ ?_
  · rw [hstill]
    exact id
  · intro i q hi hkind hi'
    rw [hstill] at hi'
    rw [← hkind]
    exact h.slot i q hi hi'
  · intro new hnew
    simp only [hstill]
    exact h.seen _ _ hnew
  · unfold Knows
    rw [setPhase_phases, if_pos rfl]
    refine ⟨fun hattempt q hq hrepeats => ?_, fun hunseen => ?_⟩
    · -- the handler decides in the moment its request came in
      obtain ⟨haddr, hle⟩ := hknows.1 q hq hrepeats
      have hnow := (h.busy j r hj hbusy).1
      have hmillis := hrepeats.2.2
      unfold asMillis at hmillis
      have hduplicate : s.isDuplicate r.addr last = true := by
        unfold isDuplicate asMillis
        rw [Bool.and_eq_true, decide_eq_true_eq, decide_eq_true_eq]
        exact ⟨haddr, by omega⟩
      rw [hduplicate] at hattempt
      cases hattempt
    · have hne := hknows.2 hunseen
      unfold isDuplicate
      rw [decide_eq_false hne]
      rfl

theorem Inv.step (h : s.Inv) (e : Event) (he : s.Prompt e) : (s.step e).Inv := by
  cases e with
  | tick nanos => exact h.tick nanos he
  | receive kind addr => exact h.receive kind addr he
  | read i =>
    simp only [Mediator.step]
    split
    · exact h.read ‹_› ‹_›
    · exact h
  | write i =>
    simp only [Mediator.step]
    split
    · exact h.write ‹_› ‹_›
    · exact h
  | decide i =>
    simp only [Mediator.step]
    split
    · exact h.decide ‹_› ‹_›
    · exact h

/-- Where the handlers run one after another without delay, and a request that is repeated is
repeated before another one of its slot comes in, only one of them leads to an attempt to connect,
and the first request of an address does. -/
theorem once_of_prompt (es : List Event) (hes : Allowed step Prompt {} es) :
    (run step ({} : Mediator) es).Once ∧ (run step ({} : Mediator) es).FirstAttempts := by
  have hinv : (run step ({} : Mediator) es).Inv :=
    run_keeps (fun _ e h he => h.step e he) inv_init hes
  exact ⟨hinv.once, hinv.firstAttempts⟩

/-- A peer. -/
def peer : SocketAddr := .v4 ⟨192, 0, 2, 1⟩ 21116

/-- The handler of a request from beginning to end. -/
def handled (kind : Kind) (addr : SocketAddr) (i : Nat) : List Event :=
  [.receive kind addr, .read i, .write i, .decide i]

/-- A request of a peer that is repeated behind 50 ms. -/
def repeated : List Event :=
  handled .punchHole peer 0 ++ [.tick 50000000] ++ handled .punchHole peer 1

theorem repeated_once :
    (run step ({} : Mediator) repeated).Once ∧ (run step ({} : Mediator) repeated).FirstAttempts :=
  once_of_prompt repeated (by decide)

/-- Two requests of a peer whose handlers both read before one of them writes. -/
def race : List Event :=
  [.receive .punchHole peer, .receive .punchHole peer, .read 0, .read 1, .write 0,
    .write 1, .decide 0, .decide 1]

/-- Both of them lead to an attempt to connect. -/
theorem race_twice : ¬ (run step ({} : Mediator) race).Once := by
  intro honce
  exact honce 0 1 ⟨.punchHole, peer, 0⟩ ⟨.punchHole, peer, 0⟩ (by decide) (by decide) (by decide)
    (by decide) ⟨by decide, by decide⟩

end Mediator

end MDesk.RendezvousMediator
