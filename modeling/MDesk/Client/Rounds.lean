import MDesk.Client.Reconnect

/-!
# When the rounds of a session do not interfere

As long as the events of a session fit, the rounds older than the newest one that are still
connecting or connected have been sent `Data::Close`, and the sender of messages is that of the
newest round as soon as its thread runs. So the next `Data::Close` reaches the only round that is
left, and a new one may begin.
-/

namespace MDesk

open Core

namespace ClientSession

/-- What holds of a session as long as its events fit. -/
structure Inv (s : ClientSession) : Prop where
  shows : s.Shows
  older : ∀ (i : Nat) (r : SessionRound), s.rounds[i]? = some r → i + 1 < s.rounds.length →
    r.phase.active = true → r.closed = true
  entered : ∀ (i : Nat) (r : SessionRound), s.rounds[i]? = some r → r.closed = true →
    r.phase.entered = true
  sender : ∀ i : Nat, s.sender = some i →
    ∃ r : SessionRound, s.rounds[i]? = some r ∧ r.phase.entered = true
  newest : ∀ (i : Nat) (r : SessionRound), s.rounds[i]? = some r → i + 1 = s.rounds.length →
    r.phase.entered = true → s.sender = some i
  number : ∀ (i : Nat) (r : SessionRound), s.rounds[i]? = some r → i + 1 = s.rounds.length →
    r.number = s.connectionRoundState.round

variable {s s' : ClientSession} {i : Nat} {r : SessionRound} {phase : RoundPhase}

theorem phaseOf_eq_some :
    s.phaseOf i = some phase ↔ ∃ r : SessionRound, s.rounds[i]? = some r ∧ r.phase = phase := by
  unfold phaseOf
  rw [Option.map_eq_some_iff]

/-- A round of a list in which one has changed. -/
theorem getElem?_modify_cases {rounds : List SessionRound} {φ : SessionRound → SessionRound}
    {j : Nat} {r' : SessionRound} (h : (rounds.modify i φ)[j]? = some r') :
    ∃ r, rounds[j]? = some r ∧ (j = i ∧ r' = φ r ∨ j ≠ i ∧ r' = r) := by
  rw [List.getElem?_modify] at h
  obtain ⟨r, hr, heq⟩ := Option.map_eq_some_iff.mp h
  refine ⟨r, hr, ?_⟩
  by_cases hij : i = j
  · rw [if_pos hij] at heq
    exact .inl ⟨hij.symm, heq.symm⟩
  · rw [if_neg hij] at heq
    exact .inr ⟨Ne.symm hij, heq.symm⟩

theorem Inv.single (h : Inv s) : s.Single := by
  have hlast : ∀ (i : Nat) (r : SessionRound), s.rounds[i]? = some r → r.phase.active = true →
      r.closed = false → i + 1 = s.rounds.length := by
    intro i r hr hactive hopen
    have hlt := (List.getElem?_eq_some_iff.mp hr).1
    by_contra hne
    have hclosed := h.older i r hr (by omega) hactive
    rw [hopen] at hclosed
    cases hclosed
  intro i j ri rj hi hj hactive hactive' hopen hopen'
  have hi' := hlast i ri hi hactive hopen
  have hj' := hlast j rj hj hactive' hopen'
  omega

/-- A round goes on. Only the newest one may show another connection state. -/
theorem Inv.of_setPhase (h : Inv s) (phase : RoundPhase) (hr : s.rounds[i]? = some r)
    (hrounds : s'.rounds = s.rounds.modify i fun r => { r with phase })
    (hnumber : s'.connectionRoundState.round = s.connectionRoundState.round)
    (hshows : i + 1 = s.rounds.length → s'.connectionRoundState.state = phase.shows)
    (hkeeps : i + 1 ≠ s.rounds.length →
      s'.connectionRoundState.state = s.connectionRoundState.state)
    (hactive : phase.active = true → r.phase.active = true)
    (hsender : (s'.sender = s.sender ∧ phase.entered = r.phase.entered) ∨
      (s'.sender = some i ∧ phase.entered = true ∧ i + 1 = s.rounds.length)) : Inv s' := by
  have hlen : s'.rounds.length = s.rounds.length := by rw [hrounds, List.length_modify]
  have hat : s'.rounds[i]? = some { r with phase } := by
    rw [hrounds, List.getElem?_modify_eq, hr]
    rfl
  have hrise : r.phase.entered = true → phase.entered = true := by
    intro hent
    rcases hsender with ⟨-, heq⟩ | ⟨-, heq, -⟩
    · rw [heq, hent]
    · exact heq
  have hcases : ∀ (j : Nat) (r' : SessionRound), s'.rounds[j]? = some r' →
      (j = i ∧ r' = { r with phase }) ∨ (j ≠ i ∧ s.rounds[j]? = some r') := by
    intro j r' hj
    rw [hrounds] at hj
    obtain ⟨old, hold, ⟨rfl, rfl⟩ | ⟨hne, rfl⟩⟩ := getElem?_modify_cases hj
    · rw [hr] at hold
      cases hold
      exact .inl ⟨rfl, rfl⟩
    · exact .inr ⟨hne, hold⟩
  refine ⟨?_, ?_, ?_, ?_, ?_, ?_⟩
  · intro j r' hj hlast
    rw [hlen] at hlast
    rcases hcases j r' hj with ⟨rfl, rfl⟩ | ⟨hne, hold⟩
    · exact hshows hlast
    · rw [hkeeps (by omega)]
      exact h.shows j r' hold hlast
  · intro j r' hj hlt hact
    rw [hlen] at hlt
    rcases hcases j r' hj with ⟨rfl, rfl⟩ | ⟨hne, hold⟩
    · exact h.older j r hr hlt (hactive hact)
    · exact h.older j r' hold hlt hact
  · intro j r' hj hclosed
    rcases hcases j r' hj with ⟨rfl, rfl⟩ | ⟨hne, hold⟩
    · exact hrise (h.entered j r hr hclosed)
    · exact h.entered j r' hold hclosed
  · intro j hj
    by_cases hij : j = i
    · subst hij
      refine ⟨_, hat, ?_⟩
      rcases hsender with ⟨hsame, heq⟩ | ⟨-, heq, -⟩
      · rw [hsame] at hj
        obtain ⟨r', hr', hent⟩ := h.sender j hj
        rw [hr] at hr'
        cases hr'
        exact heq.trans hent
      · exact heq
    · rcases hsender with ⟨hsame, -⟩ | ⟨hthis, -, -⟩
      · rw [hsame] at hj
        obtain ⟨r', hr', hent⟩ := h.sender j hj
        refine ⟨r', ?_, hent⟩
        rw [hrounds, List.getElem?_modify_ne _ _ (Ne.symm hij)]
        exact hr'
      · rw [hthis] at hj
        exact absurd (Option.some.inj hj).symm hij
  · intro j r' hj hlast hent
    rw [hlen] at hlast
    rcases hcases j r' hj with ⟨rfl, rfl⟩ | ⟨hne, hold⟩
    · rcases hsender with ⟨hsame, heq⟩ | ⟨hthis, -, -⟩
      · rw [hsame]
        exact h.newest j r hr hlast (heq ▸ hent)
      · exact hthis
    · rcases hsender with ⟨hsame, -⟩ | ⟨-, -, hlast'⟩
      · rw [hsame]
        exact h.newest j r' hold hlast hent
      · omega
  · intro j r' hj hlast
    rw [hlen] at hlast
    rw [hnumber]
    rcases hcases j r' hj with ⟨rfl, rfl⟩ | ⟨hne, hold⟩
    · exact h.number j r hr hlast
    · exact h.number j r' hold hlast

theorem sendClose_of_some {q : Nat} (h : s.sender = some q) :
    s.sendClose = { s with rounds := s.rounds.modify q fun r => { r with closed := true } } := by
  rw [sendClose, h]

@[simp] theorem sendClose_connectionRoundState :
    s.sendClose.connectionRoundState = s.connectionRoundState := by
  unfold sendClose
  split <;> rfl

@[simp] theorem sendClose_sender : s.sendClose.sender = s.sender := by
  cases h : s.sender with
  | none => rw [sendClose, h, h]
  | some q => rw [sendClose_of_some h, h]

/-- `Data::Close` goes to a round that has published its sender. -/
theorem Inv.sendClose (h : Inv s) : Inv s.sendClose := by
  cases hsender : s.sender with
  | none =>
    rw [ClientSession.sendClose, hsender]
    exact h
  | some q =>
    rw [sendClose_of_some hsender]
    have hcases : ∀ (j : Nat) (r' : SessionRound),
        (s.rounds.modify q fun r => { r with closed := true })[j]? = some r' →
          ∃ r, s.rounds[j]? = some r ∧ r'.phase = r.phase ∧ r'.number = r.number ∧
            (r.closed = true → r'.closed = true) ∧
              (r'.closed = true → r.closed = true ∨ j = q) := by
      intro j r' hj
      obtain ⟨r, hr, ⟨rfl, rfl⟩ | ⟨hne, rfl⟩⟩ := getElem?_modify_cases hj
      · exact ⟨r, hr, rfl, rfl, fun _ => rfl, fun _ => .inr rfl⟩
      · exact ⟨r', hr, rfl, rfl, id, .inl⟩
    have hlen : (s.rounds.modify q fun r => { r with closed := true }).length = s.rounds.length :=
      List.length_modify _ _ _
    refine ⟨?_, ?_, ?_, ?_, ?_, ?_⟩
    · intro j r' hj hlast
      obtain ⟨r, hr, hphase, -⟩ := hcases j r' hj
      rw [hphase]
      exact h.shows j r hr (hlen ▸ hlast)
    · intro j r' hj hlt hact
      obtain ⟨r, hr, hphase, -, hclosed, -⟩ := hcases j r' hj
      exact hclosed (h.older j r hr (hlen ▸ hlt) (hphase ▸ hact))
    · intro j r' hj hclosed
      obtain ⟨r, hr, hphase, -, -, hold⟩ := hcases j r' hj
      rw [hphase]
      rcases hold hclosed with hwas | rfl
      · exact h.entered j r hr hwas
      · obtain ⟨r₀, hr₀, hent⟩ := h.sender j hsender
        rw [hr] at hr₀
        cases hr₀
        exact hent
    · intro j hj
      obtain ⟨r, hr, hent⟩ := h.sender j hj
      refine ⟨if q = j then { r with closed := true } else r, ?_, ?_⟩
      · show (s.rounds.modify q _)[j]? = _
        rw [List.getElem?_modify, hr]
        rfl
      · split_ifs
        · exact hent
        · exact hent
    · intro j r' hj hlast hent
      obtain ⟨r, hr, hphase, -⟩ := hcases j r' hj
      exact h.newest j r hr (hlen ▸ hlast) (hphase ▸ hent)
    · intro j r' hj hlast
      obtain ⟨r, hr, -, hnumber, -⟩ := hcases j r' hj
      rw [hnumber]
      exact h.number j r hr (hlen ▸ hlast)

/-- Once the newest round is connected, `Data::Close` reaches the only round that is left. -/
theorem Inv.allClosed_sendClose (h : Inv s)
    (hconnected : s.connectionRoundState.state = .connected) : s.sendClose.AllClosed := by
  intro r' hr' hactive
  obtain ⟨j, hj⟩ := List.getElem?_of_mem hr'
  have hlt := (List.getElem?_eq_some_iff.mp hj).1
  by_cases hlast : j + 1 = s.sendClose.rounds.length
  · have hshows := h.sendClose.shows j r' hj hlast
    rw [sendClose_connectionRoundState, hconnected] at hshows
    have hent : r'.phase.entered = true := by
      cases hphase : r'.phase with
      | drawn => rw [hphase] at hshows; cases hshows
      | spawned => rw [hphase] at hshows; cases hshows
      | _ => rfl
    have hsender := h.sendClose.newest j r' hj hlast hent
    rw [sendClose_sender] at hsender
    rw [sendClose_of_some hsender] at hj
    obtain ⟨r, hr, ⟨-, rfl⟩ | ⟨hne, -⟩⟩ := getElem?_modify_cases hj
    · rfl
    · exact absurd rfl hne
  · exact h.sendClose.older j r' hj (by omega) hactive

/-- A round may begin when all others have been sent `Data::Close`. -/
theorem Inv.beginRound (h : Inv s) (hall : s.AllClosed) (hshows : phase.shows = .connecting)
    (hent : phase.entered = false) : Inv (s.beginRound phase) := by
  have hcases : ∀ (j : Nat) (r : SessionRound), (s.beginRound phase).rounds[j]? = some r →
      s.rounds[j]? = some r ∨ (j = s.rounds.length ∧
        { number := s.connectionRoundState.newRound.round, phase } = r) := fun j r hj =>
    getElem?_concat hj
  have hlen : (s.beginRound phase).rounds.length = s.rounds.length + 1 :=
    List.length_append
  have hold : ∀ (j : Nat) (r : SessionRound), s.rounds[j]? = some r →
      j < s.rounds.length := fun j r hj => (List.getElem?_eq_some_iff.mp hj).1
  refine ⟨?_, ?_, ?_, ?_, ?_, ?_⟩
  · intro j r hj hlast
    rcases hcases j r hj with hj' | ⟨-, rfl⟩
    · have := hold j r hj'
      omega
    · exact hshows.symm
  · intro j r hj hlt hact
    rcases hcases j r hj with hj' | ⟨rfl, -⟩
    · exact hall r (List.mem_of_getElem? hj') hact
    · omega
  · intro j r hj hclosed
    rcases hcases j r hj with hj' | ⟨-, rfl⟩
    · exact h.entered j r hj' hclosed
    · cases hclosed
  · intro j hj
    obtain ⟨r, hr, hentered⟩ := h.sender j hj
    refine ⟨r, ?_, hentered⟩
    exact getElem?_extend (List.prefix_append _ _) hr
  · intro j r hj hlast hentered
    rcases hcases j r hj with hj' | ⟨-, rfl⟩
    · have := hold j r hj'
      omega
    · exact absurd hentered (by simp [hent])
  · intro j r hj hlast
    rcases hcases j r hj with hj' | ⟨-, rfl⟩
    · have := hold j r hj'
      omega
    · rfl

/-- A round that begins next to one that is not closed makes two. -/
theorem allClosed_of_single (hphase : phase.active = true) (h : (s.beginRound phase).Single) :
    s.AllClosed := by
  intro r hr hactive
  obtain ⟨i, hi⟩ := List.getElem?_of_mem hr
  have hlt := (List.getElem?_eq_some_iff.mp hi).1
  by_contra hopen
  have hold : (s.beginRound phase).rounds[i]? = some r :=
    getElem?_extend (List.prefix_append _ _) hi
  have hnew : (s.beginRound phase).rounds[s.rounds.length]? =
      some { number := s.connectionRoundState.newRound.round, phase } :=
    List.getElem?_concat_length
  have heq := h i s.rounds.length _ _ hold hnew hactive hphase (by simpa using hopen) rfl
  omega

/-- A session that ends a disconnected newest round has closed all others. -/
theorem Inv.allClosed_of_disconnected (h : Inv s)
    (hstate : s.connectionRoundState.state = .disconnected) : s.AllClosed := by
  intro r hr hactive
  obtain ⟨i, hi⟩ := List.getElem?_of_mem hr
  have hlt := (List.getElem?_eq_some_iff.mp hi).1
  by_cases hlast : i + 1 = s.rounds.length
  · have hshows := h.shows i r hi hlast
    rw [hstate] at hshows
    cases hphase : r.phase with
    | ended => rw [hphase] at hactive; cases hactive
    | leaving connected => rw [hphase] at hactive; cases hactive
    | _ => rw [hphase] at hshows; cases hshows
  · exact h.older i r hi (by omega) hactive

/-- The end of a round that is told by its number, or has nothing to change. -/
theorem finish_harmless {number : Nat}
    (h : s.connectionRoundState.isRoundGt number = true ∨
      (s.connectionRoundState.state = .disconnected ∧ s.recordState = false ∧
        s.recordActive = false)) :
    (s.finish i number).connectionRoundState.state = s.connectionRoundState.state ∧
      (s.finish i number).recordState = s.recordState ∧
      (s.finish i number).recordActive = s.recordActive := by
  unfold finish
  cases hgt : s.connectionRoundState.isRoundGt number with
  | true =>
    refine ⟨?_, rfl, rfl⟩
    exact congrArg _ (ConnectionRoundState.setDisconnected_of_gt hgt)
  | false =>
    rw [hgt] at h
    obtain ⟨hstate, hrecord, hactive⟩ := h.resolve_left (by simp)
    refine ⟨?_, hrecord.symm, hactive.symm⟩
    exact (ConnectionRoundState.setDisconnected_state hgt).trans hstate.symm

theorem step_finish (hr : s.rounds[i]? = some r) (hleaving : r.phase.isLeaving = true) :
    s.step (.finish i) = s.finish i r.number := by
  simp only [step, hr, if_pos hleaving]

/-- Only the newest round may be yet to publish its sender. -/
theorem Inv.newest_of_spawned (h : Inv s) (hr : s.rounds[i]? = some r)
    (hphase : r.phase = .spawned) : i + 1 = s.rounds.length := by
  have hlt := (List.getElem?_eq_some_iff.mp hr).1
  by_contra hne
  have hclosed := h.older i r hr (by omega) (by rw [hphase]; rfl)
  have hent := h.entered i r hr hclosed
  rw [hphase] at hent
  cases hent

/-- The end of a round. The newest one carries the number of the connection state. -/
theorem Inv.finish (h : Inv s) (hfits : Fits s (.finish i)) (hr : s.rounds[i]? = some r)
    (hleaving : r.phase.isLeaving = true) : Inv (s.finish i r.number) := by
  have hlt := (List.getElem?_eq_some_iff.mp hr).1
  have hent : r.phase.entered = true := by
    cases hphase : r.phase with
    | leaving connected => rfl
    | _ => rw [hphase] at hleaving; cases hleaving
  refine h.of_setPhase .ended hr rfl ?_ ?_ ?_ ?_ ?_
  · exact ConnectionRoundState.setDisconnected_round
  · intro hlast
    refine ConnectionRoundState.setDisconnected_state ?_
    rw [h.number i r hr hlast]
    exact ConnectionRoundState.isRoundGt_self
  · intro hne
    exact (finish_harmless (hfits r ⟨hr, hleaving, by omega⟩)).1
  · intro hended
    cases hended
  · exact .inl ⟨rfl, hent.symm⟩

theorem Inv.reconnect (h : Inv s) (hfits : Fits s .reconnect) : Inv s.reconnect := by
  unfold ClientSession.reconnect
  by_cases hthread : s.thread = true
  · rw [if_pos hthread]
    cases hstate : s.connectionRoundState.state with
    | connecting => exact h
    | connected => exact h.sendClose.beginRound (h.allClosed_sendClose hstate) rfl rfl
    | disconnected => exact h.beginRound (h.allClosed_of_disconnected hstate) rfl rfl
  · rw [if_neg hthread]
    exact h.beginRound (hfits (by simpa using hthread)) rfl rfl

theorem Inv.startOk (h : Inv s) (hfits : Fits s (.startOk i)) (hr : s.rounds[i]? = some r)
    (hphase : r.phase = .starting) :
    Inv { s.setPhase i .running with
      connectionRoundState := s.connectionRoundState.setConnected } := by
  refine h.of_setPhase .running hr rfl rfl (fun _ => rfl) ?_ ?_ ?_
  · intro hne
    exact ((hfits (phaseOf_eq_some.mpr ⟨r, hr, hphase⟩)).resolve_left hne).symm
  · intro _
    rw [hphase]
    rfl
  · exact .inl ⟨rfl, by rw [hphase]; rfl⟩

/-- A round that goes on without a change of what the rounds share. -/
theorem Inv.setPhase (h : Inv s) (phase : RoundPhase) (hr : s.rounds[i]? = some r)
    (hshows : phase.shows = r.phase.shows)
    (hactive : phase.active = true → r.phase.active = true)
    (hent : phase.entered = r.phase.entered) : Inv (s.setPhase i phase) := by
  refine h.of_setPhase phase hr rfl rfl ?_ (fun _ => rfl) hactive (.inl ⟨rfl, hent⟩)
  intro hlast
  rw [hshows]
  exact h.shows i r hr hlast

/-- What one event that fits does to the rounds. -/
theorem Inv.step {e : RoundEvent} (h : Inv s) (hfits : Fits s e) : Inv (s.step e) := by
  cases e with
  | reconnect => exact h.reconnect hfits
  | store i =>
    by_cases hat : s.phaseOf i = some .drawn
    · obtain ⟨r, hr, hphase⟩ := phaseOf_eq_some.mp hat
      have hset := h.setPhase .spawned hr (by rw [hphase]; rfl)
        (fun _ => by rw [hphase]; rfl) (by rw [hphase]; rfl)
      rw [ClientSession.step, if_pos hat]
      exact ⟨hset.shows, hset.older, hset.entered, hset.sender, hset.newest, hset.number⟩
    · rw [ClientSession.step, if_neg hat]
      exact h
  | sessionStart => exact h.beginRound hfits rfl rfl
  | enter i =>
    by_cases hat : s.phaseOf i = some .spawned
    · obtain ⟨r, hr, hphase⟩ := phaseOf_eq_some.mp hat
      have hlast := h.newest_of_spawned hr hphase
      rw [ClientSession.step, if_pos hat]
      refine h.of_setPhase .starting hr rfl rfl ?_ (fun _ => rfl) ?_ ?_
      · intro _
        exact (h.shows i r hr hlast).trans (by rw [hphase]; rfl)
      · intro _
        rw [hphase]
        rfl
      · exact .inr ⟨rfl, rfl, hlast⟩
    · rw [ClientSession.step, if_neg hat]
      exact h
  | startOk i =>
    by_cases hat : s.phaseOf i = some .starting
    · obtain ⟨r, hr, hphase⟩ := phaseOf_eq_some.mp hat
      rw [ClientSession.step, if_pos hat]
      exact h.startOk hfits hr hphase
    · rw [ClientSession.step, if_neg hat]
      exact h
  | startErr i =>
    by_cases hat : s.phaseOf i = some .starting
    · obtain ⟨r, hr, hphase⟩ := phaseOf_eq_some.mp hat
      rw [ClientSession.step, if_pos hat]
      exact h.setPhase _ hr (by rw [hphase]; rfl) (fun hactive => by cases hactive)
        (by rw [hphase]; rfl)
    · rw [ClientSession.step, if_neg hat]
      exact h
  | exit i =>
    by_cases hat : s.phaseOf i = some .running
    · obtain ⟨r, hr, hphase⟩ := phaseOf_eq_some.mp hat
      rw [ClientSession.step, if_pos hat]
      exact h.setPhase _ hr (by rw [hphase]; rfl) (fun hactive => by cases hactive)
        (by rw [hphase]; rfl)
    · rw [ClientSession.step, if_neg hat]
      exact h
  | finish i =>
    cases hr : s.rounds[i]? with
    | none =>
      simp only [ClientSession.step, hr]
      exact h
    | some r =>
      by_cases hleaving : r.phase.isLeaving = true
      · rw [step_finish hr hleaving]
        exact h.finish hfits hr hleaving
      · simp only [ClientSession.step, hr, if_neg hleaving]
        exact h
  | close => exact h.sendClose
  | record state active =>
    exact ⟨h.shows, h.older, h.entered, h.sender, h.newest, h.number⟩

/-- The end of an older round that fits changes nothing of what the rounds share. -/
theorem endsHarmlessly_concat {pre : List RoundEvent} {e : RoundEvent}
    (hfits : Fits (run ClientSession.step {} pre) e) : EndsHarmlessly (pre ++ [e]) := by
  intro pre' i r heq hout
  obtain ⟨rfl, hlast⟩ := List.append_inj' heq rfl
  cases hlast
  rw [run_append, run_cons, run_nil, step_finish hout.1 hout.2.1]
  exact finish_harmless (hfits r hout)

/-- An event behind which the rounds still do not interfere fits. -/
theorem Inv.fits {pre : List RoundEvent} {e : RoundEvent}
    (h : Inv (run ClientSession.step {} pre))
    (hsingle : ((run ClientSession.step {} pre).step e).Single)
    (hshows : ((run ClientSession.step {} pre).step e).Shows)
    (hends : EndsHarmlessly (pre ++ [e])) : Fits (run ClientSession.step {} pre) e := by
  generalize hs : run ClientSession.step {} pre = s at *
  cases e with
  | reconnect =>
    intro hthread
    have hbegin : s.step .reconnect = s.beginRound .drawn := by
      rw [ClientSession.step, ClientSession.reconnect, if_neg (by simp [hthread])]
    rw [hbegin] at hsingle
    exact allClosed_of_single rfl hsingle
  | sessionStart => exact allClosed_of_single rfl hsingle
  | startOk i =>
    intro hat
    by_cases hlast : i + 1 = s.rounds.length
    · exact .inl hlast
    · right
      obtain ⟨r, hr, -⟩ := phaseOf_eq_some.mp hat
      have hlt := (List.getElem?_eq_some_iff.mp hr).1
      -- the newest round is not the one that has started
      have hn : s.rounds.length - 1 < s.rounds.length := by omega
      have hnewest : s.rounds[s.rounds.length - 1]? = some s.rounds[s.rounds.length - 1] :=
        List.getElem?_eq_getElem hn
      rw [ClientSession.step, if_pos hat] at hshows
      have hafter := hshows (s.rounds.length - 1) s.rounds[s.rounds.length - 1]
        ((List.getElem?_modify_ne _ _ (by omega)).trans hnewest)
        (by rw [ClientSession.setPhase, List.length_modify]; omega)
      have hbefore := h.shows _ _ hnewest (by omega)
      rw [hbefore, ← hafter]
      rfl
  | finish i =>
    intro r hout
    cases hgt : s.connectionRoundState.isRoundGt r.number with
    | true => exact .inl rfl
    | false =>
      right
      subst hs
      obtain ⟨hstate, hrecord, hactive⟩ := hends pre i r rfl hout
      rw [run_append, run_cons, run_nil, step_finish hout.1 hout.2.1] at hstate hrecord hactive
      unfold ClientSession.finish at hstate hrecord hactive
      rw [hgt] at hrecord hactive
      refine ⟨?_, hrecord.symm, hactive.symm⟩
      exact hstate.symm.trans (ConnectionRoundState.setDisconnected_state hgt)
  | _ => trivial

theorem Inv.empty : Inv {} := by
  refine ⟨?_, ?_, ?_, ?_, ?_, ?_⟩
  · intro i r hr
    cases hr
  · intro i r hr
    cases hr
  · intro i r hr
    cases hr
  · intro i hsender
    cases hsender
  · intro i r hr
    cases hr
  · intro i r hr
    cases hr

/-- The rounds of a session do not interfere exactly in the runs whose events fit. -/
theorem rounds_apart_iff_fits {es : List RoundEvent} :
    (∀ pre, pre <+: es → (run ClientSession.step {} pre).Single ∧
      (run ClientSession.step {} pre).Shows ∧ EndsHarmlessly pre) ↔
      Allowed ClientSession.step Fits {} es := by
  refine allowed_iff_holds_past
    (P := fun pre s => Single s ∧ Shows s ∧ EndsHarmlessly pre)
    (Q := fun pre s => Inv s ∧ EndsHarmlessly pre) ?_ ?_ ?_ ?_
  · rintro pre s ⟨hinv, hends⟩
    exact ⟨hinv.single, hinv.shows, hends⟩
  · rintro pre e ⟨hinv, -⟩ ⟨hsingle, hshows, hends⟩
    exact hinv.fits hsingle hshows hends
  · rintro pre e ⟨hinv, -⟩ hfits
    exact ⟨hinv.step hfits, endsHarmlessly_concat hfits⟩
  · refine ⟨Inv.empty, fun pre i r heq _ => ?_⟩
    exact absurd heq (by simp)

/-- Two calls of `reconnect` before a thread is stored begin a round each. -/
theorem rounds_apart_two_reconnects :
    ¬ (run ClientSession.step {} [.reconnect, .reconnect]).Single := by
  intro h
  have heq := h 0 1 { number := 1, phase := .drawn } { number := 2, phase := .drawn }
    rfl rfl rfl rfl rfl rfl
  cases heq

end ClientSession

end MDesk
