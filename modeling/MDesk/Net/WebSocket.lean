import MDesk.Net.Encrypt

/-!
# The encrypted WebSocket

`WsFramedStream` seals every payload into one binary message and opens the binary messages it
gets. Pings and pongs are passed over and a close ends the stream, but a text message is handed
out as it is, also where a key is installed.
-/

namespace MDesk

open MDesk.Core

/-- What the relay makes the WebSocket yield. -/
inductive WsMessage where
  | binary (data : Bytes)
  | text (data : Bytes)
  | ping
  | pong
  | close
  /-- The WebSocket yields an error. -/
  | protocolError
  deriving DecidableEq, Repr

/-- What happens on a connection: an end sends a payload, or the relay hands an end a
message. -/
inductive WsEvent where
  | send (p : End) (payload : Bytes)
  | deliver (p : End) (message : WsMessage)
  deriving DecidableEq, Repr

namespace WebSocket

open Channel

/-- `WsFramedStream::next` on a message. Behind its first error nothing is of interest. -/
def next (box : SecretBox) (s : FramedStream) : WsMessage → FramedStream
  | .binary data => Channel.next box s data
  | .text data =>
    if s.failed then s
    else { s with accepted := s.accepted ++ [{ payload := data, opened := false }] }
  | .protocolError => { s with failed := true }
  | .ping | .pong | .close => s

def step (box : SecretBox) (c : Channel) : WsEvent → Channel
  | .send p payload => Function.update c p (send box (c p) payload)
  | .deliver p message => Function.update c p (next box (c p) message)

/-- The ideal cipher: a binary message opens under a nonce only if some end sealed it under
that. -/
def Ideal (box : SecretBox) (c : Channel) : WsEvent → Prop
  | .deliver p (.binary data) => Channel.Ideal box c (.deliver p data)
  | _ => True

/-- Before its first error an end gets no text, no message that is too short to be sealed, and
none that it has sealed itself. -/
def Sealed (c : Channel) : WsEvent → Prop
  | .deliver p (.binary data) => (c p).failed = false → 1 < data.length ∧
      NotReflected c (.deliver p data)
  | .deliver p (.text _) => (c p).failed = true
  | _ => True

variable {box : SecretBox} {key : Bytes} {c : Channel} {s : FramedStream} {p q : End}

theorem next_outgoing (s : FramedStream) (m : WsMessage) :
    (next box s m).outgoing = s.outgoing := by
  cases m with
  | binary data => exact (next_spec s data).1
  | text data =>
    simp only [next]
    split <;> rfl
  | ping | pong | close | protocolError => rfl

theorem numbered_next (h : Numbered key s) (m : WsMessage) : Numbered key (next box s m) := by
  cases m with
  | binary data => exact Channel.numbered_next h data
  | text data =>
    simp only [next]
    split
    · exact h
    · exact ⟨h.key, h.sealed, h.outgoing⟩
  | protocolError => exact ⟨h.key, h.sealed, h.outgoing⟩
  | ping | pong | close => exact h

theorem sealing_next (h : Sealing box key s) (m : WsMessage) :
    Sealing box key (next box s m) := by
  unfold Sealing
  rw [next_outgoing]
  exact h

/-- What every end is and an event keeps. -/
theorem step_ends {Q : FramedStream → Prop} (h : ∀ p, Q (c p))
    (hsend : ∀ p payload, Q (send box (c p) payload)) (hnext : ∀ p m, Q (next box (c p) m))
    (e : WsEvent) (p : End) : Q (step box c e p) := by
  cases e with
  | send q payload =>
    by_cases hq : p = q
    · subst hq
      rw [step, Function.update_self]
      exact hsend p payload
    · rw [step, Function.update_of_ne hq]
      exact h p
  | deliver q m =>
    by_cases hq : p = q
    · subst hq
      rw [step, Function.update_self]
      exact hnext p m
    · rw [step, Function.update_of_ne hq]
      exact h p

/-- Every end has sealed its frames under their numbers. -/
theorem sealing_run (es : List WsEvent) (p : End) :
    Numbered key (run (step box) (start key) es p) ∧
      Sealing box key (run (step box) (start key) es p) := by
  induction es using List.reverseRecOn generalizing p with
  | nil => exact ⟨⟨rfl, rfl, nofun⟩, nofun⟩
  | append_singleton es e ih =>
    rw [run_append]
    refine step_ends (Q := fun s => Numbered key s ∧ Sealing box key s) ih
      (fun q payload => ?_) (fun q m => ?_) e p
    · exact ⟨numbered_send (ih q).1 payload, sealing_send (ih q).2 (ih q).1.key payload⟩
    · exact ⟨numbered_next (ih q).1 m, sealing_next (ih q).2 m⟩

/-- The frames an end has sealed stay. -/
theorem outgoing_step (c : Channel) (e : WsEvent) (p : End) :
    (c p).outgoing <+: (step box c e p).outgoing := by
  cases e with
  | send q payload => exact Channel.outgoing_step c (.send q payload) p
  | deliver q m =>
    have hsame : (step box c (.deliver q m) p).outgoing = (c p).outgoing := by
      by_cases hq : p = q
      · subst hq
        rw [step, Function.update_self, next_outgoing]
      · rw [step, Function.update_of_ne hq]
    simp only [hsame, List.prefix_rfl]

/-- What was accepted was opened, and is what the other end has sealed with the same numbers. -/
structure Genuine (c : Channel) (p : End) : Prop where
  opening : Opening (fun p q => q = p.other) c p
  opened : ∀ r ∈ (c p).accepted, r.opened = true

/-- What the other end or the relay does leaves what an end has accepted. -/
theorem Genuine.of_same {c' : Channel} (h : Genuine c p)
    (hgrow : ∀ q, (c q).outgoing <+: (c' q).outgoing)
    (haccepted : (c' p).accepted = (c p).accepted)
    (hcount : (c' p).failed = false →
      (c p).failed = false ∧ (c' p).encrypt.opened = (c p).encrypt.opened) : Genuine c' p where
  opening := h.opening.mono hgrow (by rw [openedBy, openedBy, haccepted]) hcount
  opened := haccepted ▸ h.opened

/-- Behind an error nothing is accepted. -/
theorem next_failed (box : SecretBox) (h : s.failed = true) (data : Bytes) :
    (Channel.next box s data).accepted = s.accepted ∧
      (Channel.next box s data).failed = true := by
  unfold Channel.next
  split
  · exact ⟨rfl, rfl⟩
  · rw [if_pos h]
    exact ⟨rfl, h⟩

/-- A long enough message is accepted only if it opens. -/
theorem next_opened (h : ∀ r ∈ s.accepted, r.opened = true) {data : Bytes}
    (hlong : 1 < data.length) : ∀ r ∈ (Channel.next box s data).accepted, r.opened = true := by
  unfold Channel.next
  split
  · exact h
  · split
    · exact h
    · intro r hr
      rcases List.mem_append.mp hr with hold | hnew
      · exact h r hold
      · obtain rfl := List.mem_singleton.mp hnew
        exact decide_eq_true hlong

/-- A binary message of the other end may be accepted. -/
theorem genuine_binary (hlaw : box.Lawful) (hnum : ∀ q, Numbered key (c q))
    (hseal : ∀ q, Sealing box key (c q)) (h : Genuine c p) {data : Bytes}
    (hideal : Ideal box c (.deliver p (.binary data)))
    (hsealed : Sealed c (.deliver p (.binary data))) :
    Genuine (step box c (.deliver p (.binary data))) p := by
  have hself : step box c (.deliver p (.binary data)) p = Channel.next box (c p) data :=
    Function.update_self ..
  cases hfailed : (c p).failed with
  | true =>
    obtain ⟨haccepted, hfails⟩ := next_failed box hfailed data
    refine h.of_same (outgoing_step c _) (by rw [hself, haccepted]) fun hok => ?_
    rw [hself, hfails] at hok
    cases hok
  | false =>
    obtain ⟨hlong, hback⟩ := hsealed hfailed
    refine ⟨opening_deliver hlaw hnum hseal h.opening (authentic_other hideal hback), ?_⟩
    rw [hself]
    exact next_opened h.opened hlong

theorem genuine_step (hlaw : box.Lawful) (hnum : ∀ q, Numbered key (c q))
    (hseal : ∀ q, Sealing box key (c q)) (h : ∀ p, Genuine c p) {e : WsEvent}
    (hideal : Ideal box c e) (hsealed : Sealed c e) (p : End) : Genuine (step box c e) p := by
  have hother (hsame : step box c e p = c p) : Genuine (step box c e) p :=
    (h p).of_same (outgoing_step c e) (by rw [hsame]) fun hok => by
      rw [hsame] at hok ⊢
      exact ⟨hok, rfl⟩
  cases e with
  | send q payload =>
    by_cases hq : p = q
    · subst hq
      have hself : step box c (.send p payload) p = send box (c p) payload :=
        Function.update_self ..
      refine (h p).of_same (outgoing_step c _) (by rw [hself]; rfl) fun hok => ?_
      rw [hself] at hok ⊢
      exact ⟨hok, rfl⟩
    · exact hother (Function.update_of_ne hq ..)
  | deliver q m =>
    by_cases hq : p = q
    · subst hq
      have hself : step box c (.deliver p m) p = next box (c p) m := Function.update_self ..
      cases m with
      | binary data => exact genuine_binary hlaw hnum hseal (h p) hideal hsealed
      | text data =>
        have hfailed : (c p).failed = true := hsealed
        exact hother (hself.trans (if_pos hfailed))
      | protocolError =>
        refine (h p).of_same (outgoing_step c _) (by rw [hself]; rfl) fun hok => ?_
        rw [hself] at hok
        cases hok
      | ping | pong | close => exact hother hself
    · exact hother (Function.update_of_ne hq ..)

/-- Where no end gets a text, a message that is too short to be sealed, or one of its own back,
what it accepts before its first error are the first of the payloads that the other end sent. -/
theorem websocket_integrity (box : SecretBox) (hlaw : box.Lawful) (key : Bytes)
    (es : List WsEvent) (hideal : Allowed (step box) (Ideal box) (start key) es)
    (hfew : ∀ p, (run (step box) (start key) es p).outgoing.length < 2 ^ 64)
    (hsealed : Allowed (step box) Sealed (start key) es) (p : End) :
    accepted (run (step box) (start key) es) p <+:
      sent (run (step box) (start key) es) p.other := by
  have hboth : Allowed (step box) (fun c e => Ideal box c e ∧ Sealed c e) (start key) es :=
    hideal.both (fun _ _ => And.intro) hsealed
  have hgenuine := run_keeps_past (Q := fun _ c => ∀ p, Genuine c p)
    (fun pre e h hok => genuine_step hlaw (fun q => (sealing_run pre q).1)
      (fun q => (sealing_run pre q).2) h hok.1 hok.2)
    (fun _ => ⟨⟨fun _ => rfl, nofun⟩, nofun⟩) hboth p
  have hall : accepted (run (step box) (start key) es) p =
      openedBy (run (step box) (start key) es p) := by
    rw [accepted, openedBy, List.filter_eq_self.mpr hgenuine.opened]
  rw [hall, List.prefix_iff_getElem?]
  intro i hi
  obtain ⟨q, rfl, hq⟩ := hgenuine.opening.number hfew (List.getElem?_eq_getElem hi)
  exact hq

/-- The first message of the server opens at the client, behind a ping and a late text. -/
theorem websocket_integrity_sample :
    accepted (run (step sampleBox) (start []) [.send .client [1], .send .server [2],
      .deliver .client .ping,
      .deliver .client (.binary (sampleBox.sealBox [2] (Encrypt.getNonce 1) [])),
      .deliver .client .protocolError, .deliver .client (.text [7])]) .client <+: 
    sent (run (step sampleBox) (start []) [.send .client [1], .send .server [2],
      .deliver .client .ping,
      .deliver .client (.binary (sampleBox.sealBox [2] (Encrypt.getNonce 1) [])),
      .deliver .client .protocolError, .deliver .client (.text [7])]) .server := by
  refine websocket_integrity sampleBox sampleBox_lawful [] _ ?_ ?_ ?_ .client
  · refine ⟨trivial, trivial, trivial, fun payload _ => ⟨.server, trivial, ?_⟩, trivial, trivial,
      trivial⟩
    exact ⟨_, List.mem_singleton_self _, rfl, rfl⟩
  · intro p
    cases p <;> decide
  · refine ⟨trivial, trivial, trivial, fun _ => ⟨by decide, fun x hx => ?_⟩, trivial, rfl, trivial⟩
    obtain rfl := List.mem_singleton.mp hx
    decide

/-- A text is accepted though nobody has sent anything. -/
theorem text_accepted :
    ¬ ∀ (box : SecretBox) (key : Bytes) (es : List WsEvent) (p : End), box.Lawful →
      Allowed (step box) (Ideal box) (start key) es →
      (∀ p, (run (step box) (start key) es p).outgoing.length < 2 ^ 64) →
      accepted (run (step box) (start key) es) p <+:
        sent (run (step box) (start key) es) p.other := by
  intro hall
  have htext := hall sampleBox [] [.deliver .client (.text [0x68, 0x69])] .client
    sampleBox_lawful ⟨trivial, trivial⟩ (fun p => by cases p <;> decide)
  exact absurd htext (by decide)

end WebSocket

end MDesk
