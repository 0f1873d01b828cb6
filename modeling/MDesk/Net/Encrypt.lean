import MDesk.Codec.BytesCodec
import MDesk.Core.Endian
import MDesk.Core.Run

/-!
# The encrypted stream

Both ends of a connection install one symmetric key. `Encrypt` counts the frames it has
sealed and the frames it has opened, and the count is the nonce. Both counts start at zero
on both ends, so the frames with one number share their nonce in the two directions, and
a frame that is sent back to its own sender opens there. Frames of at most one byte are
passed on without being opened.
-/

namespace MDesk

open Core

/-- `crypto::secretbox`: seal and open data under a nonce and a key. -/
structure SecretBox where
  sealBox : Bytes → Bytes → Bytes → Bytes
  openBox : Bytes → Bytes → Bytes → Option Bytes

/-- What was sealed opens under its nonce and key. -/
def SecretBox.Lawful (box : SecretBox) : Prop :=
  ∀ data nonce key, box.openBox (box.sealBox data nonce key) nonce key = some data

/-- `Encrypt`: the key, the frames sealed and the frames opened so far. The counters wrap, as
they do without overflow checks. -/
structure Encrypt where
  key : Bytes
  sealed : UInt64
  opened : UInt64
  deriving DecidableEq, Repr

namespace Encrypt

def new (key : Bytes) : Encrypt := ⟨key, 0, 0⟩

/-- `FramedStream::get_nonce`: the number in the first 8 of 24 bytes. -/
def getNonce (seqnum : UInt64) : Bytes := leBytes 8 seqnum.toNat ++ List.replicate 16 0

/-- `Encrypt::enc`. -/
def enc (box : SecretBox) (e : Encrypt) (data : Bytes) : Bytes × Encrypt :=
  let e := { e with sealed := e.sealed + 1 }
  (box.sealBox data (getNonce e.sealed) e.key, e)

/-- `Encrypt::dec`, `none` for a decryption error. -/
def dec (box : SecretBox) (e : Encrypt) (bytes : Bytes) : Option Bytes × Encrypt :=
  if bytes.length ≤ 1 then (some bytes, e)
  else
    let e := { e with opened := e.opened + 1 }
    (box.openBox bytes (getNonce e.opened) e.key, e)

theorem getNonce_inj {m n : UInt64} : getNonce m = getNonce n ↔ m = n := by
  constructor
  · intro h
    have hlow : leBytes 8 m.toNat = leBytes 8 n.toNat := (List.append_inj h (by simp)).1
    have hnat := congrArg leNat hlow
    rw [leNat_leBytes m.toNat_lt, leNat_leBytes n.toNat_lt] at hnat
    exact UInt64.toNat_inj.mp hnat
  · rintro rfl
    rfl

/-- The number of a frame, while there are few enough of them. -/
theorem ofNat_inj {m n : Nat} (hm : m < 2 ^ 64) (hn : n < 2 ^ 64) :
    UInt64.ofNat m = UInt64.ofNat n ↔ m = n := by
  rw [← UInt64.toNat_inj, UInt64.toNat_ofNat', UInt64.toNat_ofNat', Nat.mod_eq_of_lt hm,
    Nat.mod_eq_of_lt hn]

theorem ofNat_succ (n : Nat) : UInt64.ofNat n + 1 = UInt64.ofNat (n + 1) := by
  apply UInt64.toNat_inj.mp
  rw [UInt64.toNat_add, UInt64.toNat_ofNat', UInt64.toNat_ofNat']
  exact Nat.mod_add_mod n (2 ^ 64) 1

end Encrypt

/-- The two ends of a connection. -/
inductive End where
  | client
  | server
  deriving DecidableEq, Repr

def End.other : End → End
  | .client => .server
  | .server => .client

/-- A frame that was sealed, with its payload and nonce. -/
structure SealedFrame where
  payload : Bytes
  nonce : Bytes
  frame : Bytes
  deriving DecidableEq, Repr

/-- What `next` handed out: the payload, and whether it was opened or passed on. -/
structure Received where
  payload : Bytes
  opened : Bool
  deriving DecidableEq, Repr

/-- One end of the stream, with what it has sealed and what it has accepted before its first
error. -/
structure FramedStream where
  encrypt : Encrypt
  outgoing : List SealedFrame := []
  accepted : List Received := []
  failed : Bool := false
  deriving DecidableEq, Repr

/-- What happens on a connection: an end sends a payload, or the network hands an end some
frame. -/
inductive ChannelEvent where
  | send (p : End) (payload : Bytes)
  | deliver (p : End) (frame : Bytes)
  deriving DecidableEq, Repr

abbrev Channel := End → FramedStream

namespace Channel

/-- Both ends have called `set_key`. -/
def start (key : Bytes) : Channel := fun _ => { encrypt := .new key }

/-- `FramedStream::send_raw`. -/
def send (box : SecretBox) (s : FramedStream) (payload : Bytes) : FramedStream :=
  let (frame, encrypt) := s.encrypt.enc box payload
  { s with
    encrypt
    outgoing := s.outgoing ++ [{ payload, nonce := Encrypt.getNonce encrypt.sealed, frame }] }

/-- `FramedStream::next` on a frame. -/
def next (box : SecretBox) (s : FramedStream) (frame : Bytes) : FramedStream :=
  match s.encrypt.dec box frame with
  | (none, encrypt) => { s with encrypt, failed := true }
  | (some payload, encrypt) =>
    if s.failed then { s with encrypt }
    else { s with
      encrypt
      accepted := s.accepted ++ [{ payload, opened := decide (1 < frame.length) }] }

def step (box : SecretBox) (c : Channel) : ChannelEvent → Channel
  | .send p payload => Function.update c p (send box (c p) payload)
  | .deliver p frame => Function.update c p (next box (c p) frame)

/-- The payloads an end has passed to `send`. -/
def sent (c : Channel) (p : End) : List Bytes := (c p).outgoing.map SealedFrame.payload

/-- The payloads an end has accepted. -/
def accepted (c : Channel) (p : End) : List Bytes := (c p).accepted.map Received.payload

/-- The payloads an end has opened. -/
def openedBy (s : FramedStream) : List Bytes :=
  (s.accepted.filter Received.opened).map Received.payload

/-- A frame that opens was sealed, exactly as it is and under that nonce, by one of the ends
that `source` names. -/
def Authentic (source : End → End → Prop) (box : SecretBox) (c : Channel) : ChannelEvent → Prop
  | .send _ _ => True
  | .deliver p frame => ∀ payload,
    box.openBox frame (Encrypt.getNonce ((c p).encrypt.opened + 1)) (c p).encrypt.key =
      some payload →
    ∃ q, source p q ∧ ∃ x ∈ (c q).outgoing,
      x.nonce = Encrypt.getNonce ((c p).encrypt.opened + 1) ∧ x.frame = frame

/-- The ideal cipher: a frame opens under a nonce only if some end sealed it under that. -/
def Ideal (box : SecretBox) (c : Channel) (e : ChannelEvent) : Prop :=
  Authentic (fun _ _ => True) box c e

/-- Nobody gets a frame back that it has sealed itself. -/
def NotReflected (c : Channel) : ChannelEvent → Prop
  | .send _ _ => True
  | .deliver p frame => ∀ x ∈ (c p).outgoing, x.frame ≠ frame

/-- The frames of an end are numbered from one on. -/
structure Numbered (key : Bytes) (s : FramedStream) : Prop where
  key : s.encrypt.key = key
  sealed : s.encrypt.sealed = UInt64.ofNat s.outgoing.length
  outgoing : ∀ i x, s.outgoing[i]? = some x →
    x.nonce = Encrypt.getNonce (UInt64.ofNat (i + 1))

/-- The frames are sealed under their numbers. -/
def Sealing (box : SecretBox) (key : Bytes) (s : FramedStream) : Prop :=
  ∀ x ∈ s.outgoing, x.frame = box.sealBox x.payload x.nonce key

/-- The payloads that an end has opened are payloads with the same number of the ends that
`source` names. -/
structure Opening (source : End → End → Prop) (c : Channel) (p : End) : Prop where
  opened : (c p).failed = false → (c p).encrypt.opened = UInt64.ofNat (openedBy (c p)).length
  authentic : ∀ i m, (openedBy (c p))[i]? = some m → ∃ q, source p q ∧ ∃ j x,
    (c q).outgoing[j]? = some x ∧ x.payload = m ∧ UInt64.ofNat (j + 1) = UInt64.ofNat (i + 1)

variable {box : SecretBox} {key : Bytes} {c : Channel} {s : FramedStream} {p q : End}
  {source : End → End → Prop}

theorem numbered_send (h : Numbered key s) (payload : Bytes) :
    Numbered key (send box s payload) where
  key := h.key
  sealed := by
    simp only [send, Encrypt.enc, List.length_append, List.length_singleton, h.sealed,
      Encrypt.ofNat_succ]
  outgoing := by
    intro i x hx
    simp only [send, Encrypt.enc, h.sealed, Encrypt.ofNat_succ] at hx
    rcases getElem?_concat hx with hold | ⟨rfl, rfl⟩
    · exact h.outgoing i x hold
    · rfl

theorem dec_key (e : Encrypt) (frame : Bytes) : (e.dec box frame).2.key = e.key := by
  unfold Encrypt.dec
  split <;> rfl

theorem dec_sealed (e : Encrypt) (frame : Bytes) : (e.dec box frame).2.sealed = e.sealed := by
  unfold Encrypt.dec
  split <;> rfl

/-- What a frame that arrives changes. -/
theorem next_spec (s : FramedStream) (frame : Bytes) :
    (next box s frame).outgoing = s.outgoing ∧
      (next box s frame).encrypt = (s.encrypt.dec box frame).2 := by
  unfold next
  split
  · rename_i hdec
    rw [hdec]
    exact ⟨rfl, rfl⟩
  · rename_i hdec
    rw [hdec]
    split <;> exact ⟨rfl, rfl⟩

theorem numbered_next (h : Numbered key s) (frame : Bytes) : Numbered key (next box s frame) where
  key := by rw [(next_spec s frame).2, dec_key, h.key]
  sealed := by rw [(next_spec s frame).1, (next_spec s frame).2, dec_sealed, h.sealed]
  outgoing := by
    rw [(next_spec s frame).1]
    exact h.outgoing

/-- A step changes one end. -/
theorem step_ends {Q : FramedStream → Prop} (h : ∀ p, Q (c p))
    (hsend : ∀ p payload, Q (send box (c p) payload))
    (hnext : ∀ p frame, Q (next box (c p) frame)) (e : ChannelEvent) (p : End) :
    Q (step box c e p) := by
  cases e with
  | send q payload =>
    by_cases hq : p = q
    · subst hq
      rw [step, Function.update_self]
      exact hsend p payload
    · rw [step, Function.update_of_ne hq]
      exact h p
  | deliver q frame =>
    by_cases hq : p = q
    · subst hq
      rw [step, Function.update_self]
      exact hnext p frame
    · rw [step, Function.update_of_ne hq]
      exact h p

theorem numbered_run (es : List ChannelEvent) (p : End) :
    Numbered key (run (step box) (start key) es p) := by
  induction es using List.reverseRecOn generalizing p with
  | nil => exact ⟨rfl, rfl, nofun⟩
  | append_singleton es e ih =>
    rw [run_append]
    exact step_ends ih (fun q payload => numbered_send (ih q) payload)
      (fun q frame => numbered_next (ih q) frame) e p

/-- Two frames share their nonce exactly when they have the same number, be they of one end
or of both. -/
theorem nonce_shared_iff (box : SecretBox) (key : Bytes) (es : List ChannelEvent)
    (hfew : ∀ p, (run (step box) (start key) es p).outgoing.length < 2 ^ 64)
    (p q : End) (i j : Nat) (x y : SealedFrame)
    (hx : (run (step box) (start key) es p).outgoing[i]? = some x)
    (hy : (run (step box) (start key) es q).outgoing[j]? = some y) :
    x.nonce = y.nonce ↔ i = j := by
  have hi := (List.getElem?_eq_some_iff.mp hx).1
  have hj := (List.getElem?_eq_some_iff.mp hy).1
  have hp := hfew p
  have hq := hfew q
  rw [(numbered_run es p).outgoing i x hx, (numbered_run es q).outgoing j y hy,
    Encrypt.getNonce_inj, Encrypt.ofNat_inj (by omega) (by omega)]
  omega

/-- A box for runs on small inputs: its tag is the nonce. -/
def sampleBox : SecretBox where
  sealBox data nonce _ := nonce ++ data
  openBox frame nonce _ := if nonce <+: frame then some (frame.drop nonce.length) else none

/-- The second frame of one end and the first of the other do not share their nonce. -/
theorem nonce_shared_sample :
    Encrypt.getNonce 2 = Encrypt.getNonce 1 ↔ 1 = 0 :=
  nonce_shared_iff sampleBox [] [.send .client [1], .send .server [2], .send .client [3]]
    (fun p => by cases p <;> decide) .client .server 1 0
    ⟨[3], Encrypt.getNonce 2, sampleBox.sealBox [3] (Encrypt.getNonce 2) []⟩
    ⟨[2], Encrypt.getNonce 1, sampleBox.sealBox [2] (Encrypt.getNonce 1) []⟩ (by decide) (by decide)

/-- The first frames of the two ends are sealed under one nonce. -/
theorem nonce_of_both_ends :
    ¬ ∀ (box : SecretBox) (key : Bytes) (es : List ChannelEvent) (p q : End) (x y : SealedFrame),
      (∀ p, (run (step box) (start key) es p).outgoing.length < 2 ^ 64) →
      x ∈ (run (step box) (start key) es p).outgoing →
      y ∈ (run (step box) (start key) es q).outgoing → x.nonce = y.nonce → x.frame = y.frame := by
  intro hall
  have hsame := hall sampleBox [] [.send .client [1], .send .server [2]] .client .server
    ⟨[1], Encrypt.getNonce 1, sampleBox.sealBox [1] (Encrypt.getNonce 1) []⟩
    ⟨[2], Encrypt.getNonce 1, sampleBox.sealBox [2] (Encrypt.getNonce 1) []⟩
    (fun p => by cases p <;> decide) (by decide) (by decide) rfl
  exact absurd hsame (by decide)

theorem sealing_send (h : Sealing box key s) (hkey : s.encrypt.key = key) (payload : Bytes) :
    Sealing box key (send box s payload) := by
  intro x hx
  rcases List.mem_append.mp hx with hold | hnew
  · exact h x hold
  · obtain rfl := List.mem_singleton.mp hnew
    rw [← hkey]

theorem sealing_next (h : Sealing box key s) (frame : Bytes) :
    Sealing box key (next box s frame) := by
  unfold Sealing
  rw [(next_spec s frame).1]
  exact h

theorem sealing_run (es : List ChannelEvent) (p : End) :
    Sealing box key (run (step box) (start key) es p) := by
  induction es using List.reverseRecOn generalizing p with
  | nil => exact nofun
  | append_singleton es e ih =>
    rw [run_append]
    exact step_ends ih (fun q payload => sealing_send (ih q) (numbered_run es q).key payload)
      (fun q frame => sealing_next (ih q) frame) e p

/-- The frames an end has sealed stay. -/
theorem outgoing_step (c : Channel) (e : ChannelEvent) (p : End) :
    (c p).outgoing <+: (step box c e p).outgoing := by
  cases e with
  | send q payload =>
    by_cases hq : p = q
    · subst hq
      rw [step, Function.update_self]
      exact List.prefix_append _ _
    · simp only [step, Function.update_of_ne hq, List.prefix_rfl]
  | deliver q frame =>
    by_cases hq : p = q
    · subst hq
      simp only [step, Function.update_self, (next_spec _ frame).1, List.prefix_rfl]
    · simp only [step, Function.update_of_ne hq, List.prefix_rfl]

/-- What an end has opened stays where it came from while the ends go on sealing. -/
theorem Opening.mono {c' : Channel} (h : Opening source c p)
    (hgrow : ∀ q, (c q).outgoing <+: (c' q).outgoing) (hopened : openedBy (c' p) = openedBy (c p))
    (hcount : (c' p).failed = false →
      (c p).failed = false ∧ (c' p).encrypt.opened = (c p).encrypt.opened) :
    Opening source c' p where
  opened := fun hfailed => by
    rw [(hcount hfailed).2, h.opened (hcount hfailed).1, hopened]
  authentic := by
    intro i m hm
    rw [hopened] at hm
    obtain ⟨q, hq, j, x, hx, hpayload, hnumber⟩ := h.authentic i m hm
    exact ⟨q, hq, j, x, getElem?_extend (hgrow q) hx, hpayload, hnumber⟩

theorem openedBy_concat (s : FramedStream) (r : Received) :
    openedBy { s with accepted := s.accepted ++ [r] } =
      openedBy s ++ if r.opened then [r.payload] else [] := by
  simp only [openedBy, List.filter_append, List.map_append]
  cases hr : r.opened <;> simp [hr]

/-- A frame that arrives opens nothing, or one more payload. -/
theorem next_cases (s : FramedStream) (frame : Bytes) :
    (openedBy (next box s frame) = openedBy s ∧ ((next box s frame).failed = false →
      s.failed = false ∧ (next box s frame).encrypt.opened = s.encrypt.opened)) ∨
    (s.failed = false ∧ ∃ payload,
      box.openBox frame (Encrypt.getNonce (s.encrypt.opened + 1)) s.encrypt.key = some payload ∧
      (next box s frame).encrypt.opened = s.encrypt.opened + 1 ∧
      openedBy (next box s frame) = openedBy s ++ [payload]) := by
  by_cases hshort : frame.length ≤ 1
  · -- too short to be opened
    have hdec : s.encrypt.dec box frame = (some frame, s.encrypt) := if_pos hshort
    have hpassed : decide (1 < frame.length) = false := decide_eq_false (by omega)
    left
    simp only [next, hdec, hpassed]
    cases hfailed : s.failed
    · refine ⟨?_, fun _ => ⟨rfl, rfl⟩⟩
      exact (openedBy_concat s ⟨frame, false⟩).trans (List.append_nil _)
    · exact ⟨rfl, nofun⟩
  · have hdec : s.encrypt.dec box frame =
        (box.openBox frame (Encrypt.getNonce (s.encrypt.opened + 1)) s.encrypt.key,
          { s.encrypt with opened := s.encrypt.opened + 1 }) := if_neg hshort
    cases hopen : box.openBox frame (Encrypt.getNonce (s.encrypt.opened + 1)) s.encrypt.key with
    | none =>
      left
      rw [next, hdec, hopen]
      exact ⟨rfl, nofun⟩
    | some payload =>
      cases hfailed : s.failed
      · right
        refine ⟨rfl, payload, rfl, ?_⟩
        have hopened : decide (1 < frame.length) = true := decide_eq_true (by omega)
        simp only [next, hdec, hopen, hfailed, hopened]
        exact ⟨rfl, openedBy_concat s ⟨payload, true⟩⟩
      · left
        simp only [next, hdec, hopen, hfailed, if_true]
        exact ⟨rfl, nofun⟩

/-- The payload that opens was sealed with the number it opens under. -/
theorem payload_opened (hlaw : box.Lawful) (hnum : ∀ q, Numbered key (c q))
    (hseal : ∀ q, Sealing box key (c q)) {frame payload : Bytes}
    (hauth : Authentic source box c (.deliver p frame))
    (hopen : box.openBox frame (Encrypt.getNonce ((c p).encrypt.opened + 1)) (c p).encrypt.key =
      some payload) :
    ∃ q, source p q ∧ ∃ j x, (c q).outgoing[j]? = some x ∧ x.payload = payload ∧
      UInt64.ofNat (j + 1) = (c p).encrypt.opened + 1 := by
  obtain ⟨q, hq, x, hx, hnonce, hframe⟩ := hauth payload hopen
  obtain ⟨j, hj⟩ := List.mem_iff_getElem?.mp hx
  refine ⟨q, hq, j, x, hj, ?_, ?_⟩
  · have hbox := hlaw x.payload x.nonce key
    rw [← hseal q x hx, hframe, hnonce, ← (hnum p).key, hopen] at hbox
    exact (Option.some.inj hbox).symm
  · rw [(hnum q).outgoing j x hj, Encrypt.getNonce_inj] at hnonce
    exact hnonce

theorem opening_deliver (hlaw : box.Lawful) (hnum : ∀ q, Numbered key (c q))
    (hseal : ∀ q, Sealing box key (c q)) (h : Opening source c p) {frame : Bytes}
    (hauth : Authentic source box c (.deliver p frame)) :
    Opening source (step box c (.deliver p frame)) p := by
  have hgrow (q : End) : (c q).outgoing <+: (step box c (.deliver p frame) q).outgoing :=
    outgoing_step c _ q
  have hself : step box c (.deliver p frame) p = next box (c p) frame := Function.update_self ..
  rcases next_cases (c p) frame with ⟨hsame, hcount⟩ | ⟨hfailed, payload, hopen, hcount, hmore⟩
  · rw [← hself] at hsame hcount
    exact h.mono hgrow hsame hcount
  · rw [← hself] at hcount hmore
    have hnumber := h.opened hfailed
    refine ⟨fun _ => ?_, fun i m hm => ?_⟩
    · rw [hcount, hmore, List.length_append, List.length_singleton, hnumber, Encrypt.ofNat_succ]
    · rw [hmore] at hm
      rcases getElem?_concat hm with hold | ⟨rfl, rfl⟩
      · obtain ⟨q, hq, j, x, hx, hpayload, hj⟩ := h.authentic i m hold
        exact ⟨q, hq, j, x, getElem?_extend (hgrow q) hx, hpayload, hj⟩
      · obtain ⟨q, hq, j, x, hx, hpayload, hj⟩ := payload_opened hlaw hnum hseal hauth hopen
        rw [hnumber, Encrypt.ofNat_succ] at hj
        exact ⟨q, hq, j, x, getElem?_extend (hgrow q) hx, hpayload, hj⟩

/-- What the other end or the network does leaves what an end has opened. -/
theorem opening_other (h : Opening source c p) {e : ChannelEvent}
    (hsame : openedBy (step box c e p) = openedBy (c p))
    (hfailed : (step box c e p).failed = (c p).failed)
    (hopened : (step box c e p).encrypt.opened = (c p).encrypt.opened) :
    Opening source (step box c e) p :=
  h.mono (fun q => outgoing_step c e q) hsame fun hok => ⟨hfailed ▸ hok, hopened⟩

theorem opening_step (hlaw : box.Lawful) (hnum : ∀ q, Numbered key (c q))
    (hseal : ∀ q, Sealing box key (c q)) (h : ∀ p, Opening source c p) {e : ChannelEvent}
    (hauth : Authentic source box c e) (p : End) : Opening source (step box c e) p := by
  cases e with
  | send q payload =>
    by_cases hq : p = q
    · subst hq
      have hself : step box c (.send p payload) p = send box (c p) payload :=
        Function.update_self ..
      exact opening_other (h p) (by rw [hself]; rfl) (by rw [hself]; rfl) (by rw [hself]; rfl)
    · have hother : step box c (.send q payload) p = c p := Function.update_of_ne hq ..
      exact opening_other (h p) (by rw [hother]) (by rw [hother]) (by rw [hother])
  | deliver q frame =>
    by_cases hq : p = q
    · subst hq
      exact opening_deliver hlaw hnum hseal (h p) hauth
    · have hother : step box c (.deliver q frame) p = c p := Function.update_of_ne hq ..
      exact opening_other (h p) (by rw [hother]) (by rw [hother]) (by rw [hother])

/-- The invariant of the runs in which what opens was sealed by the ends named. -/
theorem opening_run (hlaw : box.Lawful) {es : List ChannelEvent}
    (hes : Allowed (step box) (Authentic source box) (start key) es) (p : End) :
    Opening source (run (step box) (start key) es) p :=
  run_keeps_past (Q := fun _ c => ∀ p, Opening source c p)
    (fun pre _ h hauth => opening_step hlaw (numbered_run pre) (sealing_run pre) h hauth)
    (fun _ => ⟨fun _ => rfl, nofun⟩) hes p

/-- A payload that is opened has the number of the payload that was sealed. -/
theorem Opening.number (h : Opening source c p) (hfew : ∀ q, (c q).outgoing.length < 2 ^ 64)
    {i : Nat} {m : Bytes} (hm : (openedBy (c p))[i]? = some m) :
    ∃ q, source p q ∧ (sent c q)[i]? = some m := by
  -- the number zero, which the count would come back to, is the number of no frame
  have hbound : i < 2 ^ 64 - 1 := by
    by_contra hlong
    have hlast : 2 ^ 64 - 1 < (openedBy (c p)).length := by
      have := (List.getElem?_eq_some_iff.mp hm).1
      omega
    obtain ⟨q, -, j, x, hx, -, hj⟩ :=
      h.authentic (2 ^ 64 - 1) _ (List.getElem?_eq_getElem hlast)
    have hjlen := (List.getElem?_eq_some_iff.mp hx).1
    have hq := hfew q
    have hzero : UInt64.ofNat (2 ^ 64 - 1 + 1) = UInt64.ofNat 0 := rfl
    rw [hzero, Encrypt.ofNat_inj (by omega) (by omega)] at hj
    omega
  obtain ⟨q, hq, j, x, hx, rfl, hj⟩ := h.authentic i m hm
  have hjlen := (List.getElem?_eq_some_iff.mp hx).1
  have hqfew := hfew q
  rw [Encrypt.ofNat_inj (by omega) (by omega)] at hj
  obtain rfl : j = i := by omega
  refine ⟨q, hq, ?_⟩
  rw [sent, List.getElem?_map, hx]
  rfl

/-- Every payload that was not opened is as short as a frame that is passed on. -/
def PassedShort (s : FramedStream) : Prop :=
  ∀ r ∈ s.accepted, r.opened = false → r.payload.length ≤ 1

theorem passedShort_next (h : PassedShort s) (frame : Bytes) : PassedShort (next box s frame) := by
  unfold next
  split
  · exact h
  · rename_i payload encrypt hdec
    split
    · exact h
    · intro r hr hpassed
      rcases List.mem_append.mp hr with hold | hnew
      · exact h r hold hpassed
      · obtain rfl := List.mem_singleton.mp hnew
        have hshort : frame.length ≤ 1 := Nat.le_of_not_lt (of_decide_eq_false hpassed)
        rw [Encrypt.dec, if_pos hshort] at hdec
        obtain rfl : frame = payload := Option.some.inj (congrArg Prod.fst hdec)
        exact hshort

theorem passedShort_run (es : List ChannelEvent) (p : End) :
    PassedShort (run (step box) (start key) es p) := by
  induction es using List.reverseRecOn generalizing p with
  | nil => exact nofun
  | append_singleton es e ih =>
    rw [run_append]
    exact step_ends ih (fun q _ => ih q) (fun q frame => passedShort_next (ih q) frame) e p

/-- Where nobody gets an own frame back, what opens was sealed by the other end. -/
theorem authentic_other {e : ChannelEvent} (hideal : Ideal box c e) (hback : NotReflected c e) :
    Authentic (fun p q => q = p.other) box c e := by
  cases e with
  | send => exact trivial
  | deliver p frame =>
    intro payload hopen
    obtain ⟨q, -, x, hx, hnonce, hframe⟩ := hideal payload hopen
    refine ⟨q, ?_, x, hx, hnonce, hframe⟩
    by_contra hq
    have hown : q = p := by
      cases p <;> cases q <;> simp_all [End.other]
    exact hback x (hown ▸ hx) hframe

/-- What an end opens before its first error are, one by one, the payloads with the same
numbers that one of the ends sent, and where nobody gets an own frame back, the first of
those that the other end sent. What it accepts besides is passed on, and at most one byte. -/
theorem channel_integrity (box : SecretBox) (hlaw : box.Lawful) (key : Bytes)
    (es : List ChannelEvent) (hideal : Allowed (step box) (Ideal box) (start key) es)
    (hfew : ∀ p, (run (step box) (start key) es p).outgoing.length < 2 ^ 64) (p : End) :
    (∀ (i : Nat) (m : Bytes), (openedBy (run (step box) (start key) es p))[i]? = some m →
      ∃ q, (sent (run (step box) (start key) es) q)[i]? = some m) ∧
    (Allowed (step box) NotReflected (start key) es →
      openedBy (run (step box) (start key) es p) <+:
        sent (run (step box) (start key) es) p.other) ∧
    (∀ r ∈ (run (step box) (start key) es p).accepted,
      r.opened = false → r.payload.length ≤ 1) := by
  refine ⟨fun i m hm => ?_, fun hback => ?_, passedShort_run es p⟩
  · obtain ⟨q, -, hq⟩ := (opening_run hlaw hideal p).number hfew hm
    exact ⟨q, hq⟩
  · have hauth := hideal.both (fun _ _ => authentic_other) hback
    rw [List.prefix_iff_getElem?]
    intro i hi
    obtain ⟨q, rfl, hq⟩ :=
      (opening_run hlaw hauth p).number hfew (List.getElem?_eq_getElem hi)
    exact hq

theorem sampleBox_lawful : sampleBox.Lawful := by
  intro data nonce key
  simp only [sampleBox, List.prefix_append, if_true, List.drop_left]

/-- The first frame of the server opens at the client. -/
theorem channel_integrity_sample :
    openedBy (run (step sampleBox) (start [])
      [.send .client [1], .send .server [2],
        .deliver .client (sampleBox.sealBox [2] (Encrypt.getNonce 1) [])] .client) <+:
    sent (run (step sampleBox) (start [])
      [.send .client [1], .send .server [2],
        .deliver .client (sampleBox.sealBox [2] (Encrypt.getNonce 1) [])]) .server := by
  refine (channel_integrity sampleBox sampleBox_lawful [] _ ?_ ?_ .client).2.1 ?_
  · refine ⟨trivial, trivial, fun payload _ => ⟨.server, trivial, ?_⟩, trivial⟩
    exact ⟨_, List.mem_singleton_self _, rfl, rfl⟩
  · intro p
    cases p <;> decide
  · refine ⟨trivial, trivial, fun x hx => ?_, trivial⟩
    obtain rfl := List.mem_singleton.mp hx
    decide

/-- Before its first error an end accepts the first of the payloads that the other end sent. -/
def Integrity (box : SecretBox) (key : Bytes) (es : List ChannelEvent) : Prop :=
  Allowed (step box) (Ideal box) (start key) es →
    ∀ p, accepted (run (step box) (start key) es) p <+:
      sent (run (step box) (start key) es) p.other

/-- A frame that comes back to its sender is accepted, though the other end has sent nothing,
and so is a frame of one byte that nobody sealed. -/
theorem accepted_from_nobody :
    ¬ Integrity sampleBox [] [.send .client [1, 2, 3],
      .deliver .client (sampleBox.sealBox [1, 2, 3] (Encrypt.getNonce 1) [])] ∧
    ¬ Integrity sampleBox [] [.deliver .client [7]] := by
  constructor
  · intro h
    refine absurd (h ⟨trivial, fun payload _ => ⟨.client, trivial, ?_⟩, trivial⟩ .client)
      (by decide)
    exact ⟨_, List.mem_singleton_self _, rfl, rfl⟩
  · intro h
    refine absurd (h ⟨fun payload hopen => ?_, trivial⟩ .client) (by decide)
    exact absurd hopen (by decide +revert)

end Channel

end MDesk
