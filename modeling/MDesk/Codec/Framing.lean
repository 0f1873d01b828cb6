import MDesk.Codec.RoundTrip

/-!
# Streams from anybody

What the decoder makes of a stream that no encoder has written. The packets it gives are exactly
the payloads of the frames at the front of the stream, none is longer than the limit, and the bytes
behind them either begin a frame or announce one that is too long. None of it depends on how the
stream is cut into chunks.
-/

namespace MDesk.BytesCodec

/-- Bytes that announce a payload of a length. -/
def IsHeader (hdr : Bytes) (len : Nat) : Prop :=
  ∃ w ≤ 3, hdr.length = w + 1 ∧ leValue hdr = 4 * len + w

/-- A header and a payload of the length that it announces, within the limit. -/
def IsFrame (c : BytesCodec) (frame : Bytes × Bytes) : Prop :=
  IsHeader frame.1 frame.2.length ∧ frame.2.length ≤ c.maxPacketLength

/-- What is behind the last frame of a stream, by how the decoder ends: it fails on a header that
announces too much, it waits for the rest of a header, or it waits for the rest of a payload. -/
def Remainder (c : BytesCodec) (tail : Bytes) : Except IoError (BytesCodec × Bytes) → Prop
  | .error e => e = .invalidData "Too big packet" ∧
      ∃ hdr rest len, tail = hdr ++ rest ∧ IsHeader hdr len ∧ c.maxPacketLength < len
  | .ok (c', buf) =>
      (c' = c ∧ buf = tail ∧ ∀ hdr len, IsHeader hdr len → ¬ hdr <+: tail) ∨
      ∃ hdr len, tail = hdr ++ buf ∧ IsHeader hdr len ∧ len ≤ c.maxPacketLength ∧
        buf.length < len ∧ c' = { c with state := .data len }

variable {c : BytesCodec} {src stream : Bytes}

/-- The first byte of a header tells its width. -/
theorem IsHeader.width {b : UInt8} {bs : Bytes} {len : Nat} (h : IsHeader (b :: bs) len) :
    (b :: bs).length = (b &&& 0x3).toNat + 1 := by
  obtain ⟨w, hw, hlen, hv⟩ := h
  rw [hlen, headLen_eq hw hv]

/-- As many bytes as the first one asks for are a header. -/
theorem isHeader_take {b : UInt8} {bs : Bytes}
    (h : (b &&& 0x3).toNat + 1 ≤ (b :: bs).length) :
    IsHeader ((b :: bs).take ((b &&& 0x3).toNat + 1))
      (headValue (b :: bs) ((b &&& 0x3).toNat + 1)) := by
  have hb : (b &&& 0x3).toNat = b.toNat % 4 := by
    rw [UInt8.toNat_and]
    exact Nat.and_two_pow_sub_one_eq_mod b.toNat 2
  have hlen : ((b :: bs).take ((b &&& 0x3).toNat + 1)).length = (b &&& 0x3).toNat + 1 :=
    List.length_take_of_le h
  have hone : 1 ≤ ((b :: bs).take ((b &&& 0x3).toNat + 1)).length := by omega
  have hvalue := headValue_append ((b :: bs).drop ((b &&& 0x3).toNat + 1)) hone (by omega)
  rw [List.take_append_drop, hlen] at hvalue
  refine ⟨(b &&& 0x3).toNat, by omega, hlen, ?_⟩
  rw [hvalue]
  simp only [List.take_succ_cons, leValue]
  omega

/-- The three answers to the front of a stream. -/
theorem decodeHead_cases (c : BytesCodec) (src : Bytes) :
    (c.decodeHead src = .ok none ∧ ∀ hdr len, IsHeader hdr len → ¬ hdr <+: src) ∨
    (∃ hdr rest len, src = hdr ++ rest ∧ IsHeader hdr len ∧ c.maxPacketLength < len ∧
      c.decodeHead src = .error (.invalidData "Too big packet")) ∨
    ∃ hdr rest len, src = hdr ++ rest ∧ IsHeader hdr len ∧ len ≤ c.maxPacketLength ∧
      c.decodeHead src = .ok (some (len, rest)) := by
  cases src with
  | nil =>
    refine .inl ⟨rfl, fun hdr len h hpre => ?_⟩
    obtain ⟨w, -, hlen, -⟩ := h
    rw [List.prefix_nil.mp hpre] at hlen
    cases hlen
  | cons b bs =>
    by_cases hshort : (b :: bs).length < (b &&& 0x3).toNat + 1
    · refine .inl ⟨by simp only [decodeHead, if_pos hshort], fun hdr len h hpre => ?_⟩
      cases hdr with
      | nil =>
        obtain ⟨w, -, hlen, -⟩ := h
        cases hlen
      | cons d ds =>
        obtain ⟨rfl, -⟩ := List.cons_prefix_cons.mp hpre
        have hle := hpre.length_le
        rw [h.width] at hle
        omega
    · have hheader := isHeader_take (Nat.not_lt.mp hshort)
      have hsplit := (List.take_append_drop ((b &&& 0x3).toNat + 1) (b :: bs)).symm
      by_cases hbig : headValue (b :: bs) ((b &&& 0x3).toNat + 1) > c.maxPacketLength
      · refine .inr (.inl ⟨_, _, _, hsplit, hheader, hbig, ?_⟩)
        simp only [decodeHead, if_neg hshort, if_pos hbig]
      · refine .inr (.inr ⟨_, _, _, hsplit, hheader, Nat.not_lt.mp hbig, ?_⟩)
        simp only [decodeHead, if_neg hshort, if_neg hbig]

/-- What draining any stream comes to. -/
theorem drain_wellFormed (hraw : c.raw = false) (hs : c.state = .head) (stream : Bytes) :
    ∃ (frames : List (Bytes × Bytes)) (tail : Bytes),
      stream = frames.flatMap (fun f => f.1 ++ f.2) ++ tail ∧
      (∀ f ∈ frames, c.IsFrame f) ∧
      (streamDecoder.drain c stream).1 = frames.map Prod.snd ∧
      c.Remainder tail (streamDecoder.drain c stream).2 := by
  induction hn : stream.length using Nat.strong_induction_on generalizing stream with
  | _ n ih =>
    rcases decodeHead_cases c stream with ⟨hnone, hshort⟩ | ⟨hdr, rest, len, rfl, hh, hbig, herr⟩ |
      ⟨hdr, rest, len, rfl, hh, hfits, hsome⟩
    · have hd : streamDecoder.decode c stream = .ok (none, c, stream) := by
        simp [streamDecoder, decode, hraw, hs, hnone]
      rw [streamDecoder.drain_none hd]
      exact ⟨[], stream, rfl, List.forall_mem_nil _, rfl, .inl ⟨rfl, rfl, hshort⟩⟩
    · have hd : streamDecoder.decode c (hdr ++ rest) = .error (.invalidData "Too big packet") := by
        simp [streamDecoder, decode, hraw, hs, herr]
      rw [streamDecoder.drain_error hd]
      exact ⟨[], hdr ++ rest, rfl, List.forall_mem_nil _, rfl, rfl, hdr, rest, len, rfl, hh, hbig⟩
    · have hd := decode_of_head hraw hs hsome
      by_cases hwait : rest.length < len
      · simp only [decodePayload, decodeData, if_pos hwait] at hd
        rw [streamDecoder.drain_none hd]
        exact ⟨[], hdr ++ rest, rfl, List.forall_mem_nil _, rfl,
          .inr ⟨hdr, len, rfl, hh, hfits, hwait, rfl⟩⟩
      · have hcodec : { c with state := .head } = c := by rw [← hs]
        simp only [decodePayload, decodeData, if_neg hwait, hcodec] at hd
        have htake : (rest.take len).length = len := List.length_take_of_le (Nat.not_lt.mp hwait)
        have hpos : 0 < hdr.length := by
          obtain ⟨w, -, hwidth, -⟩ := hh
          omega
        obtain ⟨frames, tail, hrest, hframes, hitems, hremainder⟩ :=
          ih (rest.drop len).length (by
            rw [← hn, List.length_append, List.length_drop]
            omega) (rest.drop len) rfl
        rw [streamDecoder.drain_some hd]
        refine ⟨(hdr, rest.take len) :: frames, tail, ?_, ?_, ?_, hremainder⟩
        · rw [List.flatMap_cons, List.append_assoc, ← hrest, List.append_assoc,
            List.take_append_drop]
        · refine List.forall_mem_cons.mpr ⟨⟨?_, ?_⟩, hframes⟩
          · rwa [htake]
          · rwa [htake]
        · rw [List.map_cons, hitems]

/-- Whatever arrives, in whatever chunks, the decoder gives the payloads of the frames at the front
of the stream, keeps to the limit, and ends on what begins the next frame, or fails on a header
that announces too much. -/
theorem feed_wellFormed (hraw : c.raw = false) (hs : c.state = .head) (chunks : List Bytes) :
    (∃ (frames : List (Bytes × Bytes)) (tail : Bytes),
      chunks.flatten = frames.flatMap (fun f => f.1 ++ f.2) ++ tail ∧
      (∀ f ∈ frames, c.IsFrame f) ∧
      (streamDecoder.feed c [] chunks).1 = frames.map Prod.snd ∧
      c.Remainder tail (streamDecoder.feed c [] chunks).2) ∧
    ∀ chunks', chunks'.flatten = chunks.flatten →
      streamDecoder.feed c [] chunks' = streamDecoder.feed c [] chunks := by
  have hquiet : streamDecoder.Quiescent c [] := by
    simp [Core.StreamDecoder.Quiescent, streamDecoder, decode, hraw, hs, decodeHead]
  have hfeed : ∀ chunks, streamDecoder.feed c [] chunks = streamDecoder.drain c chunks.flatten :=
    fun chunks => streamDecoder.feed_eq_drain hraw hquiet chunks
  constructor
  · rw [hfeed]
    exact drain_wellFormed hraw hs chunks.flatten
  · intro chunks' hsame
    rw [hfeed, hfeed, hsame]

theorem feed_wellFormed_limited :
    ∃ (frames : List (Bytes × Bytes)) (tail : Bytes),
      [9, 7, 0, 4, 1, 3, 1] = frames.flatMap (fun f => f.1 ++ f.2) ++ tail ∧
      (∀ f ∈ frames, (new.setMaxPacketLength 2).IsFrame f) ∧
      (streamDecoder.feed (new.setMaxPacketLength 2) [] [[9], [7, 0, 4], [1, 3, 1]]).1 =
        frames.map Prod.snd ∧
      (new.setMaxPacketLength 2).Remainder tail
        (streamDecoder.feed (new.setMaxPacketLength 2) [] [[9], [7, 0, 4], [1, 3, 1]]).2 :=
  (feed_wellFormed (c := new.setMaxPacketLength 2) rfl rfl [[9], [7, 0, 4], [1, 3, 1]]).1

end MDesk.BytesCodec
