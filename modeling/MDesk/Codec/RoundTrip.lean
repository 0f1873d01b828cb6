import MDesk.Codec.BytesCodec
import Mathlib.Data.List.GetD
import Mathlib.Tactic.Ring

/-!
# Framing round trip

The four header widths are unified by their little-endian value: a header of
`w + 1` bytes carries `4 * len + w`. The encoder writes exactly that value without
losing bits, and the decoder reads `w` back from the first byte and `len` from the
rest. Resumability of `decode` turns the codec into a `Core.StreamDecoder`, so a
stream may be cut anywhere.
-/

namespace MDesk.BytesCodec

/-- The number written by a little-endian byte string. -/
def leValue : Bytes → Nat
  | [] => 0
  | b :: bs => b.toNat + 256 * leValue bs

theorem leValue_append (xs ys : Bytes) :
    leValue (xs ++ ys) = leValue xs + 256 ^ xs.length * leValue ys := by
  induction xs with
  | nil => simp [leValue]
  | cons b bs ih =>
    rw [List.cons_append, leValue, leValue, ih, List.length_cons, Nat.pow_succ]
    ring

/-- Disjoint bits may be added instead of or-ed. -/
private theorem or_shiftLeft {a b i : Nat} (h : a < 2 ^ i) : a ||| b <<< i = a + b * 2 ^ i := by
  rw [Nat.or_comm, ← Nat.shiftLeft_add_eq_or_of_lt h, Nat.shiftLeft_eq, Nat.add_comm]

private theorem shiftLeft_two_or {k : Nat} (len : Nat) (h : k < 4) :
    len <<< 2 ||| k = 4 * len + k := by
  rw [← Nat.shiftLeft_add_eq_or_of_lt (i := 2) h, Nat.shiftLeft_eq]
  omega

/-- A header is read as the quotient of its little-endian value by four. -/
theorem headValue_append {hdr : Bytes} (rest : Bytes) (h₁ : 1 ≤ hdr.length)
    (h₄ : hdr.length ≤ 4) : headValue (hdr ++ rest) hdr.length = leValue hdr / 4 := by
  match hdr with
  | [a] =>
    simp [headValue, leValue, Nat.shiftRight_eq_div_pow]
  | [a, b] =>
    have ha := a.toNat_lt
    simp [headValue, leValue, Nat.shiftRight_eq_div_pow, or_shiftLeft ha]
    omega
  | [a, b, c] =>
    have ha := a.toNat_lt
    have hb := b.toNat_lt
    have hab : a.toNat + b.toNat * 256 < 2 ^ 16 := by omega
    simp [headValue, leValue, Nat.shiftRight_eq_div_pow, or_shiftLeft ha, or_shiftLeft hab]
    omega
  | [a, b, c, d] =>
    have ha := a.toNat_lt
    have hb := b.toNat_lt
    have hc := c.toNat_lt
    have hab : a.toNat + b.toNat * 256 < 2 ^ 16 := by omega
    have habc : a.toNat + b.toNat * 256 + c.toNat * 65536 < 2 ^ 24 := by omega
    simp [headValue, leValue, Nat.shiftRight_eq_div_pow, or_shiftLeft ha, or_shiftLeft hab,
      or_shiftLeft habc]
    omega

/-- The first byte of a header announces its width. -/
theorem headLen_eq {b : UInt8} {bs : Bytes} {len w : Nat} (hw : w ≤ 3)
    (hv : leValue (b :: bs) = 4 * len + w) : (b &&& 0x3).toNat + 1 = w + 1 := by
  have hb : (b &&& 0x3).toNat = b.toNat % 4 := by
    rw [UInt8.toNat_and]
    exact Nat.and_two_pow_sub_one_eq_mod b.toNat 2
  simp only [leValue] at hv
  omega

/-- Any byte string carrying `4 * len + w` in `w + 1` bytes is read as a header of
length `len`, whatever follows it. -/
theorem decodeHead_header {c : BytesCodec} {hdr : Bytes} {len w : Nat} (rest : Bytes)
    (hw : w ≤ 3) (hlen : hdr.length = w + 1) (hv : leValue hdr = 4 * len + w)
    (hmax : len ≤ c.maxPacketLength) :
    c.decodeHead (hdr ++ rest) = .ok (some (len, rest)) := by
  cases hdr with
  | nil => simp at hlen
  | cons b bs =>
    have hhead := headLen_eq hw hv
    have hval : headValue (b :: bs ++ rest) (w + 1) = len := by
      rw [← hlen, headValue_append rest (by omega) (by omega), hv]
      omega
    have hshort : ¬ (b :: bs ++ rest).length < w + 1 := by
      rw [List.length_append]
      omega
    simp only [List.cons_append] at hval hshort ⊢
    simp only [decodeHead, hhead, hshort, if_false, hval, Nat.not_lt.mpr hmax,
      Except.ok.injEq, Option.some.injEq, Prod.mk.injEq, true_and]
    rw [← List.cons_append, ← hlen, List.drop_left]

theorem leValue_putU8 (v : UInt8) : leValue (putU8 v) = v.toNat := by
  simp [putU8, leValue]

theorem leValue_putU16Le (v : UInt16) : leValue (putU16Le v) = v.toNat := by
  have hv := v.toNat_lt
  simp [putU16Le, leValue, Nat.shiftRight_eq_div_pow]
  omega

theorem leValue_putU32Le (v : UInt32) : leValue (putU32Le v) = v.toNat := by
  have hv := v.toNat_lt
  simp [putU32Le, leValue, Nat.shiftRight_eq_div_pow]
  omega

/-- The three-byte header is the low 24 bits of a word. -/
theorem leValue_put24 {v : UInt32} (h : v.toNat < 2 ^ 24) :
    leValue (putU16Le (v &&& 0xFFFF).toUInt16 ++ putU8 (v >>> 16).toUInt8) = v.toNat := by
  have hlow : (v &&& 0xFFFF).toUInt16.toNat = v.toNat % 2 ^ 16 := by
    rw [UInt32.toNat_toUInt16, UInt32.toNat_and]
    change (v.toNat &&& (2 ^ 16 - 1)) % 2 ^ 16 = v.toNat % 2 ^ 16
    rw [Nat.and_two_pow_sub_one_eq_mod, Nat.mod_mod]
  have hhigh : (v >>> 16).toUInt8.toNat = v.toNat / 2 ^ 16 % 2 ^ 8 := by
    simp [Nat.shiftRight_eq_div_pow]
  rw [leValue_append, leValue_putU16Le, leValue_putU8, hlow, hhigh]
  change v.toNat % 2 ^ 16 + 256 ^ 2 * (v.toNat / 2 ^ 16 % 2 ^ 8) = v.toNat
  omega

/-- The encoder emits a header whose value determines width and length exactly:
none of its casts drops a bit. -/
theorem encode_eq {c : BytesCodec} (hraw : c.raw = false) {data : Bytes}
    (h : data.length ≤ 0x3FFFFFFF) (buf : Bytes) :
    ∃ (hdr : Bytes) (w : Nat), w ≤ 3 ∧ hdr.length = w + 1 ∧
      leValue hdr = 4 * data.length + w ∧ c.encode data buf = .ok (buf ++ hdr ++ data) := by
  have hshift : data.length <<< 2 = 4 * data.length := by rw [Nat.shiftLeft_eq]; omega
  simp only [encode, hraw, Bool.false_eq_true, if_false]
  by_cases h₀ : data.length ≤ 0x3F
  · refine ⟨putU8 (UInt8.ofNat (data.length <<< 2)), 0, by omega, rfl, ?_, by rw [if_pos h₀]⟩
    rw [leValue_putU8, UInt8.toNat_ofNat']
    omega
  by_cases h₁ : data.length ≤ 0x3FFF
  · refine ⟨putU16Le (UInt16.ofNat (data.length <<< 2) ||| 0x1), 1, by omega, rfl, ?_,
      by rw [if_neg h₀, if_pos h₁]⟩
    have hmod : data.length <<< 2 % 2 ^ 16 = data.length <<< 2 := Nat.mod_eq_of_lt (by omega)
    rw [leValue_putU16Le, UInt16.toNat_or, UInt16.toNat_ofNat', hmod]
    exact shiftLeft_two_or data.length (by decide)
  by_cases h₂ : data.length ≤ 0x3FFFFF
  · have hmod : data.length <<< 2 % 2 ^ 32 = data.length <<< 2 := Nat.mod_eq_of_lt (by omega)
    have hval : (UInt32.ofNat (data.length <<< 2) ||| 0x2).toNat = 4 * data.length + 2 := by
      rw [UInt32.toNat_or, UInt32.toNat_ofNat', hmod]
      exact shiftLeft_two_or data.length (by decide)
    refine ⟨putU16Le ((UInt32.ofNat (data.length <<< 2) ||| 0x2) &&& 0xFFFF).toUInt16 ++
      putU8 ((UInt32.ofNat (data.length <<< 2) ||| 0x2) >>> 16).toUInt8, 2, by omega, rfl, ?_,
      by simp [h₀, h₁, h₂]⟩
    rw [leValue_put24 (by omega), hval]
  · refine ⟨putU32Le (UInt32.ofNat (data.length <<< 2) ||| 0x3), 3, by omega, rfl, ?_,
      by rw [if_neg h₀, if_neg h₁, if_neg h₂, if_pos h]⟩
    have hmod : data.length <<< 2 % 2 ^ 32 = data.length <<< 2 := Nat.mod_eq_of_lt (by omega)
    rw [leValue_putU32Le, UInt32.toNat_or, UInt32.toNat_ofNat', hmod]
    exact shiftLeft_two_or data.length (by decide)

/-- A complete header in the buffer is read the same way when more bytes follow. -/
theorem headValue_more (src more : Bytes) {w : Nat} (h₁ : 1 ≤ w) (h : w ≤ src.length) :
    headValue (src ++ more) w = headValue src w := by
  have hget (i : Nat) (hi : i < w) : (src ++ more).getD i 0 = src.getD i 0 :=
    List.getD_append src more 0 i (by omega)
  simp only [headValue, hget 0 (by omega)]
  by_cases h₂ : w > 1 <;> by_cases h₃ : w > 2 <;> by_cases h₄ : w > 3 <;>
    simp_all

/-- A header read answers alike, up to the bytes appended behind it, unless the
header itself is incomplete. -/
theorem decodeHead_append {c : BytesCodec} (src more : Bytes)
    (h : c.decodeHead src ≠ .ok none) :
    c.decodeHead (src ++ more) =
      (c.decodeHead src).map (Option.map fun r => (r.1, r.2 ++ more)) := by
  cases src with
  | nil => exact absurd rfl h
  | cons b bs =>
    simp only [decodeHead, List.cons_append] at h ⊢
    by_cases hshort : (b :: bs).length < (b &&& 0x3).toNat + 1
    · exact absurd (by rw [if_pos hshort]) h
    · have hlong : ¬ (b :: (bs ++ more)).length < (b &&& 0x3).toNat + 1 := by
        simp only [List.length_cons, List.length_append] at hshort ⊢
        omega
      have hval := headValue_more (b :: bs) more (w := (b &&& 0x3).toNat + 1) (by omega)
        (by omega)
      rw [List.cons_append] at hval
      rw [if_neg hshort, if_neg hlong, hval]
      split
      · rfl
      · simp only [Except.map, Option.map_some, Except.ok.injEq, Option.some.injEq, Prod.mk.injEq,
          true_and]
        rw [← List.cons_append, List.drop_append_of_le_length (by omega)]

theorem decodeHead_rest_lt {c : BytesCodec} {src rest : Bytes} {n : Nat}
    (h : c.decodeHead src = .ok (some (n, rest))) : rest.length < src.length := by
  cases src with
  | nil => simp [decodeHead] at h
  | cons b bs =>
    simp only [decodeHead] at h
    split at h
    · simp at h
    · split at h
      · simp at h
      · simp only [Except.ok.injEq, Option.some.injEq, Prod.mk.injEq] at h
        rw [← h.2, List.length_drop]
        simp only [List.length_cons]
        omega

/-- A payload that is complete stays complete, and takes the same bytes. -/
theorem decodePayload_some_append {c c' : BytesCodec} {n : Nat} {src data rest : Bytes}
    (more : Bytes) (h : c.decodePayload n src = (some data, c', rest)) :
    c.decodePayload n (src ++ more) = (some data, c', rest ++ more) := by
  by_cases hn : src.length < n
  · simp [decodePayload, decodeData, hn] at h
  · have hn' : ¬ (src ++ more).length < n := by
      rw [List.length_append]
      omega
    simp only [decodePayload, decodeData, hn, hn', if_false, Prod.mk.injEq, Option.some.injEq]
      at h ⊢
    rw [List.take_append_of_le_length (by omega), List.drop_append_of_le_length (by omega)]
    exact ⟨h.1, h.2.1, by rw [h.2.2]⟩

/-- An incomplete payload changes neither codec nor buffer. -/
theorem decodePayload_none {c c' : BytesCodec} {n : Nat} {src rest : Bytes}
    (h : c.decodePayload n src = (none, c', rest)) : c' = c ∧ rest = src := by
  by_cases hn : src.length < n
  · simp only [decodePayload, decodeData, hn, if_true, Prod.mk.injEq, true_and] at h
    exact ⟨h.1.symm, h.2.symm⟩
  · simp [decodePayload, decodeData, hn] at h

theorem decodePayload_some {c c' : BytesCodec} {n : Nat} {src data rest : Bytes}
    (h : c.decodePayload n src = (some data, c', rest)) :
    c' = { c with state := .head } ∧ rest.length ≤ src.length := by
  by_cases hn : src.length < n
  · simp [decodePayload, decodeData, hn] at h
  · simp only [decodePayload, decodeData, hn, if_false, Prod.mk.injEq] at h
    rw [← h.2.1, ← h.2.2, List.length_drop]
    exact ⟨rfl, Nat.sub_le _ _⟩

/-- A framed codec that reads a header goes on with its payload. -/
theorem decode_of_head {c : BytesCodec} {src rest : Bytes} {n : Nat} (hraw : c.raw = false)
    (hs : c.state = .head) (h : c.decodeHead src = .ok (some (n, rest))) :
    c.decode src = .ok ({ c with state := .data n }.decodePayload n rest) := by
  obtain ⟨state, raw, limit⟩ := c
  subst hraw hs
  simp only [decode, h, Bool.false_eq_true, if_false]

theorem decode_of_data {c : BytesCodec} {n : Nat} (hraw : c.raw = false) (hs : c.state = .data n)
    (src : Bytes) : c.decode src = .ok (c.decodePayload n src) := by
  simp only [decode, hraw, hs, Bool.false_eq_true, if_false]

/-- The four things a framed `decode` can do. -/
theorem decode_cases {c : BytesCodec} (hraw : c.raw = false) (src : Bytes) :
    (∃ n, c.state = .data n ∧ c.decode src = .ok (c.decodePayload n src)) ∨
    (∃ e, c.state = .head ∧ c.decodeHead src = .error e ∧ c.decode src = .error e) ∨
    (c.state = .head ∧ c.decodeHead src = .ok none ∧ c.decode src = .ok (none, c, src)) ∨
    (∃ n rest, c.state = .head ∧ c.decodeHead src = .ok (some (n, rest)) ∧
      c.decode src = .ok ({ c with state := .data n }.decodePayload n rest)) := by
  cases hs : c.state with
  | data n => exact .inl ⟨n, rfl, decode_of_data hraw hs src⟩
  | head =>
    cases hd : c.decodeHead src with
    | error e => exact .inr (.inl ⟨e, rfl, rfl, by simp [decode, hraw, hs, hd]⟩)
    | ok r =>
      cases r with
      | none => exact .inr (.inr (.inl ⟨rfl, rfl, by simp [decode, hraw, hs, hd]⟩))
      | some r => exact .inr (.inr (.inr ⟨r.1, r.2, rfl, rfl, decode_of_head hraw hs hd⟩))

/-- The items still to come: a pending header counts for one more. -/
def weight (c : BytesCodec) (src : Bytes) : Nat :=
  src.length + if c.state = .head then 0 else 1

/-- Every extracted packet, raw or framed, uses up part of the input. -/
theorem decode_progress {c c' : BytesCodec} {src data rest : Bytes}
    (h : c.decode src = .ok (some data, c', rest)) : c'.weight rest < c.weight src := by
  cases hraw : c.raw with
  | true =>
    cases src with
    | nil => simp [decode, hraw] at h
    | cons b bs =>
      simp only [decode, hraw, if_true, List.isEmpty_cons, Bool.false_eq_true, if_false,
        Except.ok.injEq, Prod.mk.injEq, Option.some.injEq] at h
      rw [← h.2.1, ← h.2.2]
      simp [weight]
  | false =>
    rcases decode_cases hraw src with ⟨n, hs, hd⟩ | ⟨e, _, _, hd⟩ | ⟨_, _, hd⟩ | ⟨n, r, hs, hh, hd⟩
    · obtain ⟨rfl, hle⟩ := decodePayload_some (Except.ok.inj (hd.symm.trans h))
      simp only [weight, hs, if_true, reduceCtorEq, if_false]
      omega
    · simp [hd] at h
    · simp [hd] at h
    · obtain ⟨rfl, hle⟩ := decodePayload_some (Except.ok.inj (hd.symm.trans h))
      have hlt := decodeHead_rest_lt hh
      simp only [weight, hs, if_true]
      omega

theorem decode_raw {c c' : BytesCodec} {src rest : Bytes} {item : Option Bytes}
    (hraw : c.raw = false) (h : c.decode src = .ok (item, c', rest)) : c'.raw = false := by
  have hpayload {d : BytesCodec} {n : Nat} {src : Bytes} (hd : d.raw = false)
      (h : d.decodePayload n src = (item, c', rest)) : c'.raw = false := by
    cases item with
    | none => rwa [(decodePayload_none h).1]
    | some data => rw [(decodePayload_some h).1]; exact hd
  rcases decode_cases hraw src with ⟨n, _, hd⟩ | ⟨e, _, _, hd⟩ | ⟨_, _, hd⟩ | ⟨n, r, _, _, hd⟩
  · exact hpayload hraw (Except.ok.inj (hd.symm.trans h))
  · simp [hd] at h
  · rw [hd] at h
    cases h
    exact hraw
  · exact hpayload (d := { c with state := .data n }) hraw (Except.ok.inj (hd.symm.trans h))

theorem decode_some_append {c c' : BytesCodec} {src data rest : Bytes} (more : Bytes)
    (hraw : c.raw = false) (h : c.decode src = .ok (some data, c', rest)) :
    c.decode (src ++ more) = .ok (some data, c', rest ++ more) := by
  rcases decode_cases hraw src with ⟨n, hs, hd⟩ | ⟨e, _, _, hd⟩ | ⟨_, _, hd⟩ | ⟨n, r, hs, hh, hd⟩
  · rw [decode_of_data hraw hs,
      decodePayload_some_append more (Except.ok.inj (hd.symm.trans h))]
  · simp [hd] at h
  · simp [hd] at h
  · have hhead := decodeHead_append (c := c) src more (by simp [hh])
    rw [hh] at hhead
    rw [decode_of_head hraw hs hhead,
      decodePayload_some_append more (Except.ok.inj (hd.symm.trans h))]

theorem decode_none_append {c c' : BytesCodec} {src rest : Bytes} (more : Bytes)
    (hraw : c.raw = false) (h : c.decode src = .ok (none, c', rest)) :
    c.decode (src ++ more) = c'.decode (rest ++ more) := by
  rcases decode_cases hraw src with ⟨n, hs, hd⟩ | ⟨e, _, _, hd⟩ | ⟨_, _, hd⟩ | ⟨n, r, hs, hh, hd⟩
  · obtain ⟨rfl, rfl⟩ := decodePayload_none (Except.ok.inj (hd.symm.trans h))
    rfl
  · simp [hd] at h
  · rw [hd] at h
    cases h
    rfl
  · obtain ⟨rfl, rfl⟩ := decodePayload_none (Except.ok.inj (hd.symm.trans h))
    have hhead := decodeHead_append (c := c) src more (by simp [hh])
    rw [hh] at hhead
    rw [decode_of_head hraw hs hhead, decode_of_data (c := { c with state := .data n }) hraw rfl]

theorem decode_error_append {c : BytesCodec} {src : Bytes} {e : IoError} (more : Bytes)
    (hraw : c.raw = false) (h : c.decode src = .error e) :
    c.decode (src ++ more) = .error e := by
  rcases decode_cases hraw src with ⟨n, hs, hd⟩ | ⟨e', hs, hh, hd⟩ | ⟨_, _, hd⟩ | ⟨n, r, hs, hh, hd⟩
  · simp [hd] at h
  · have he : e' = e := Except.error.inj (hd.symm.trans h)
    have hhead := decodeHead_append (c := c) src more (by simp [hh])
    simp only [hh, Except.map] at hhead
    simp only [decode, hraw, hs, hhead, he, Bool.false_eq_true, if_false]
  · simp [hd] at h
  · simp [hd] at h

/-- The framed codec as a resumable stream decoder. -/
def streamDecoder : Core.StreamDecoder BytesCodec UInt8 Bytes IoError where
  decode := decode
  weight := weight
  valid c := c.raw = false
  progress := decode_progress
  valid_next := decode_raw
  some_append := decode_some_append
  none_append := decode_none_append
  error_append := decode_error_append

/-- A complete frame at the front of the buffer is extracted and the codec is
ready for the next header. -/
theorem decode_frame {c : BytesCodec} (hraw : c.raw = false) (hs : c.state = .head)
    {hdr data : Bytes} {w : Nat} (rest : Bytes) (hw : w ≤ 3) (hlen : hdr.length = w + 1)
    (hv : leValue hdr = 4 * data.length + w) (hmax : data.length ≤ c.maxPacketLength) :
    c.decode (hdr ++ data ++ rest) = .ok (some data, c, rest) := by
  have hhead := decodeHead_header (c := c) (data ++ rest) hw hlen hv hmax
  have hcodec : { c with state := .head } = c := by rw [← hs]
  rw [List.append_assoc, decode_of_head hraw hs hhead]
  simp only [decodePayload, decodeData, List.length_append,
    Nat.not_lt.mpr (Nat.le_add_right _ _), if_false, List.take_left, List.drop_left, hcodec]

/-- Encoding a list of packets appends one frame each, and draining the frames
returns the packets. -/
theorem encodeAll_drain {c : BytesCodec} (hraw : c.raw = false) (hs : c.state = .head)
    (hmax : 0x3FFFFFFF ≤ c.maxPacketLength) {packets : List Bytes}
    (h : ∀ data ∈ packets, data.length ≤ 0x3FFFFFFF) (buf : Bytes) :
    ∃ stream, c.encodeAll buf packets = .ok (buf ++ stream) ∧
      streamDecoder.drain c stream = (packets, .ok (c, [])) := by
  induction packets generalizing buf with
  | nil =>
    refine ⟨[], by rw [encodeAll, List.append_nil], streamDecoder.drain_none ?_⟩
    simp [streamDecoder, decode, hraw, hs, decodeHead]
  | cons data packets ih =>
    have hdata := h data List.mem_cons_self
    obtain ⟨hdr, w, hw, hlen, hv, henc⟩ := encode_eq hraw hdata buf
    obtain ⟨stream, hall, hdrain⟩ :=
      ih (fun d hd => h d (List.mem_cons_of_mem data hd)) (buf ++ hdr ++ data)
    refine ⟨hdr ++ data ++ stream, by
      simp only [encodeAll, henc, hall]
      simp only [List.append_assoc], ?_⟩
    rw [streamDecoder.drain_some
      (decode_frame hraw hs stream hw hlen hv (hdata.trans hmax)), hdrain]

/-- Packets encoded by a fresh codec and delivered in arbitrary chunks are decoded
to the same packets in the same order, leaving a fresh codec and an empty buffer. -/
theorem feed_encodeAll {packets : List Bytes} (h : ∀ data ∈ packets, data.length ≤ 0x3FFFFFFF) :
    ∃ stream, new.encodeAll [] packets = .ok stream ∧
      ∀ chunks : List Bytes, chunks.flatten = stream →
        streamDecoder.feed new [] chunks = (packets, .ok (new, [])) := by
  obtain ⟨stream, hall, hdrain⟩ := encodeAll_drain (c := new) rfl rfl (by decide) h []
  have hquiet : streamDecoder.Quiescent new [] := rfl
  refine ⟨stream, hall, ?_⟩
  rintro chunks rfl
  rw [streamDecoder.feed_eq_drain (s := new) rfl hquiet chunks, List.nil_append, hdrain]

theorem feed_encodeAll_two : ∃ stream, new.encodeAll [] [[], [1, 2]] = .ok stream ∧
    ∀ chunks : List Bytes, chunks.flatten = stream →
      streamDecoder.feed new [] chunks = ([[], [1, 2]], .ok (new, [])) :=
  feed_encodeAll (by decide)

end MDesk.BytesCodec
