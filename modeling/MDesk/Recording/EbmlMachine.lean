import MDesk.Core.Checked
import MDesk.Recording.Seeks
import Mathlib.Tactic.Ring
import Mathlib.Tactic.IntervalCases

/-!
# The codec of the elements on the machine

The reader of the recording notes with the numbers of the machine, where an overflow or a slice out
of range panics. No input makes it panic, so it is the reader on plain numbers. What is written is
read back, and what is accepted lies in the input.
-/

namespace MDesk

open Core

namespace RecordingNote

namespace Machine

def valueMask (width : Nat) : Option Nat := if width = 8 then some 0 else checkedShr 8 0xFF width

/-- `(value << 8) | u64::from(*byte)`. -/
def sizeStep (value : Nat) (byte : UInt8) : Option Nat := do
  return (← checkedShl 64 value 8) ||| byte.toNat

/-- `decode_ebml_size`, or nothing where it panics. -/
def decodeEbmlSize (bytes : Bytes) : Option (Except String (Nat × Nat × Bool)) :=
  match bytes.head? with
  | none => some (.error "EBML 크기 정보가 없습니다.")
  | some first =>
    if first = 0 then some (.error "EBML 크기 정보가 올바르지 않습니다.")
    else do
      let width ← checkedAdd64 (leadingZeros first) 1
      if 8 < width ∨ bytes.length < width then return .error "EBML 크기 정보가 잘렸습니다."
      let tail ← checkedSlice bytes 1 width
      let value ← tail.foldlM sizeStep (first.toNat &&& (← valueMask width))
      let unknownValue ← checkedSub (← checkedShl 64 1 (7 * width)) 1
      return .ok (value, width, value == unknownValue)

/-- `parse_ebml_element`, or nothing where it panics. -/
def parseEbmlElement (bytes : Bytes) (start : Nat) : Option (Except String (Option EbmlElement)) :=
  match bytes[start]? with
  | none => some (.ok none)
  | some firstIdByte =>
    if firstIdByte = 0 then some (.error "EBML 요소 ID가 올바르지 않습니다.")
    else do
      let idWidth ← checkedAdd64 (leadingZeros firstIdByte) 1
      if 4 < idWidth then return .error "EBML 요소 ID가 잘렸습니다."
      let sizeStart ← checkedAdd64 start idWidth
      if bytes.length ≤ sizeStart then return .error "EBML 요소 ID가 잘렸습니다."
      match ← decodeEbmlSize (← checkedSlice bytes sizeStart bytes.length) with
      | .error err => return .error err
      | .ok (payloadSize, sizeWidth, sizeIsUnknown) =>
        if sizeIsUnknown then return .ok none
        let payloadStart ← checkedAdd64 sizeStart sizeWidth
        match checkedAdd64 payloadStart payloadSize with
        | none => return .error "EBML 요소 크기가 너무 큽니다."
        | some payloadEnd =>
          if bytes.length < payloadEnd then return .ok none
          return .ok (some { id := ← checkedSlice bytes start sizeStart, payloadStart, payloadEnd })

end Machine

variable {bytes : Bytes} {start w : Nat}

theorem leadingZeros_le (b : UInt8) : leadingZeros b ≤ 8 := by
  unfold leadingZeros
  split_ifs <;> omega

/-- The mask keeps the bits behind the mark. -/
theorem valueMask_and (first : UInt8) (hw : 1 ≤ w) (hw' : w ≤ 8) :
    ∃ mask, Machine.valueMask w = some mask ∧ first.toNat &&& mask = first.toNat % 2 ^ (8 - w) := by
  refine ⟨2 ^ (8 - w) - 1, ?_, Nat.and_two_pow_sub_one_eq_mod _ _⟩
  unfold Machine.valueMask
  interval_cases w <;> rfl

/-- A byte is put behind a number that leaves room for it. -/
theorem sizeStep_of_lt {value : Nat} (byte : UInt8) (h : value < 2 ^ 56) :
    Machine.sizeStep value byte = some (256 * value + byte.toNat) := by
  have hbyte : byte.toNat < 2 ^ 8 := byte.toNat_lt
  rw [Machine.sizeStep, checkedShl_of_lt (by decide) (by omega), Nat.mul_comm]
  exact congrArg some (Nat.two_pow_add_eq_or_of_lt hbyte value).symm

/-- The loop over the bytes behind the first one does not overflow. -/
theorem size_loop {first : Nat} (hfirst : first < 2 ^ (8 - w)) (hw : 1 ≤ w) (hw' : w ≤ 8)
    {tail : Bytes} (htail : tail.length = w - 1) :
    tail.foldlM Machine.sizeStep first =
      some (tail.foldl (fun value byte => 256 * value + byte.toNat) first) := by
  apply foldlM_eq_some (Q := fun value rest => (value + 1) * 256 ^ rest.length ≤ 2 ^ 56)
  · intro value byte rest hroom
    rw [List.length_cons, pow_succ] at hroom
    have hpos : 0 < 256 ^ rest.length := Nat.pow_pos (by decide)
    have hbyte : byte.toNat < 256 := byte.toNat_lt
    constructor
    · apply sizeStep_of_lt
      calc value + 1 ≤ (value + 1) * (256 ^ rest.length * 256) :=
            Nat.le_mul_of_pos_right _ (by omega)
        _ ≤ 2 ^ 56 := hroom
    · calc (256 * value + byte.toNat + 1) * 256 ^ rest.length
          ≤ (256 * (value + 1)) * 256 ^ rest.length := Nat.mul_le_mul_right _ (by omega)
        _ = (value + 1) * (256 ^ rest.length * 256) := by ring
        _ ≤ 2 ^ 56 := hroom
  · calc (first + 1) * 256 ^ tail.length
        ≤ 2 ^ (8 - w) * 256 ^ tail.length := Nat.mul_le_mul_right _ hfirst
      _ = 2 ^ (8 - w + 8 * (w - 1)) := by
        rw [htail, pow_add, pow_mul]
        rfl
      _ ≤ 2 ^ 56 := Nat.pow_le_pow_right (by decide) (by omega)

/-- The reader of sizes does not panic. -/
theorem decodeEbmlSize_machine (bytes : Bytes) :
    Machine.decodeEbmlSize bytes = some (decodeEbmlSize bytes) := by
  cases bytes with
  | nil => rfl
  | cons first rest =>
    have hzeros := leadingZeros_le first
    simp only [Machine.decodeEbmlSize, decodeEbmlSize, List.head?_cons]
    by_cases hzero : first = 0
    · rw [if_pos hzero, if_pos hzero]
    · rw [if_neg hzero, if_neg hzero, checkedAdd64_of_lt (by omega), Option.bind_eq_bind,
        Option.bind_some]
      generalize hw : leadingZeros first + 1 = w
      by_cases hcut : 8 < w ∨ (first :: rest).length < w
      · rw [if_pos hcut, if_pos hcut]
        rfl
      · rw [if_neg hcut, if_neg hcut]
        obtain ⟨mask, hmask, hand⟩ := valueMask_and first (w := w) (by omega) (by omega)
        have hlow : first.toNat % 2 ^ (8 - w) < 2 ^ (8 - w) :=
          Nat.mod_lt _ (Nat.pow_pos (by decide))
        have htail : (rest.take (w - 1)).length = w - 1 := by
          rw [List.length_cons] at hcut
          rw [List.length_take]
          omega
        have hmark : checkedShl 64 1 (7 * w) = some (2 ^ (7 * w)) := by
          have hroom : 2 ^ (7 * w) < 2 ^ 64 := Nat.pow_lt_pow_right (by decide) (by omega)
          rw [checkedShl_of_lt (by omega) (by rwa [Nat.one_mul]), Nat.one_mul]
        have hslice : checkedSlice (first :: rest) 1 w = some (rest.take (w - 1)) :=
          checkedSlice_of_le (by omega) (by omega)
        rw [hslice, hmask, hmark]
        simp only [bind, Option.bind_some, hand, checkedSub_of_le Nat.one_le_two_pow, pure,
          size_loop hlow (by omega) (by omega) htail]

/-- What is read as a size is a number of at most eight bytes of the input. -/
theorem decodeEbmlSize_bounds {value : Nat} {unknown : Bool}
    (h : decodeEbmlSize bytes = .ok (value, w, unknown)) :
    (1 ≤ w ∧ w ≤ 8) ∧ w ≤ bytes.length ∧ value < 2 ^ (7 * w) := by
  cases bytes with
  | nil => cases h
  | cons first rest =>
    simp only [decodeEbmlSize] at h
    split_ifs at h with hzero hcut
    simp only [Except.ok.injEq, Prod.mk.injEq] at h
    obtain ⟨rfl, rfl, -⟩ := h
    rw [not_or, Nat.not_lt, Nat.not_lt] at hcut
    refine ⟨⟨Nat.le_add_left _ _, hcut.1⟩, hcut.2, ?_⟩
    have hlow := Nat.mod_lt first.toNat (Nat.pow_pos (n := 8 - (leadingZeros first + 1))
      (show 0 < 2 by decide))
    have htail : (rest.take (leadingZeros first)).length = leadingZeros first := by
      rw [List.length_take, Nat.min_eq_left]
      exact Nat.le_of_succ_le_succ hcut.2
    have hbytes := leNat_lt (rest.take (leadingZeros first)).reverse
    rw [List.length_reverse, htail] at hbytes
    rw [Nat.add_sub_cancel, foldl_beNat, htail]
    calc 256 ^ leadingZeros first * (first.toNat % 2 ^ (8 - (leadingZeros first + 1))) +
          beNat (rest.take (leadingZeros first))
        < 256 ^ leadingZeros first * (first.toNat % 2 ^ (8 - (leadingZeros first + 1)) + 1) := by
          rw [Nat.mul_add_one]
          exact Nat.add_lt_add_left hbytes _
      _ ≤ 256 ^ leadingZeros first * 2 ^ (8 - (leadingZeros first + 1)) :=
          Nat.mul_le_mul_left _ hlow
      _ = 2 ^ (8 * leadingZeros first + (8 - (leadingZeros first + 1))) := by
          rw [pow_add, pow_mul]
          rfl
      _ = 2 ^ (7 * (leadingZeros first + 1)) := by
          congr 1
          omega

/-- The reader of elements does not panic. No slice is longer than half of the address space. -/
theorem parseEbmlElement_machine (hlen : bytes.length < 2 ^ 63) (start : Nat) :
    Machine.parseEbmlElement bytes start = some (parseEbmlElement bytes start) := by
  cases hfirst : bytes[start]? with
  | none => simp only [Machine.parseEbmlElement, parseEbmlElement, hfirst, pure, Except.pure]
  | some firstIdByte =>
    have hstart : start < bytes.length := (List.getElem?_eq_some_iff.mp hfirst).1
    have hzeros := leadingZeros_le firstIdByte
    simp only [Machine.parseEbmlElement, parseEbmlElement, hfirst]
    by_cases hzero : firstIdByte = 0
    · rw [if_pos hzero, if_pos hzero]
      rfl
    · rw [if_neg hzero, if_neg hzero, checkedAdd64_of_lt (by omega)]
      generalize hwidth : leadingZeros firstIdByte + 1 = idWidth
      by_cases hwide : 4 < idWidth
      · simp [hwide]
        rfl
      · by_cases hcut : bytes.length ≤ start + idWidth
        · simp [hwide, hcut, checkedAdd64_of_lt (show start + idWidth < 2 ^ 64 by omega)]
          rfl
        · rw [if_neg (by omega)]
          simp only [bind, Option.bind_some, if_neg hwide, if_neg hcut,
            checkedAdd64_of_lt (show start + idWidth < 2 ^ 64 by omega),
            checkedSlice_length (show start + idWidth ≤ bytes.length by omega),
            decodeEbmlSize_machine]
          cases hsize : decodeEbmlSize (bytes.drop (start + idWidth)) with
          | error => rfl
          | ok size =>
            obtain ⟨payloadSize, sizeWidth, sizeIsUnknown⟩ := size
            obtain ⟨hwidths, hinside, hvalue⟩ := decodeEbmlSize_bounds hsize
            have hroom : 2 ^ (7 * sizeWidth) ≤ 2 ^ 56 := Nat.pow_le_pow_right (by decide) (by omega)
            rw [List.length_drop] at hinside
            simp only [checkedAdd64_of_lt (show start + idWidth + sizeWidth < 2 ^ 64 by omega),
              checkedAdd64_of_lt
                (show start + idWidth + sizeWidth + payloadSize < 2 ^ 64 by omega),
              checkedSlice_of_le (show start ≤ start + idWidth by omega)
                (show start + idWidth ≤ bytes.length by omega),
              Option.bind_some, Nat.add_sub_cancel_left, pure, Except.bind, Except.pure]
            cases sizeIsUnknown with
            | true => rfl
            | false => split_ifs <;> rfl

/-! ## Round trips -/

theorem pos_of_fits {value : Nat} (h : value < 2 ^ (7 * w) - 1) : 1 ≤ w := by
  rw [Nat.one_le_iff_ne_zero]
  rintro rfl
  exact absurd h (by simp)

/-- A size that fits in a width is written in it, with the mark in front. -/
theorem encodeEbmlSize_some {value : Nat} (hw : w ≤ 8) (hfits : value < 2 ^ (7 * w) - 1) :
    encodeEbmlSize value (some w) = .ok (vint w value) := by
  have hpos := pos_of_fits hfits
  simp only [encodeEbmlSize, pure_bind]
  rw [if_neg (by omega), vint_of_mark hpos hw (by omega)]
  rfl

/-- With no width, the first that the size fits in is used. -/
theorem encodeEbmlSize_none {value : Nat} (hw : w ≤ 8) (hfits : value < 2 ^ (7 * w) - 1)
    (hfirst : ∀ v, value < 2 ^ (7 * v) - 1 → w ≤ v) :
    encodeEbmlSize value none = encodeEbmlSize value (some w) := by
  have hpos := pos_of_fits hfits
  have hfind : (List.range' 1 8).find? (fun width => decide (value < 2 ^ (7 * width) - 1)) =
      some w := by
    rw [List.find?_range'_eq_some]
    refine ⟨decide_eq_true hfits, List.mem_range'_1.mpr (by omega), fun v _ hv => ?_⟩
    rw [Bool.not_eq_true', decide_eq_false_iff_not]
    exact fun hearlier => absurd (hfirst v hearlier) (by omega)
  simp only [encodeEbmlSize, hfind]

/-- A size that fits in eight bytes is written. -/
theorem encodeEbmlSize_ok_iff {value : Nat} :
    (∃ bs, encodeEbmlSize value none = .ok bs) ↔ value < 2 ^ 56 - 1 := by
  constructor
  · rintro ⟨bs, h⟩
    obtain ⟨w, hw, hfits, -⟩ := encode_none h
    have hmono : 2 ^ (7 * w) ≤ 2 ^ 56 := Nat.pow_le_pow_right (by decide) (by omega)
    unfold unknownSize at hfits
    omega
  · intro h
    have hsome : ∃ w, value < 2 ^ (7 * w) - 1 := ⟨8, h⟩
    have hle : Nat.find hsome ≤ 8 := Nat.find_min' hsome h
    rw [encodeEbmlSize_none hle (Nat.find_spec hsome) fun v hv => Nat.find_min' hsome hv,
      encodeEbmlSize_some hle (Nat.find_spec hsome)]
    exact ⟨_, rfl⟩

/-- An element that is accepted lies in the input and ends behind its start. -/
theorem parse_inside {element : EbmlElement}
    (h : parseEbmlElement bytes start = .ok (some element)) :
    start < element.payloadStart ∧ element.payloadStart ≤ element.payloadEnd ∧
      element.payloadEnd ≤ bytes.length := by
  unfold parseEbmlElement at h
  split at h
  · cases h
  · simp only [bind, Except.bind, pure, Except.pure] at h
    split_ifs at h
    split at h
    · cases h
    · split_ifs at h
      all_goals cases h
      dsimp only
      omega

/-- What is built is parsed, wherever it stands and whatever follows. -/
theorem parse_built {id payload raw : Bytes} (hid : ValidId id)
    (h : buildEbmlElement id payload = .ok raw) (pre rest : Bytes) :
    ∃ payloadStart, parseEbmlElement (pre ++ (raw ++ rest)) pre.length =
        .ok (some ⟨id, payloadStart, pre.length + raw.length⟩) ∧
      slice (pre ++ (raw ++ rest)) payloadStart (pre.length + raw.length) = payload := by
  obtain ⟨e, rfl, rfl, rfl⟩ := build_element hid h
  have hdrop : (pre ++ (e.raw ++ rest)).drop pre.length = e.raw ++ rest := List.drop_left
  refine ⟨pre.length + e.header.raw.length, parse_whole hdrop, slice_payload hdrop⟩

theorem buildEbmlElement_ok_iff (id payload : Bytes) :
    (∃ raw, buildEbmlElement id payload = .ok raw) ↔ payload.length < 2 ^ 56 - 1 := by
  rw [← encodeEbmlSize_ok_iff]
  cases hsize : encodeEbmlSize payload.length none with
  | error err => simp [buildEbmlElement, hsize, bind, Except.bind]
  | ok size => simp [buildEbmlElement, hsize, bind, Except.bind, pure, Except.pure]

/-- What the codec writes is read back, and reading never panics. -/
theorem ebml_codec (v w : Nat) (id payload pre rest bytes : Bytes) (start : Nat) :
    (w ≤ 8 → v < 2 ^ (7 * w) - 1 →
      (∃ encoded, encodeEbmlSize v (some w) = .ok encoded ∧
        decodeEbmlSize (encoded ++ rest) = .ok (v, w, false)) ∧
      ((∀ u, v < 2 ^ (7 * u) - 1 → w ≤ u) →
        encodeEbmlSize v none = encodeEbmlSize v (some w))) ∧
    (ValidId id →
      ((∃ raw, buildEbmlElement id payload = .ok raw) ↔ payload.length < 2 ^ 56 - 1) ∧
      ∀ raw, buildEbmlElement id payload = .ok raw →
        ∃ payloadStart, parseEbmlElement (pre ++ (raw ++ rest)) pre.length =
            .ok (some ⟨id, payloadStart, pre.length + raw.length⟩) ∧
          slice (pre ++ (raw ++ rest)) payloadStart (pre.length + raw.length) = payload) ∧
    (bytes.length < 2 ^ 63 →
      Machine.decodeEbmlSize bytes = some (decodeEbmlSize bytes) ∧
      Machine.parseEbmlElement bytes start = some (parseEbmlElement bytes start)) ∧
    ∀ element, parseEbmlElement bytes start = .ok (some element) →
      start < element.payloadStart ∧ element.payloadStart ≤ element.payloadEnd ∧
        element.payloadEnd ≤ bytes.length := by
  refine ⟨fun hw hfits => ⟨⟨_, encodeEbmlSize_some hw hfits, ?_⟩, encodeEbmlSize_none hw hfits⟩,
    fun hid => ⟨buildEbmlElement_ok_iff id payload, fun raw hraw => ?_⟩,
    fun hlen => ⟨decodeEbmlSize_machine bytes, parseEbmlElement_machine hlen start⟩,
    fun element => parse_inside⟩
  · rw [decode_vint (pos_of_fits hfits) hw (by omega)]
    have hknown : (v == unknownSize w) = false := by
      rw [beq_eq_false_iff_ne]
      exact Nat.ne_of_lt hfits
    rw [hknown]
  · exact parse_built hid hraw pre rest

/-- The largest number of seven bits says that the size is not known, so it takes two bytes. -/
theorem ebml_codec_sample :
    encodeEbmlSize 127 none = .ok [0x40, 0x7F] ∧
      (∃ encoded, encodeEbmlSize 127 (some 2) = .ok encoded ∧
        decodeEbmlSize (encoded ++ [0xFF]) = .ok (127, 2, false)) ∧
      Machine.parseEbmlElement [0xEC, 0x82, 0, 0] 0 = some (.ok (some ⟨[0xEC], 2, 4⟩)) := by
  have h := ebml_codec 127 2 [0xEC] [0, 0] [] [0xFF] [0xEC, 0x82, 0, 0] 0
  refine ⟨?_, (h.1 (by decide) (by decide)).1, ?_⟩
  · rw [(h.1 (by decide) (by decide)).2]
    · rfl
    · intro u hu
      by_contra hless
      obtain rfl | rfl : u = 0 ∨ u = 1 := by omega
      · exact absurd hu (by decide)
      · exact absurd hu (by decide)
  · rw [(h.2.2.1 (by decide)).2]
    rfl

end RecordingNote

end MDesk
