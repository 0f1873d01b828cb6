import MDesk.Codec.BytesCodec
import MDesk.Core.Ebml
import Mathlib.Data.List.Infix

/-!
# Reading and writing the elements of a recording

The EBML reader and writer of the recording notes. The reader works on positions of a buffer
that holds the beginning of the file, and finds no element where the buffer ends too early or
a size is not known.
-/

namespace MDesk

open Core

namespace RecordingNote

/-- An early return with an error. -/
def ensure (c : Prop) [Decidable c] (err : String) : Except String Unit :=
  if c then .ok () else .error err

/-- `Option::ok_or_else`. -/
def okOr {α : Type} (x : Option α) (err : String) : Except String α :=
  match x with
  | some a => .ok a
  | none => .error err

def decodeEbmlSize (bytes : Bytes) : Except String (Nat × Nat × Bool) :=
  match bytes with
  | [] => .error "EBML 크기 정보가 없습니다."
  | first :: rest =>
    if first = 0 then .error "EBML 크기 정보가 올바르지 않습니다."
    else
      let width := leadingZeros first + 1
      if 8 < width ∨ bytes.length < width then .error "EBML 크기 정보가 잘렸습니다."
      else
        -- `first & (0xFF >> width)`, then `(value << 8) | byte`
        let value := (rest.take (width - 1)).foldl (fun value byte => 256 * value + byte.toNat)
          (first.toNat % 2 ^ (8 - width))
        .ok (value, width, value == 2 ^ (7 * width) - 1)

def encodeEbmlSize (value : Nat) (requestedWidth : Option Nat) : Except String Bytes := do
  let width ← match requestedWidth with
    | some width => pure width
    | none => match (List.range' 1 8).find? fun width => value < 2 ^ (7 * width) - 1 with
      | some width => pure width
      | none => throw "EBML 데이터가 너무 큽니다."
  if ¬ (1 ≤ width ∧ width ≤ 8) ∨ 2 ^ (7 * width) - 1 ≤ value then
    throw "기존 WebM Segment 크기 영역에 메타정보를 추가할 수 없습니다."
  return ((beBytes 8 value).drop (8 - width)).modifyHead (· ||| UInt8.ofNat (2 ^ (8 - width)))

def buildEbmlElement (id payload : Bytes) : Except String Bytes := do
  return id ++ (← encodeEbmlSize payload.length none) ++ payload

/-- An element as it lies in the buffer. Its payload ends where it ends. -/
structure EbmlElement where
  id : Bytes
  payloadStart : Nat
  payloadEnd : Nat
  deriving DecidableEq, Repr

def parseEbmlElement (bytes : Bytes) (start : Nat) : Except String (Option EbmlElement) := do
  match bytes[start]? with
  | none => return none
  | some firstIdByte =>
    if firstIdByte = 0 then throw "EBML 요소 ID가 올바르지 않습니다."
    let idWidth := leadingZeros firstIdByte + 1
    if 4 < idWidth ∨ bytes.length ≤ start + idWidth then throw "EBML 요소 ID가 잘렸습니다."
    let sizeStart := start + idWidth
    let (payloadSize, sizeWidth, sizeIsUnknown) ← decodeEbmlSize (bytes.drop sizeStart)
    if sizeIsUnknown then return none
    let payloadStart := sizeStart + sizeWidth
    let payloadEnd := payloadStart + payloadSize
    if bytes.length < payloadEnd then return none
    return some { id := (bytes.drop start).take idWidth, payloadStart, payloadEnd }

/-- `to_be_bytes` without the zeros in front, but for one byte. -/
def encodeEbmlUint (value : Nat) : Bytes :=
  (beBytes 8 value).drop (((beBytes 8 value).findIdx? (· ≠ 0)).getD 7)

def buildEbmlVoid (totalSize : Nat) : Except String Bytes :=
  if totalSize = 0 then .ok []
  else
    match (List.range' 1 8).findSome? fun sizeWidth =>
      if totalSize < 1 + sizeWidth then none
      else
        let payloadSize := totalSize - (1 + sizeWidth)
        match encodeEbmlSize payloadSize (some sizeWidth) with
        | .ok encodedSize => some (0xEC :: encodedSize ++ List.replicate payloadSize 0)
        | .error _ => none
    with
    | some result => .ok result
    | none => .error "WebM 예약 공간의 크기를 맞출 수 없습니다."

section Fallible

variable {α β : Type}

theorem bind_ok {x : Except String α} {f : α → Except String β} {b : β} :
    (x >>= f) = .ok b ↔ ∃ a, x = .ok a ∧ f a = .ok b := by
  cases x with
  | error => exact ⟨nofun, fun ⟨_, h, _⟩ => nomatch h⟩
  | ok a => exact ⟨fun h => ⟨a, rfl, h⟩, fun ⟨_, h, hf⟩ => by cases h; exact hf⟩

theorem ensure_ok {c : Prop} [Decidable c] {err : String} {u : Unit} :
    ensure c err = .ok u ↔ c := by
  unfold ensure
  split_ifs with h
  · exact ⟨fun _ => h, fun _ => rfl⟩
  · exact ⟨nofun, fun hc => absurd hc h⟩

theorem okOr_ok {x : Option α} {err : String} {a : α} : okOr x err = .ok a ↔ x = some a := by
  cases x with
  | none => exact ⟨nofun, nofun⟩
  | some b =>
    exact ⟨fun h => congrArg some (Except.ok.inj h), fun h => congrArg _ (Option.some.inj h)⟩

end Fallible

variable {w n start : Nat} {bs bytes id payload rest : Bytes} {value : Nat}

/-- A size that is there is read as it is. -/
theorem decode_vint (hw : 1 ≤ w) (hw' : w ≤ 8) (hn : n < 2 ^ (7 * w)) (rest : Bytes) :
    decodeEbmlSize (vint w n ++ rest) = .ok (n, w, n == unknownSize w) := by
  obtain ⟨b, bs, hb, hne, hwidth, hlen, hvalue⟩ := vint_spec hw hw' hn
  have hzeros : leadingZeros b + 1 = w := hwidth
  have hlong : ¬ (8 < w ∨ (b :: bs ++ rest).length < w) := by
    simp only [List.cons_append, List.length_cons, List.length_append]
    omega
  rw [hb]
  simp only [decodeEbmlSize, List.cons_append, if_neg hne, hzeros]
  rw [List.cons_append] at hlong
  rw [if_neg hlong, List.take_left' hlen, foldl_beNat, hlen, hvalue]
  rfl

/-- A size of which the beginning is there is read as it is, or not at all. -/
theorem decode_begun {r : Nat × Nat × Bool} (hw : 1 ≤ w) (hw' : w ≤ 8) (hn : n < 2 ^ (7 * w))
    (h : bs <+: vint w n ++ rest) (hok : decodeEbmlSize bs = .ok r) :
    (∃ more, bs = vint w n ++ more) ∧ r = (n, w, n == unknownSize w) := by
  obtain ⟨b, cs, hb, hne, hwidth, hlen, -⟩ := vint_spec hw hw' hn
  have hlong : w ≤ bs.length := by
    cases bs with
    | nil => cases hok
    | cons c bs =>
      rw [hb, List.cons_append] at h
      obtain ⟨rfl, -⟩ := List.cons_prefix_cons.mp h
      have hzeros : leadingZeros c + 1 = w := hwidth
      simp only [decodeEbmlSize, if_neg hne, hzeros] at hok
      split at hok
      · cases hok
      · rename_i hlong
        omega
  have hfront : vint w n <+: bs :=
    List.prefix_of_prefix_length_le (List.prefix_append _ _) h (by rw [vint_length]; exact hlong)
  obtain ⟨more, rfl⟩ := hfront
  rw [decode_vint hw hw' hn] at hok
  exact ⟨⟨more, rfl⟩, (Except.ok.inj hok).symm⟩

/-- The mark is set in front of the number. -/
theorem vint_of_mark (hw : 1 ≤ w) (hw' : w ≤ 8) (hn : n < 2 ^ (7 * w)) :
    ((beBytes 8 n).drop (8 - w)).modifyHead (· ||| UInt8.ofNat (2 ^ (8 - w))) = vint w n := by
  obtain ⟨hhigh, hcons⟩ := vint_cons hw hw' hn
  have hpow : 2 ^ (8 - w) ≤ 2 ^ 7 := Nat.pow_le_pow_right (by decide) (by omega)
  rw [drop_beBytes hw', hcons]
  obtain ⟨k, rfl⟩ := Nat.exists_eq_add_of_le' hw
  rw [Nat.add_sub_cancel] at hhigh ⊢
  rw [beBytes_succ, List.modifyHead_cons]
  congr 1
  apply UInt8.toNat_inj.mp
  rw [UInt8.toNat_or, UInt8.toNat_ofNat', UInt8.toNat_ofNat', UInt8.toNat_ofNat',
    Nat.mod_eq_of_lt (by omega), Nat.mod_eq_of_lt (by omega), Nat.mod_eq_of_lt (by omega),
    Nat.or_comm]
  have hor := Nat.two_pow_add_eq_or_of_lt hhigh 1
  rw [Nat.mul_one] at hor
  exact hor.symm

theorem encode_some (h : encodeEbmlSize value (some w) = .ok bs) :
    (1 ≤ w ∧ w ≤ 8) ∧ value < unknownSize w ∧ bs = vint w value := by
  simp only [encodeEbmlSize, pure_bind] at h
  split_ifs at h with hout
  · cases h
  · obtain ⟨hw, hfits⟩ : (1 ≤ w ∧ w ≤ 8) ∧ value < 2 ^ (7 * w) - 1 := by omega
    refine ⟨hw, hfits, ?_⟩
    rw [← vint_of_mark hw.1 hw.2 (by omega)]
    exact (Except.ok.inj h).symm

/-- A size is written in some width that it fits in. -/
theorem encode_none (h : encodeEbmlSize value none = .ok bs) :
    ∃ w, (1 ≤ w ∧ w ≤ 8) ∧ value < unknownSize w ∧ bs = vint w value := by
  cases hfind : (List.range' 1 8).find? fun width => decide (value < 2 ^ (7 * width) - 1) with
  | none =>
    simp only [encodeEbmlSize, hfind] at h
    cases h
  | some w =>
    refine ⟨w, encode_some ?_⟩
    simp only [encodeEbmlSize, hfind] at h
    exact h

/-- What is built is the element. -/
theorem build_element (hid : ValidId id) (h : buildEbmlElement id payload = .ok bs) :
    ∃ e : Element, e.id = id ∧ e.payload = payload ∧ e.raw = bs := by
  cases hsize : encodeEbmlSize payload.length none with
  | error =>
    rw [buildEbmlElement, hsize] at h
    cases h
  | ok size =>
    obtain ⟨w, hw, hfits, rfl⟩ := encode_none hsize
    have hsmall : payload.length < 2 ^ (7 * w) := Nat.lt_of_lt_of_le hfits (Nat.sub_le _ _)
    refine ⟨⟨⟨id, w, payload.length, hid, hw, hsmall⟩, payload, Nat.ne_of_lt hfits, rfl⟩, rfl,
      rfl, ?_⟩
    rw [buildEbmlElement, hsize] at h
    exact Except.ok.inj h

/-- An element that is there is found. -/
theorem parse_whole {e : Element} (h : bytes.drop start = e.raw ++ rest) :
    parseEbmlElement bytes start = .ok (some ⟨e.id, start + e.header.raw.length,
      start + e.raw.length⟩) := by
  obtain ⟨b, cs, hid, hne, hwidth⟩ := e.header.idValid.cons
  obtain ⟨hw, hw'⟩ := e.header.widthValid
  have hraw : bytes.drop start =
      e.id ++ (vint e.header.width e.header.size ++ (e.payload ++ rest)) := by
    rw [h, Element.raw, ElementHeader.raw]
    simp only [List.append_assoc]
  have hfirst : bytes[start]? = some b := by
    rw [← List.head?_drop, hraw, Element.id, hid]
    rfl
  have hzeros : leadingZeros b + 1 = e.id.length := hwidth
  have hsize : bytes.drop (start + e.id.length) =
      vint e.header.width e.header.size ++ (e.payload ++ rest) := by
    rw [← List.drop_drop, hraw, List.drop_left]
  have hlen : bytes.length = start + e.raw.length + rest.length := by
    have hdrop := congrArg List.length h
    rw [List.length_drop, List.length_append] at hdrop
    have hpos := e.header.raw_pos
    have hparts := e.raw_length
    omega
  have hparts : e.raw.length = e.id.length + e.header.width + e.header.size := by
    rw [e.raw_length, e.header.raw_length, e.payloadLength]
  have hshort : ¬ (4 < e.id.length ∨ bytes.length ≤ start + e.id.length) := by
    have hfour : e.id.length ≤ 4 := e.header.idValid.1
    omega
  have hknown : (e.header.size == unknownSize e.header.width) = false := by
    simpa using e.sizeKnown
  have hend : ¬ bytes.length < start + e.id.length + e.header.width + e.header.size := by omega
  have hid' : (bytes.drop start).take e.id.length = e.id := by rw [hraw, List.take_left]
  simp only [parseEbmlElement, hfirst, if_neg hne, hzeros, if_neg hshort, hsize,
    decode_vint hw hw' e.header.sizeValid, hknown, bind, Except.bind, Bool.false_eq_true, if_false,
    hid', hparts, e.header.raw_length, pure, Except.pure]
  rw [if_neg hend]
  simp only [Nat.add_assoc]

/-- Where the beginning of an element is there, it is found only if all of it is. -/
theorem parse_begun {header : ElementHeader} {element : EbmlElement}
    (h : bytes.drop start <+: header.raw ++ rest)
    (hok : parseEbmlElement bytes start = .ok (some element)) :
    header.size ≠ unknownSize header.width ∧
      start + header.raw.length + header.size ≤ bytes.length := by
  obtain ⟨b, cs, hid, hne, hwidth⟩ := header.idValid.cons
  obtain ⟨hw, hw'⟩ := header.widthValid
  have hzeros : leadingZeros b + 1 = header.id.length := hwidth
  have hraw : header.raw ++ rest = header.id ++ (vint header.width header.size ++ rest) := by
    rw [ElementHeader.raw, List.append_assoc]
  cases hfirst : bytes[start]? with
  | none =>
    simp only [parseEbmlElement, hfirst] at hok
    cases hok
  | some c =>
    have hhead : (bytes.drop start).head? = some c := by rw [List.head?_drop, hfirst]
    obtain rfl : c = b := by
      rw [hraw, hid] at h
      cases hdrop : bytes.drop start with
      | nil =>
        rw [hdrop] at hhead
        cases hhead
      | cons d ds =>
        rw [hdrop] at h hhead
        obtain rfl : d = c := Option.some.inj hhead
        exact (List.cons_prefix_cons.mp h).1
    have hsize : bytes.drop (start + header.id.length) <+:
        vint header.width header.size ++ rest := by
      have hbehind := List.IsPrefix.drop h header.id.length
      rwa [hraw, List.drop_left, List.drop_drop] at hbehind
    simp only [parseEbmlElement, hfirst, if_neg hne, hzeros] at hok
    split_ifs at hok
    · cases hok
    · cases hdecode : decodeEbmlSize (bytes.drop (start + header.id.length)) with
      | error =>
        rw [hdecode] at hok
        cases hok
      | ok r =>
        obtain ⟨-, rfl⟩ := decode_begun hw hw' header.sizeValid hsize hdecode
        rw [hdecode] at hok
        simp only [bind, Except.bind, pure, Except.pure] at hok
        split_ifs at hok with hunknown hend
        · cases hok
        · cases hok
        · rw [header.raw_length]
          refine ⟨by simpa using hunknown, ?_⟩
          omega

/-- An element of which the beginning is there is found only if it is there. -/
theorem parse_item {i : Item} {element : EbmlElement} (h : bytes.drop start <+: i.raw ++ rest)
    (hok : parseEbmlElement bytes start = .ok (some element)) :
    ∃ e more, i = .whole e ∧ bytes.drop start = e.raw ++ more := by
  cases i with
  | whole e =>
    have hheader : bytes.drop start <+: e.header.raw ++ (e.payload ++ rest) := by
      rwa [Item.raw, Element.raw, List.append_assoc] at h
    obtain ⟨-, hlen⟩ := parse_begun hheader hok
    have hraw : e.raw <+: bytes.drop start := by
      refine List.prefix_of_prefix_length_le (List.prefix_append _ _) h ?_
      have hparts := e.raw_length
      have hpayload := e.payloadLength
      rw [List.length_drop]
      omega
    obtain ⟨more, hmore⟩ := hraw
    exact ⟨e, more, rfl, hmore.symm⟩
  | opened header unknown =>
    exact absurd unknown (parse_begun h hok).1

theorem beNat_zeros_append (zs bs : Bytes) (h : ∀ b ∈ zs, b = 0) : beNat (zs ++ bs) = beNat bs := by
  have hzeros : leNat zs.reverse = 0 := by
    have hall : ∀ b ∈ zs.reverse, b = 0 := fun b hb => h b (List.mem_reverse.mp hb)
    generalize zs.reverse = ys at hall
    induction ys with
    | nil => rfl
    | cons y ys ih =>
      rw [leNat, ih fun b hb => hall b (List.mem_cons_of_mem y hb), hall y List.mem_cons_self]
      rfl
  rw [beNat, List.reverse_append, leNat_append, hzeros, beNat]
  omega

/-- A position is read as it was written. -/
theorem beNat_encodeEbmlUint (h : value < 2 ^ 64) : beNat (encodeEbmlUint value) = value := by
  have hfront : ∀ b ∈ (beBytes 8 value).take (((beBytes 8 value).findIdx? (· ≠ 0)).getD 7),
      b = 0 := by
    intro b hb
    cases hfind : (beBytes 8 value).findIdx? (· ≠ 0) with
    | none =>
      have hall := List.findIdx?_eq_none_iff.mp hfind b (List.mem_of_mem_take hb)
      simpa using hall
    | some k =>
      rw [hfind, Option.getD_some] at hb
      obtain ⟨i, hi, rfl⟩ := List.mem_iff_getElem.mp hb
      rw [List.length_take] at hi
      have hbefore := (List.findIdx?_eq_some_iff_getElem.mp hfind).2.2 i (by omega)
      rw [List.getElem_take]
      simpa using hbefore
  have hall := beNat_zeros_append _
    ((beBytes 8 value).drop (((beBytes 8 value).findIdx? (· ≠ 0)).getD 7)) hfront
  rw [List.take_append_drop, beNat_beBytes h] at hall
  exact hall.symm

/-- The room that is left is one void element, or none. -/
theorem build_void {total : Nat} (h : buildEbmlVoid total = .ok bs) :
    bs.length = total ∧ ∃ voids : List Element, bs = rawAll voids ∧ voids.length ≤ 1 ∧
      ∀ v ∈ voids, v.id = [0xEC] := by
  unfold buildEbmlVoid at h
  split_ifs at h with hzero
  · cases h
    exact ⟨hzero.symm, [], rfl, Nat.zero_le 1, nofun⟩
  split at h
  · rename_i result hfind
    cases h
    obtain ⟨w, -, hw⟩ := List.exists_of_findSome?_eq_some hfind
    split_ifs at hw with hshort
    cases hsize : encodeEbmlSize (total - (1 + w)) (some w) with
    | error =>
      simp only [hsize] at hw
      cases hw
    | ok size =>
      simp only [hsize] at hw
      cases hw
      obtain ⟨hwidth, hfits, rfl⟩ := encode_some hsize
      have hid : ValidId [0xEC] := by decide
      have hsmall : total - (1 + w) < 2 ^ (7 * w) := Nat.lt_of_lt_of_le hfits (Nat.sub_le _ _)
      refine ⟨?_, [⟨⟨[0xEC], w, total - (1 + w), hid, hwidth, hsmall⟩,
        List.replicate (total - (1 + w)) 0, Nat.ne_of_lt hfits, by simp⟩], ?_, Nat.le_refl 1, ?_⟩
      · simp only [List.length_cons, List.length_append, vint_length, List.length_replicate]
        omega
      · simp [Element.raw, ElementHeader.raw]
      · simp
  · cases h

end RecordingNote

end MDesk
