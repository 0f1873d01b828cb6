import MDesk.Core.Endian
import Mathlib.Algebra.Order.Ring.Nat

/-!
# EBML

An element is an id, the size of its payload and the payload. The width of an id and of a
size is the number of zeros in front of the first one of its first byte, and one. An element
whose size is all ones ends where its parent does, or where something begins that cannot be
in it, so what is in it is read as what stands behind it.
-/

namespace MDesk.Core

variable {w n : Nat} {b : UInt8} {bs x y : List UInt8}

/-- `u8::leading_zeros`. -/
def leadingZeros (b : UInt8) : Nat := if b = 0 then 8 else 7 - b.toNat.log2

/-- The width that a first byte announces. -/
def vintWidth (b : UInt8) : Nat := leadingZeros b + 1

/-- A number behind the mark of its width. -/
def vint (w n : Nat) : List UInt8 := beBytes w (2 ^ (7 * w) + n)

/-- The largest number of a width says that the size is not known. -/
def unknownSize (w : Nat) : Nat := 2 ^ (7 * w) - 1

@[simp] theorem vint_length (w n : Nat) : (vint w n).length = w := beBytes_length _ _

/-- The width of a byte with the mark in front. -/
theorem vintWidth_ofNat {w r : Nat} (hw : 1 ≤ w) (hw' : w ≤ 8) (hr : r < 2 ^ (8 - w)) :
    UInt8.ofNat (2 ^ (8 - w) + r) ≠ 0 ∧ vintWidth (UInt8.ofNat (2 ^ (8 - w) + r)) = w ∧
      (UInt8.ofNat (2 ^ (8 - w) + r)).toNat % 2 ^ (8 - w) = r := by
  have hpow : 2 ^ (8 - w) * 2 ≤ 2 ^ 8 := by
    rw [← pow_succ]
    exact Nat.pow_le_pow_right (by decide) (by omega)
  have hpos : 0 < 2 ^ (8 - w) := Nat.pow_pos (by decide)
  have hbyte : (UInt8.ofNat (2 ^ (8 - w) + r)).toNat = 2 ^ (8 - w) + r := by
    rw [UInt8.toNat_ofNat']
    omega
  have hne : UInt8.ofNat (2 ^ (8 - w) + r) ≠ 0 := by
    intro h
    rw [h] at hbyte
    change 0 = 2 ^ (8 - w) + r at hbyte
    omega
  have hlog : Nat.log2 (2 ^ (8 - w) + r) = 8 - w := by
    rw [Nat.log2_eq_iff (by omega), pow_succ]
    omega
  refine ⟨hne, ?_, ?_⟩
  · rw [vintWidth, leadingZeros, if_neg hne, hbyte, hlog]
    omega
  · rw [hbyte, Nat.add_mod_left, Nat.mod_eq_of_lt hr]

/-- The first byte of a number, and the others. -/
theorem vint_cons (hw : 1 ≤ w) (hw' : w ≤ 8) (hn : n < 2 ^ (7 * w)) :
    n / 256 ^ (w - 1) < 2 ^ (8 - w) ∧
      vint w n = UInt8.ofNat (2 ^ (8 - w) + n / 256 ^ (w - 1)) :: beBytes (w - 1) n := by
  obtain ⟨k, rfl⟩ := Nat.exists_eq_add_of_le' hw
  have hpow : 2 ^ (7 * (k + 1)) = 256 ^ k * 2 ^ (8 - (k + 1)) := by
    rw [show (256 : Nat) = 2 ^ 8 from rfl, ← pow_mul, ← pow_add]
    congr 1
    omega
  have hpos : 0 < 256 ^ k := Nat.pow_pos (by decide)
  rw [Nat.add_sub_cancel, vint, beBytes_succ, hpow, Nat.mul_add_div hpos]
  refine ⟨Nat.div_lt_of_lt_mul (hpow ▸ hn), ?_⟩
  rw [beBytes, leBytes_mul_add, beBytes]

/-- What a number says about itself. -/
theorem vint_spec (hw : 1 ≤ w) (hw' : w ≤ 8) (hn : n < 2 ^ (7 * w)) :
    ∃ b bs, vint w n = b :: bs ∧ b ≠ 0 ∧ vintWidth b = w ∧ bs.length = w - 1 ∧
      256 ^ (w - 1) * (b.toNat % 2 ^ (8 - w)) + beNat bs = n := by
  obtain ⟨hhigh, hcons⟩ := vint_cons hw hw' hn
  obtain ⟨hne, hwidth, hmod⟩ := vintWidth_ofNat hw hw' hhigh
  refine ⟨_, _, hcons, hne, hwidth, beBytes_length _ _, ?_⟩
  have hlow : beNat (beBytes (w - 1) n) = n % 256 ^ (w - 1) := by
    rw [beNat, beBytes, List.reverse_reverse, leNat_leBytes_mod]
  rw [hmod, hlow, Nat.div_add_mod]

/-- A number is read from its own bytes, whatever follows. -/
theorem vint_inj {w' n' : Nat} (hw : 1 ≤ w ∧ w ≤ 8) (hw' : 1 ≤ w' ∧ w' ≤ 8)
    (hn : n < 2 ^ (7 * w)) (hn' : n' < 2 ^ (7 * w')) (h : vint w n ++ x = vint w' n' ++ y) :
    w = w' ∧ n = n' ∧ x = y := by
  obtain ⟨b, bs, hb, -, hwidth, -, hvalue⟩ := vint_spec hw.1 hw.2 hn
  obtain ⟨b', bs', hb', -, hwidth', -, hvalue'⟩ := vint_spec hw'.1 hw'.2 hn'
  have hfirst : b = b' := by
    rw [hb, hb'] at h
    exact (List.cons.inj h).1
  obtain rfl : w = w' := by rw [← hwidth, ← hwidth', hfirst]
  obtain ⟨hnumber, hrest⟩ := List.append_inj h (by simp)
  rw [hb, hb'] at hnumber
  obtain ⟨rfl, rfl⟩ := List.cons.inj hnumber
  exact ⟨rfl, by rw [← hvalue, ← hvalue'], hrest⟩

/-- The bytes of an id, as many as the first of them announces. -/
def ValidId (id : List UInt8) : Prop :=
  id.length ≤ 4 ∧ ∃ b ∈ id.head?, b ≠ 0 ∧ vintWidth b = id.length

instance (id : List UInt8) : Decidable (ValidId id) := by
  unfold ValidId
  infer_instance

theorem ValidId.cons {id : List UInt8} (h : ValidId id) :
    ∃ b bs, id = b :: bs ∧ b ≠ 0 ∧ vintWidth b = id.length := by
  obtain ⟨-, b, hb, hne, hwidth⟩ := h
  cases id with
  | nil => cases hb
  | cons c bs =>
    obtain rfl : c = b := Option.some.inj hb
    exact ⟨c, bs, rfl, hne, hwidth⟩

theorem validId_inj {id id' : List UInt8} (h : ValidId id) (h' : ValidId id')
    (heq : id ++ x = id' ++ y) : id = id' ∧ x = y := by
  obtain ⟨b, bs, hb, -, hwidth⟩ := h.cons
  obtain ⟨b', bs', hb', -, hwidth'⟩ := h'.cons
  have hfirst : b = b' := by
    rw [hb, hb'] at heq
    exact (List.cons.inj heq).1
  exact List.append_inj heq (by rw [← hwidth, ← hwidth', hfirst])

/-- The id and the size of an element. -/
structure ElementHeader where
  id : List UInt8
  width : Nat
  size : Nat
  idValid : ValidId id
  widthValid : 1 ≤ width ∧ width ≤ 8
  sizeValid : size < 2 ^ (7 * width)

def ElementHeader.raw (h : ElementHeader) : List UInt8 := h.id ++ vint h.width h.size

theorem ElementHeader.raw_inj {h h' : ElementHeader} (heq : h.raw ++ x = h'.raw ++ y) :
    h = h' ∧ x = y := by
  obtain ⟨id, w, n, hid, hw, hn⟩ := h
  obtain ⟨id', w', n', hid', hw', hn'⟩ := h'
  simp only [raw, List.append_assoc] at heq
  obtain ⟨rfl, hsize⟩ := validId_inj hid hid' heq
  obtain ⟨rfl, rfl, hrest⟩ := vint_inj hw hw' hn hn' hsize
  exact ⟨rfl, hrest⟩

/-- An element whose size is known. -/
structure Element where
  header : ElementHeader
  payload : List UInt8
  sizeKnown : header.size ≠ unknownSize header.width
  payloadLength : payload.length = header.size

namespace Element

abbrev id (e : Element) : List UInt8 := e.header.id

def raw (e : Element) : List UInt8 := e.header.raw ++ e.payload

end Element

/-- What a payload is read as: an element, or the beginning of one whose size is not known. -/
inductive Item where
  | whole (e : Element)
  | opened (h : ElementHeader) (unknown : h.size = unknownSize h.width)

def Item.raw : Item → List UInt8
  | .whole e => e.raw
  | .opened h _ => h.raw

/-- The bytes of elements, one after another. -/
def rawAll (es : List Element) : List UInt8 := es.flatMap Element.raw

def rawItems (is : List Item) : List UInt8 := is.flatMap Item.raw

@[simp] theorem rawAll_nil : rawAll [] = [] := rfl

@[simp] theorem rawAll_cons (e : Element) (es : List Element) :
    rawAll (e :: es) = e.raw ++ rawAll es := rfl

@[simp] theorem rawAll_append (es fs : List Element) : rawAll (es ++ fs) = rawAll es ++ rawAll fs :=
  List.flatMap_append

@[simp] theorem rawItems_nil : rawItems [] = [] := rfl

@[simp] theorem rawItems_cons (i : Item) (is : List Item) :
    rawItems (i :: is) = i.raw ++ rawItems is := rfl

@[simp] theorem rawItems_append (is js : List Item) :
    rawItems (is ++ js) = rawItems is ++ rawItems js := List.flatMap_append

theorem rawItems_whole (es : List Element) : rawItems (es.map .whole) = rawAll es := by
  rw [rawItems, List.flatMap_map]
  rfl

theorem ElementHeader.raw_length (h : ElementHeader) : h.raw.length = h.id.length + h.width := by
  rw [raw, List.length_append, vint_length]

theorem Element.raw_length (e : Element) :
    e.raw.length = e.header.raw.length + e.payload.length := List.length_append

theorem ElementHeader.raw_pos (h : ElementHeader) : 2 ≤ h.raw.length := by
  obtain ⟨b, bs, hid, -⟩ := h.idValid.cons
  have hw := h.widthValid.1
  rw [raw_length, hid, List.length_cons]
  omega

theorem Element.raw_length_lt (e : Element) : e.raw.length < 2 ^ 57 := by
  have hparts := e.raw_length
  have hheader := e.header.raw_length
  have hid : e.header.id.length ≤ 4 := e.header.idValid.1
  have hwidth := e.header.widthValid.2
  have hpayload : e.payload.length < 2 ^ 56 := by
    rw [e.payloadLength]
    exact Nat.lt_of_lt_of_le e.header.sizeValid (Nat.pow_le_pow_right (by decide) (by omega))
  omega

theorem Item.raw_inj {i j : Item} (h : i.raw ++ x = j.raw ++ y) : i = j ∧ x = y := by
  cases i with
  | whole e =>
    cases j with
    | whole f =>
      obtain ⟨he, p, hk, hp⟩ := e
      obtain ⟨hf, q, hk', hq⟩ := f
      simp only [Item.raw, Element.raw, List.append_assoc] at h
      obtain ⟨rfl, hrest⟩ := ElementHeader.raw_inj h
      obtain ⟨rfl, hbehind⟩ := List.append_inj hrest (by rw [hp, hq])
      exact ⟨rfl, hbehind⟩
    | opened k hk =>
      simp only [Item.raw, Element.raw, List.append_assoc] at h
      obtain ⟨hsame, -⟩ := ElementHeader.raw_inj h
      exact absurd (hsame ▸ hk) e.sizeKnown
  | opened k hk =>
    cases j with
    | whole f =>
      simp only [Item.raw, Element.raw, List.append_assoc] at h
      obtain ⟨hsame, -⟩ := ElementHeader.raw_inj h
      exact absurd (hsame ▸ hk) f.sizeKnown
    | opened l hl =>
      obtain ⟨rfl, hrest⟩ := ElementHeader.raw_inj h
      exact ⟨rfl, hrest⟩

theorem Item.raw_pos (i : Item) : 2 ≤ i.raw.length := by
  cases i with
  | whole e =>
    have hpos := e.header.raw_pos
    rw [Item.raw, Element.raw_length]
    omega
  | opened h => exact h.raw_pos

/-- A payload is read in one way only. -/
theorem rawItems_inj {is js : List Item} (h : rawItems is = rawItems js) : is = js := by
  induction is generalizing js with
  | nil =>
    cases js with
    | nil => rfl
    | cons j js =>
      have hlen := congrArg List.length h
      have hpos := j.raw_pos
      rw [rawItems_cons, rawItems_nil, List.length_append, List.length_nil] at hlen
      omega
  | cons i is ih =>
    cases js with
    | nil =>
      have hlen := congrArg List.length h
      have hpos := i.raw_pos
      rw [rawItems_cons, rawItems_nil, List.length_append, List.length_nil] at hlen
      omega
    | cons j js =>
      rw [rawItems_cons, rawItems_cons] at h
      obtain ⟨rfl, hrest⟩ := Item.raw_inj h
      rw [ih hrest]

end MDesk.Core
