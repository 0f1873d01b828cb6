import Mathlib.Data.List.Induction
import MDesk.Core.Endian

/-!
# UTF-16

Text in 16-bit units: a scalar value outside the basic plane is a pair of surrogates.
Decoding refuses a surrogate that is not half of a pair.
-/

namespace MDesk.Core

/-- The UTF-16 units of a character. -/
def utf16Char (c : Char) : List Nat :=
  if c.toNat < 0x10000 then [c.toNat]
  else [0xD800 + (c.toNat - 0x10000) / 0x400, 0xDC00 + (c.toNat - 0x10000) % 0x400]

/-- The UTF-16 units of a text. -/
def utf16Encode (cs : List Char) : List Nat := cs.flatMap utf16Char

/-- The text in a list of UTF-16 units, if it is well formed. -/
def utf16Decode : List Nat → Option (List Char)
  | [] => some []
  | u :: us =>
    if u < 0xD800 ∨ 0xDFFF < u then (utf16Decode us).map (Char.ofNat u :: ·)
    else if 0xDC00 ≤ u then none
    else
      match us with
      | [] => none
      | v :: us =>
        if 0xDC00 ≤ v ∧ v ≤ 0xDFFF then
          (utf16Decode us).map (Char.ofNat (0x10000 + (u - 0xD800) * 0x400 + (v - 0xDC00)) :: ·)
        else none

/-- Units as little-endian bytes. -/
def utf16LeBytes (us : List Nat) : List UInt8 := us.flatMap (leBytes 2)

/-- The units in little-endian bytes, if there is no half of one. -/
def utf16LeUnits : List UInt8 → Option (List Nat)
  | [] => some []
  | [_] => none
  | a :: b :: bs => (utf16LeUnits bs).map (leNat [a, b] :: ·)

theorem char_toNat_valid (c : Char) : c.toNat < 0xD800 ∨ 0xDFFF < c.toNat ∧ c.toNat < 0x110000 :=
  c.valid

theorem utf16Char_lt (c : Char) : ∀ u ∈ utf16Char c, u < 2 ^ 16 := by
  have hc := char_toNat_valid c
  unfold utf16Char
  split <;> simp <;> omega

theorem utf16Decode_basic {u : Nat} (us : List Nat) (h : u < 0xD800 ∨ 0xDFFF < u) :
    utf16Decode (u :: us) = (utf16Decode us).map (Char.ofNat u :: ·) := by
  rw [utf16Decode.eq_def]
  exact if_pos h

theorem utf16Decode_pair {u v : Nat} (us : List Nat) (hu : 0xD800 ≤ u ∧ u < 0xDC00)
    (hv : 0xDC00 ≤ v ∧ v ≤ 0xDFFF) : utf16Decode (u :: v :: us) =
      (utf16Decode us).map (Char.ofNat (0x10000 + (u - 0xD800) * 0x400 + (v - 0xDC00)) :: ·) := by
  rw [utf16Decode.eq_def]
  simp only
  rw [if_neg (by omega), if_neg (by omega), if_pos hv]

/-- A character is read back from its units, whatever follows. -/
theorem utf16Decode_char (c : Char) (us : List Nat) :
    utf16Decode (utf16Char c ++ us) = (utf16Decode us).map (c :: ·) := by
  have hc := char_toNat_valid c
  unfold utf16Char
  split
  · rw [List.singleton_append, utf16Decode_basic us (by omega), Char.ofNat_toNat]
  · have hback : 0x10000 + (0xD800 + (c.toNat - 0x10000) / 0x400 - 0xD800) * 0x400 +
        (0xDC00 + (c.toNat - 0x10000) % 0x400 - 0xDC00) = c.toNat := by omega
    rw [List.cons_append, List.singleton_append, utf16Decode_pair us (by omega) (by omega), hback,
      Char.ofNat_toNat]

/-- A text is read back from its units. -/
theorem utf16Decode_encode (cs : List Char) : utf16Decode (utf16Encode cs) = some cs := by
  induction cs with
  | nil => rfl
  | cons c cs ih =>
    rw [utf16Encode, List.flatMap_cons, utf16Decode_char]
    exact congrArg (Option.map (c :: ·)) ih

theorem utf16Encode_append (cs ds : List Char) :
    utf16Encode (cs ++ ds) = utf16Encode cs ++ utf16Encode ds := List.flatMap_append

theorem utf16Encode_lt (cs : List Char) : ∀ u ∈ utf16Encode cs, u < 2 ^ 16 := by
  intro u hu
  obtain ⟨c, -, hc⟩ := List.mem_flatMap.mp hu
  exact utf16Char_lt c u hc

/-- Every character has a unit. -/
theorem length_le_utf16Encode (cs : List Char) : cs.length ≤ (utf16Encode cs).length := by
  induction cs with
  | nil => exact Nat.zero_le _
  | cons c cs ih =>
    have hchar : 1 ≤ (utf16Char c).length := by
      unfold utf16Char
      split_ifs <;> simp
    have hcons : utf16Encode (c :: cs) = utf16Char c ++ utf16Encode cs := rfl
    rw [hcons, List.length_append, List.length_cons]
    omega

/-- Zero units are zero characters. -/
theorem utf16Encode_replicate_zero (k : Nat) :
    utf16Encode (List.replicate k '\x00') = List.replicate k 0 := by
  induction k with
  | zero => rfl
  | succ k ih =>
    rw [List.replicate_succ, utf16Encode, List.flatMap_cons, List.replicate_succ]
    exact congrArg (0 :: ·) ih

@[simp] theorem utf16LeBytes_append (us vs : List Nat) :
    utf16LeBytes (us ++ vs) = utf16LeBytes us ++ utf16LeBytes vs := List.flatMap_append

@[simp] theorem utf16LeBytes_length (us : List Nat) : (utf16LeBytes us).length = 2 * us.length := by
  induction us with
  | nil => rfl
  | cons u us ih =>
    rw [utf16LeBytes, List.flatMap_cons, List.length_append, leBytes_length, List.length_cons]
    change 2 + (utf16LeBytes us).length = _
    omega

theorem utf16LeBytes_replicate_zero (k : Nat) :
    utf16LeBytes (List.replicate k 0) = List.replicate (2 * k) 0 := by
  induction k with
  | zero => rfl
  | succ k ih =>
    rw [List.replicate_succ, utf16LeBytes, List.flatMap_cons, Nat.mul_succ, List.replicate_succ,
      List.replicate_succ]
    exact congrArg (fun bs => 0 :: 0 :: bs) ih

/-- Units are read back from their bytes. -/
theorem utf16LeUnits_bytes {us : List Nat} (h : ∀ u ∈ us, u < 2 ^ 16) :
    utf16LeUnits (utf16LeBytes us) = some us := by
  induction us with
  | nil => rfl
  | cons u us ih =>
    have hu : leNat (leBytes 2 u) = u := leNat_leBytes (h u List.mem_cons_self)
    have hcons : utf16LeBytes (u :: us) =
        UInt8.ofNat u :: UInt8.ofNat (u / 256) :: utf16LeBytes us := rfl
    rw [hcons, utf16LeUnits, ih fun v hv => h v (List.mem_cons_of_mem u hv)]
    exact congrArg (fun n => some (n :: us)) hu

section Backspace

/-- The two halves of one character. -/
def isSurrogatePair (u v : Nat) : Bool :=
  decide (0xD800 ≤ u ∧ u < 0xDC00) && decide (0xDC00 ≤ v ∧ v ≤ 0xDFFF)

/-- Some character of the text takes two units. -/
def hasSurrogatePair : List Nat → Bool
  | u :: v :: us => isSurrogatePair u v || hasSurrogatePair (v :: us)
  | _ => false

def endsInSurrogatePair (us : List Nat) : Bool :=
  match us.reverse with
  | v :: u :: _ => isSurrogatePair u v
  | _ => false

/-- The text without its last character. -/
def utf16Backspace (us : List Nat) : List Nat :=
  if endsInSurrogatePair us then us.dropLast.dropLast else us.dropLast

variable {us vs : List Nat} {u v : Nat}

theorem endsInSurrogatePair_concat :
    endsInSurrogatePair (us ++ [v]) = us.getLast?.any fun u => isSurrogatePair u v := by
  rcases List.eq_nil_or_concat' us with rfl | ⟨us, u, rfl⟩
  · rfl
  · simp [endsInSurrogatePair]

/-- A pair that ends a text is there, or one was before. -/
theorem hasSurrogatePair_concat : hasSurrogatePair (us ++ [v]) =
    (hasSurrogatePair us || endsInSurrogatePair (us ++ [v])) := by
  rw [endsInSurrogatePair_concat]
  induction us with
  | nil => rfl
  | cons u us ih =>
    cases us with
    | nil => simp [hasSurrogatePair]
    | cons u' us =>
      simp only [List.cons_append, hasSurrogatePair] at ih ⊢
      rw [ih, Bool.or_assoc]
      rfl

theorem length_utf16Backspace_le (us : List Nat) : (utf16Backspace us).length ≤ us.length - 1 := by
  unfold utf16Backspace
  split_ifs
  · simp only [List.length_dropLast]
    omega
  · simp only [List.length_dropLast, le_refl]

theorem length_iterate_backspace_le (n : Nat) (us : List Nat) :
    (utf16Backspace^[n] us).length ≤ us.length - n := by
  induction n generalizing us with
  | zero => rfl
  | succ n ih =>
    rw [Function.iterate_succ_apply]
    have := ih (utf16Backspace us)
    have := length_utf16Backspace_le us
    omega

/-- One deletion for each unit behind a text leaves the text exactly if no character there, and
none across its end, takes two units. -/
theorem iterate_backspace_eq_iff (hus : us ≠ []) : utf16Backspace^[vs.length] (us ++ vs) = us ↔
    hasSurrogatePair (us.getLast?.toList ++ vs) = false := by
  obtain ⟨us, u, rfl⟩ := (List.eq_nil_or_concat' us).resolve_left hus
  rw [List.getLast?_concat, Option.toList_some]
  induction vs using List.reverseRecOn with
  | nil => simp [hasSurrogatePair]
  | append_singleton vs v ih =>
    have hends : endsInSurrogatePair (us ++ [u] ++ vs ++ [v]) =
        endsInSurrogatePair ([u] ++ vs ++ [v]) := by
      rw [endsInSurrogatePair_concat, endsInSurrogatePair_concat, List.append_assoc,
        List.getLast?_append_of_ne_nil us (List.append_ne_nil_of_left_ne_nil (by simp) vs)]
    have hdrop : (us ++ [u] ++ vs ++ [v]).dropLast = us ++ [u] ++ vs := List.dropLast_concat
    rw [List.length_append, List.length_singleton, Function.iterate_succ_apply, utf16Backspace,
      ← List.append_assoc, ← List.append_assoc [u], hasSurrogatePair_concat, hends, hdrop]
    cases hpair : endsInSurrogatePair ([u] ++ vs ++ [v]) with
    | false => rw [if_neg (by simp), Bool.or_false, ih]
    | true =>
      refine iff_of_false (fun heq => ?_) (by simp)
      have hshort := length_iterate_backspace_le vs.length (us ++ [u] ++ vs).dropLast
      rw [if_pos rfl] at heq
      rw [heq] at hshort
      simp only [List.length_dropLast, List.length_append, List.length_singleton] at hshort
      omega

theorem iterate_backspace_length : utf16Backspace^[us.length] us = [] := by
  have hshort := length_iterate_backspace_le us.length us
  rw [Nat.sub_self] at hshort
  exact List.length_eq_zero_iff.mp (Nat.le_zero.mp hshort)

end Backspace

end MDesk.Core
