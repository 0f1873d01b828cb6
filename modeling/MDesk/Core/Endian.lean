import Mathlib.Data.List.Basic
import Mathlib.Tactic.Ring

/-!
# Numbers as bytes

Numbers written into a fixed number of bytes, least or most significant byte first.
Writing truncates, as a cast to the width does; reading undoes it.
-/

namespace MDesk.Core

/-- The `w` low bytes of a number, least significant first. -/
def leBytes : Nat → Nat → List UInt8
  | 0, _ => []
  | w + 1, n => UInt8.ofNat n :: leBytes w (n / 256)

/-- The number in a byte string, least significant byte first. -/
def leNat : List UInt8 → Nat
  | [] => 0
  | b :: bs => b.toNat + 256 * leNat bs

/-- The `w` low bytes of a number, most significant first. -/
def beBytes (w n : Nat) : List UInt8 := (leBytes w n).reverse

/-- The number in a byte string, most significant byte first. -/
def beNat (bs : List UInt8) : Nat := leNat bs.reverse

variable {w n : Nat} {bs cs : List UInt8}

@[simp] theorem leBytes_length (w n : Nat) : (leBytes w n).length = w := by
  induction w generalizing n with
  | zero => rfl
  | succ w ih => rw [leBytes, List.length_cons, ih]

@[simp] theorem beBytes_length (w n : Nat) : (beBytes w n).length = w := by simp [beBytes]

theorem leNat_lt (bs : List UInt8) : leNat bs < 256 ^ bs.length := by
  induction bs with
  | nil => simp [leNat]
  | cons b bs ih =>
    have hb := b.toNat_lt
    rw [leNat, List.length_cons, pow_succ]
    omega

theorem leNat_append (bs cs : List UInt8) :
    leNat (bs ++ cs) = leNat bs + 256 ^ bs.length * leNat cs := by
  induction bs with
  | nil => simp [leNat]
  | cons b bs ih =>
    rw [List.cons_append, leNat, leNat, ih, List.length_cons, pow_succ]
    ring

theorem leNat_leBytes_mod (w n : Nat) : leNat (leBytes w n) = n % 256 ^ w := by
  induction w generalizing n with
  | zero => simp [leBytes, leNat, Nat.mod_one]
  | succ w ih =>
    rw [leBytes, leNat, ih, pow_succ, Nat.mul_comm (256 ^ w), Nat.mod_mul, UInt8.toNat_ofNat']

/-- A number that fits is read as it was written. -/
theorem leNat_leBytes (h : n < 256 ^ w) : leNat (leBytes w n) = n := by
  rw [leNat_leBytes_mod, Nat.mod_eq_of_lt h]

theorem beNat_beBytes (h : n < 256 ^ w) : beNat (beBytes w n) = n := by
  rw [beNat, beBytes, List.reverse_reverse, leNat_leBytes h]

/-- The bytes that were read are written back. -/
theorem leBytes_leNat (bs : List UInt8) : leBytes bs.length (leNat bs) = bs := by
  induction bs with
  | nil => rfl
  | cons b bs ih =>
    have hb := b.toNat_lt
    have hquot : (b.toNat + 256 * leNat bs) / 256 = leNat bs := by omega
    have hlow : UInt8.ofNat (b.toNat + 256 * leNat bs) = b := by
      apply UInt8.toNat_inj.mp
      rw [UInt8.toNat_ofNat']
      omega
    rw [List.length_cons, leNat, leBytes, hquot, ih, hlow]

/-- The highest byte is the last. -/
theorem leBytes_concat (w n : Nat) :
    leBytes (w + 1) n = leBytes w n ++ [UInt8.ofNat (n / 256 ^ w)] := by
  induction w generalizing n with
  | zero => simp [leBytes]
  | succ w ih =>
    rw [leBytes, ih, leBytes, Nat.div_div_eq_div_mul, pow_succ, Nat.mul_comm (256 ^ w)]
    rfl

theorem beBytes_succ (w n : Nat) :
    beBytes (w + 1) n = UInt8.ofNat (n / 256 ^ w) :: beBytes w n := by
  rw [beBytes, leBytes_concat, List.reverse_append]
  rfl

/-- What is above the bytes does not matter. -/
theorem leBytes_mul_add (w a n : Nat) : leBytes w (256 ^ w * a + n) = leBytes w n := by
  induction w generalizing n with
  | zero => rfl
  | succ w ih =>
    have hquot : (256 ^ (w + 1) * a + n) / 256 = 256 ^ w * a + n / 256 := by
      rw [pow_succ, show 256 ^ w * 256 * a = 256 * (256 ^ w * a) by ring,
        Nat.mul_add_div (by decide)]
    have hlow : UInt8.ofNat (256 ^ (w + 1) * a + n) = UInt8.ofNat n := by
      apply UInt8.toNat_inj.mp
      rw [UInt8.toNat_ofNat', UInt8.toNat_ofNat', pow_succ,
        show 256 ^ w * 256 * a = 2 ^ 8 * (256 ^ w * a) by ring, Nat.mul_add_mod]
    rw [leBytes, hquot, hlow, ih, leBytes]

theorem take_leBytes {m : Nat} (h : w ≤ m) (n : Nat) : (leBytes m n).take w = leBytes w n := by
  induction w generalizing m n with
  | zero => rfl
  | succ w ih =>
    cases m with
    | zero => omega
    | succ m => rw [leBytes, List.take_succ_cons, ih (Nat.le_of_succ_le_succ h), leBytes]

/-- The low bytes of a number are its last ones. -/
theorem drop_beBytes {m : Nat} (h : w ≤ m) (n : Nat) :
    (beBytes m n).drop (m - w) = beBytes w n := by
  rw [beBytes, List.drop_reverse, leBytes_length, Nat.sub_sub_self h, take_leBytes h, beBytes]

/-- Bytes are read from the highest on. -/
theorem foldl_beNat (bs : List UInt8) (v : Nat) :
    bs.foldl (fun v b => 256 * v + b.toNat) v = 256 ^ bs.length * v + beNat bs := by
  induction bs generalizing v with
  | nil => simp [beNat, leNat]
  | cons b bs ih =>
    rw [List.foldl_cons, ih, beNat, beNat, List.reverse_cons, leNat_append, List.length_reverse,
      List.length_cons, pow_succ, leNat, leNat]
    ring

/-- `Buf::get_u*_le`: the number in the first `w` bytes, and what is behind them. -/
def getLe (w : Nat) (bs : List UInt8) : Nat × List UInt8 := (leNat (bs.take w), bs.drop w)

@[simp] theorem getLe_leBytes (h : n < 256 ^ w) (rest : List UInt8) :
    getLe w (leBytes w n ++ rest) = (n, rest) := by
  have hlen : (leBytes w n).length = w := leBytes_length w n
  rw [getLe, List.take_append_of_le_length hlen.ge, List.take_of_length_le hlen.le,
    List.drop_left' hlen, leNat_leBytes h]

end MDesk.Core
