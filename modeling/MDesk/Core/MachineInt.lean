import Mathlib.Algebra.Order.Ring.Int

/-!
# Machine integers

Casts and operations whose result wraps or saturates, over plain integers.
-/

namespace MDesk.Core

/-- A cast to `usize`: negative numbers wrap. -/
def asUsize (n : Int) : Nat := (n % 2 ^ 64).toNat

@[simp] theorem asUsize_natCast {n : Nat} (h : n < 2 ^ 64) : asUsize n = n := by
  unfold asUsize
  omega

/-- The value an `i32` operation wraps to. -/
def wrapI32 (n : Int) : Int := (n + 2 ^ 31) % 2 ^ 32 - 2 ^ 31

theorem wrapI32_of_lt {n : Int} (h : 0 ≤ n) (hn : n < 2 ^ 31) : wrapI32 n = n := by
  unfold wrapI32
  omega

theorem wrapI32_natCast {n : Nat} (h : n < 2 ^ 31) : wrapI32 n = n :=
  wrapI32_of_lt (Int.natCast_nonneg n) (by exact_mod_cast h)

/-- The value an `i64` operation wraps to. -/
def wrapI64 (n : Int) : Int := (n + 2 ^ 63) % 2 ^ 64 - 2 ^ 63

theorem wrapI64_of_lt {n : Int} (h : 0 ≤ n) (hn : n < 2 ^ 63) : wrapI64 n = n := by
  unfold wrapI64
  omega

/-- `i32::saturating_add`. -/
def saturatingAddI32 (a b : Int) : Int := max (-2 ^ 31) (min (a + b) (2 ^ 31 - 1))

theorem saturatingAddI32_one {n : Nat} (h : n + 1 < 2 ^ 31) : saturatingAddI32 n 1 = n + 1 := by
  unfold saturatingAddI32
  omega

/-- The sum of two `u64` numbers, where it is one. -/
def checkedAdd64 (a b : Nat) : Option Nat := if a + b < 2 ^ 64 then some (a + b) else none

theorem checkedAdd64_of_lt {a b : Nat} (h : a + b < 2 ^ 64) : checkedAdd64 a b = some (a + b) :=
  if_pos h

/-- The difference of two unsigned numbers, where it is one. -/
def checkedSub (a b : Nat) : Option Nat := if b ≤ a then some (a - b) else none

theorem checkedSub_of_le {a b : Nat} (h : b ≤ a) : checkedSub a b = some (a - b) := if_pos h

end MDesk.Core
