import MDesk.Core.MachineInt
import MDesk.Transfer.Path
import Mathlib.Data.Prod.Lex
import Mathlib.Tactic.Ring

/-!
# Numbers of versions

Features are gated on the version of the peer, compared as a number. The number is
accumulated over the parts of the version, and a suffix counts below its last part.
-/

namespace MDesk

open Core

/-- The number that decimal digits stand for. -/
def parseDigits (digits : List Char) : Option Nat :=
  if digits ≠ [] ∧ digits.all Char.isDigit then some (Nat.ofDigitChars 10 digits 0) else none

/-- `str::parse::<i64>`: an optional sign and decimal digits. -/
def parseI64 (s : String) : Option Int :=
  match s.toList with
  | '-' :: digits =>
    (parseDigits digits).bind fun n => if n ≤ 2 ^ 63 then some (-(n : Int)) else none
  | '+' :: digits => (parseDigits digits).bind fun n => if n < 2 ^ 63 then some (n : Int) else none
  | digits => (parseDigits digits).bind fun n => if n < 2 ^ 63 then some (n : Int) else none

/-- A version as a number: its last part counts ten times, which leaves space for a patch
version. -/
def getVersionNumber (v : String) : Int :=
  let versions := splitStr (· == '-') v
  let n := match versions.head? with
    | some v =>
      let (n, last) := (splitStr (· == '.') v).foldl (fun (n, _) x =>
        let last := (parseI64 x).getD 0
        (wrapI64 (wrapI64 (n * 1000) + last), last)) ((0 : Int), (0 : Int))
      wrapI64 (wrapI64 (n - last) + wrapI64 (last * 10))
    | none => 0
  match versions[1]? with
  | some v => wrapI64 (n + (parseI64 v).getD 0)
  | none => n

/-- A part of a version: decimal digits. -/
structure Decimal where
  digits : List Char
  ne_nil : digits ≠ []
  isDigit : ∀ c ∈ digits, c.isDigit

namespace Decimal

variable (d : Decimal)

def value : Nat := Nat.ofDigitChars 10 d.digits 0

def text : String := String.ofList d.digits

theorem notMem_text {c : Char} (hc : ¬ c.isDigit = true) : c ∉ d.text.toList := by
  unfold text
  rw [String.toList_ofList]
  intro hmem
  exact hc (d.isDigit c hmem)

theorem parseDigits_digits : parseDigits d.digits = some d.value :=
  if_pos ⟨d.ne_nil, List.all_eq_true.mpr d.isDigit⟩

/-- A part that fits is read as its value. -/
theorem parseI64_text (h : d.value < 2 ^ 63) : parseI64 d.text = some (d.value : Int) := by
  have hplain : (parseDigits d.digits).bind (fun n => if n < 2 ^ 63 then some (n : Int) else none) =
      some (d.value : Int) := by
    rw [parseDigits_digits, Option.bind_some, if_pos h]
  unfold parseI64 text
  rw [String.toList_ofList]
  split
  · next heq => exact absurd (d.isDigit '-' (heq ▸ List.mem_cons_self)) (by decide)
  · next heq => exact absurd (d.isDigit '+' (heq ▸ List.mem_cons_self)) (by decide)
  · exact hplain

end Decimal

/-- A version `a.b.c` or `a.b.c-p`, small enough for its number. -/
structure Version where
  major : Decimal
  minor : Decimal
  micro : Decimal
  patch : Option Decimal
  minor_lt : minor.value < 1000
  micro_lt : micro.value < 100
  patch_lt : ∀ p ∈ patch, p.value < 10
  fits : major.value * 1000000 + minor.value * 1000 + micro.value * 10 +
    (patch.map Decimal.value).getD 0 < 2 ^ 63

namespace Version

variable (v w : Version)

def main : String :=
  String.ofList (['.'].intercalate ([v.major.text, v.minor.text, v.micro.text].map String.toList))

def text : String :=
  String.ofList (['-'].intercalate ((v.main :: (v.patch.map Decimal.text).toList).map
    String.toList))

/-- The patch version, zero where there is none. -/
def patchValue : Nat := (v.patch.map Decimal.value).getD 0

/-- The parts of a version, in the lexicographic order. -/
def parts : ℕ ×ₗ ℕ ×ₗ ℕ ×ₗ ℕ :=
  toLex (v.major.value, toLex (v.minor.value, toLex (v.micro.value, v.patchValue)))

/-- The parts of a version, each with its weight. -/
def number : Nat :=
  v.major.value * 1000000 + v.minor.value * 1000 + v.micro.value * 10 + v.patchValue

theorem number_lt : v.number < 2 ^ 63 := v.fits

theorem patchValue_lt : v.patchValue < 10 := by
  unfold patchValue
  cases hp : v.patch with
  | none => simp
  | some p => exact v.patch_lt p hp

theorem dash_notMem_main : '-' ∉ v.main.toList := by
  have hdash (d : Decimal) : '-' ∉ d.text.toList := d.notMem_text (by decide)
  simp [main, List.intercalate, List.intersperse, hdash]

/-- The suffix of a version comes apart from the rest. -/
theorem splitStr_text :
    splitStr (· == '-') v.text = v.main :: (v.patch.map Decimal.text).toList := by
  apply splitStr_intercalate (List.cons_ne_nil _ _)
  intro s hs
  rcases List.mem_cons.mp hs with rfl | hs
  · exact v.dash_notMem_main
  · obtain ⟨p, _, rfl⟩ : ∃ p, v.patch = some p ∧ p.text = s := by simpa using hs
    exact p.notMem_text (by decide)

theorem splitStr_main :
    splitStr (· == '.') v.main = [v.major.text, v.minor.text, v.micro.text] := by
  apply splitStr_intercalate (List.cons_ne_nil _ _)
  intro s hs
  simp only [List.mem_cons, List.not_mem_nil, or_false] at hs
  rcases hs with rfl | rfl | rfl <;> exact Decimal.notMem_text _ (by decide)

/-- The number of a version is the sum of its weighted parts: nothing wraps on the way. -/
theorem getVersionNumber_text : getVersionNumber v.text = v.number := by
  have hfits := v.number_lt
  have hminor := v.minor_lt
  have hmicro := v.micro_lt
  unfold number at *
  have hsum : wrapI64 (wrapI64 (wrapI64 (wrapI64 (wrapI64 (wrapI64 (wrapI64 (wrapI64
      (0 * 1000) + v.major.value) * 1000) + v.minor.value) * 1000) + v.micro.value) -
      v.micro.value) + wrapI64 (v.micro.value * 10)) =
      v.major.value * 1000000 + v.minor.value * 1000 + v.micro.value * 10 := by
    simp (disch := omega) only [wrapI64_of_lt]
    omega
  have hmajor := v.major.parseI64_text (by omega)
  have hsecond := v.minor.parseI64_text (by omega)
  have hthird := v.micro.parseI64_text (by omega)
  unfold getVersionNumber
  simp only [splitStr_text, splitStr_main, List.head?_cons, List.foldl_cons, List.foldl_nil, hmajor,
    hsecond, hthird, Option.getD_some, hsum]
  cases hp : v.patch with
  | none => simp [patchValue, hp]
  | some p =>
    have hpatch : v.patchValue = p.value := by simp [patchValue, hp]
    simp only [Option.map_some, Option.toList_some, List.getElem?_cons_succ,
      List.getElem?_cons_zero, p.parseI64_text (by omega), Option.getD_some, hpatch]
    rw [wrapI64_of_lt (by omega) (by omega)]
    push_cast
    rfl

theorem number_lt_iff : v.number < w.number ↔ v.parts < w.parts := by
  have hv := v.patchValue_lt
  have hw := w.patchValue_lt
  have hvm := v.micro_lt
  have hwm := w.micro_lt
  have hvn := v.minor_lt
  have hwn := w.minor_lt
  unfold number parts
  rw [Prod.Lex.toLex_lt_toLex, Prod.Lex.toLex_lt_toLex, Prod.Lex.toLex_lt_toLex]
  dsimp only
  omega

theorem number_eq_iff : v.number = w.number ↔ v.parts = w.parts := by
  have hv := v.patchValue_lt
  have hw := w.patchValue_lt
  have hvm := v.micro_lt
  have hwm := w.micro_lt
  have hvn := v.minor_lt
  have hwn := w.minor_lt
  unfold number parts
  simp only [EmbeddingLike.apply_eq_iff_eq, Prod.mk.injEq]
  omega

/-- Versions are in the order of their numbers, and versions of one number have the same
parts. -/
theorem getVersionNumber_order :
    (getVersionNumber v.text < getVersionNumber w.text ↔ v.parts < w.parts) ∧
      (getVersionNumber v.text = getVersionNumber w.text ↔ v.parts = w.parts) := by
  rw [getVersionNumber_text, getVersionNumber_text, Nat.cast_lt, Nat.cast_inj]
  exact ⟨number_lt_iff v w, number_eq_iff v w⟩

end Version

end MDesk
