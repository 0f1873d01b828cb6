import Mathlib.Algebra.BigOperators.Fin
import Mathlib.Algebra.Order.Field.Rat
import Mathlib.Data.Rat.Star
import Mathlib.Tactic.NormNum
import MDesk.Core.Shares
import MDesk.Core.Tiling
import MDesk.Desktop.RemoteLayoutModel

/-!
# The sizes of the panes

The panes of a split lie in columns and rows. A divider between two tracks is stored as the share of
the first one, and the dividers between three as their shares, so that the panes keep their
proportions in a window of another size. Sizes are rational numbers.
-/

namespace MDesk

open Core

namespace Desktop

structure Size where
  width : ℚ
  height : ℚ
deriving DecidableEq

structure Rect where
  left : ℚ
  top : ℚ
  width : ℚ
  height : ℚ
deriving DecidableEq

namespace RemoteLayoutModel

def splitGap : ℚ := 8

def minimumPaneSize : Size := ⟨160, 100⟩

/-- The shares of three tracks. -/
structure Thirds where
  weights : Fin 3 → ℚ
  pos : ∀ i, 0 < weights i
  sum : ∑ i, weights i = 1

/-- The tracks of one size. -/
def Thirds.even : Thirds where
  weights _ := 1 / 3
  pos _ := by norm_num
  sum := by norm_num [Fin.sum_univ_three]

/-- Where the dividers are. -/
structure Sizes where
  columnFraction : ℚ := 1 / 2
  rowFraction : ℚ := 1 / 2
  columnThirds : Thirds := .even
  rowThirds : Thirds := .even

def firstExtent (available fraction minimum : ℚ) : ℚ :=
  let limit := min minimum (available / 2)
  clamp (available * fraction) limit (available - limit)

def thirdExtents (available : ℚ) (weights : Fin 3 → ℚ) (minimum : ℚ) : Fin 3 → ℚ :=
  let limit := min minimum (available / 3)
  share weights limit Finset.univ available fun _ => 0

section Dividers

variable {available minimum : ℚ} {t : Thirds}

/-- Three tracks fill what is available, none of them below the limit. -/
theorem thirdExtents_spec (available : ℚ) (t : Thirds) (minimum : ℚ) :
    ∑ i, thirdExtents available t.weights minimum i = available ∧
      ∀ i, min minimum (available / 3) ≤ thirdExtents available t.weights minimum i := by
  have hroom : (Finset.univ : Finset (Fin 3)).card * min minimum (available / 3) ≤ available := by
    have hle := min_le_right minimum (available / 3)
    rw [Finset.card_univ, Fintype.card_fin]
    push_cast
    linarith
  obtain ⟨hsum, hlimit⟩ := share_spec (fun _ => 0) (fun i _ => t.pos i) Finset.univ_nonempty hroom
  exact ⟨hsum, fun i => hlimit i (Finset.mem_univ i)⟩

/-- Shares that give every track at least the limit are the sizes themselves. -/
theorem thirdExtents_of_le (h : ∀ i, min minimum (available / 3) ≤ available * t.weights i)
    (i : Fin 3) : thirdExtents available t.weights minimum i = available * t.weights i := by
  have hweight (i : Fin 3) : available * t.weights i / ∑ i, t.weights i =
      available * t.weights i := by rw [t.sum, div_one]
  rw [thirdExtents, share_of_limit_le (fun i _ => (hweight i).symm ▸ h i) (Finset.mem_univ i)]
  exact hweight i

/-! ## Dividers -/

/-- The fraction that a divider of two tracks is stored as. -/
def resizeFraction (position extent minimum previous : ℚ) : ℚ :=
  let available := extent - splitGap
  if available ≤ 0 then previous
  else firstExtent available ((position - splitGap / 2) / available) minimum / available

/-- The size of the track before a divider at a position. -/
def draggedSize (sizes : Fin 3 → ℚ) (minimum : ℚ) (divider : Fin 2) (position : ℚ) : ℚ :=
  let start := if divider = 0 then 0 else sizes 0 + splitGap
  clamp (position - start - splitGap / 2) minimum
    (sizes divider.castSucc + sizes divider.succ - minimum)

/-- Three sizes with a divider of them at a position. -/
def dragged (sizes : Fin 3 → ℚ) (minimum : ℚ) (divider : Fin 2) (position : ℚ) : Fin 3 → ℚ :=
  let pair := sizes divider.castSucc + sizes divider.succ
  let first := draggedSize sizes minimum divider position
  Function.update (Function.update sizes divider.castSucc first) divider.succ (pair - first)

theorem dragged_apply (sizes : Fin 3 → ℚ) (minimum : ℚ) (divider : Fin 2) (position : ℚ)
    (i : Fin 3) : dragged sizes minimum divider position i =
      if i = divider.succ then
        sizes divider.castSucc + sizes divider.succ - draggedSize sizes minimum divider position
      else if i = divider.castSucc then draggedSize sizes minimum divider position
      else sizes i := by
  rw [dragged, Function.update_apply, Function.update_apply]

theorem sum_dragged (sizes : Fin 3 → ℚ) (minimum : ℚ) (divider : Fin 2) (position : ℚ) :
    ∑ i, dragged sizes minimum divider position i = ∑ i, sizes i := by
  rw [Fin.sum_univ_three, Fin.sum_univ_three]
  match divider with
  | 0 => simp [dragged_apply]
  | 1 => simp [dragged_apply, add_assoc]

/-- A divider leaves every track its smallest size. -/
theorem le_dragged {sizes : Fin 3 → ℚ} (h : ∀ i, minimum ≤ sizes i) (divider : Fin 2)
    (position : ℚ) (i : Fin 3) : minimum ≤ dragged sizes minimum divider position i := by
  have hpair : minimum ≤ sizes divider.castSucc + sizes divider.succ - minimum := by
    have hfirst := h divider.castSucc
    have hsecond := h divider.succ
    linarith
  rw [dragged_apply]
  split_ifs
  · have hle : draggedSize sizes minimum divider position ≤
        sizes divider.castSucc + sizes divider.succ - minimum := clamp_le hpair
    linarith
  · exact le_clamp
  · exact h i

/-- Three sizes as shares of what is available. -/
def Thirds.ofSizes (sizes : Fin 3 → ℚ) (available : ℚ) (hpos : ∀ i, 0 < sizes i)
    (hsum : ∑ i, sizes i = available) : Thirds where
  weights i := sizes i / available
  pos i := by
    have hall : 0 < available := hsum ▸ Finset.sum_pos (fun i _ => hpos i) Finset.univ_nonempty
    exact div_pos (hpos i) hall
  sum := by
    have hall : 0 < available := hsum ▸ Finset.sum_pos (fun i _ => hpos i) Finset.univ_nonempty
    rw [← Finset.sum_div, hsum, div_self hall.ne']

theorem minimum_le_thirdExtents (h : ¬ available ≤ 3 * minimum) (t : Thirds) (i : Fin 3) :
    minimum ≤ thirdExtents available t.weights minimum i := by
  have hlimit := (thirdExtents_spec available t minimum).2 i
  rw [min_eq_left (by linarith)] at hlimit
  exact hlimit

def resizeThirds (t : Thirds) (extent minimum : ℚ) (hminimum : 0 < minimum) (divider : Int)
    (position : ℚ) : Thirds :=
  let available := extent - 2 * splitGap
  if h : available ≤ 3 * minimum then t
  else if divider < 0 ∨ 1 < divider then t
  else
    let sizes := thirdExtents available t.weights minimum
    let divider := if divider = 0 then 0 else 1
    .ofSizes (dragged sizes minimum divider position) available
      (fun i => hminimum.trans_le (le_dragged (minimum_le_thirdExtents h t) divider position i))
      ((sum_dragged sizes minimum divider position).trans (thirdExtents_spec available t minimum).1)

end Dividers

/-- `resize` to dividers at positions. -/
def Sizes.resize (mode : RemoteLayoutMode) (size : Size) (dividerX dividerY : Option ℚ)
    (columnDivider rowDivider : Int) (s : Sizes) : Sizes where
  columnFraction :=
    match dividerX with
    | some x =>
      if mode.columns = 2 then
        resizeFraction x size.width minimumPaneSize.width s.columnFraction
      else s.columnFraction
    | none => s.columnFraction
  rowFraction :=
    match dividerY with
    | some y =>
      if mode.rows = 2 then
        resizeFraction y size.height minimumPaneSize.height s.rowFraction
      else s.rowFraction
    | none => s.rowFraction
  columnThirds :=
    match dividerX with
    | some x =>
      if mode.columns = 3 then
        resizeThirds s.columnThirds size.width minimumPaneSize.width (by norm_num [minimumPaneSize])
          columnDivider x
      else s.columnThirds
    | none => s.columnThirds
  rowThirds :=
    match dividerY with
    | some y =>
      if mode.rows = 3 then
        resizeThirds s.rowThirds size.height minimumPaneSize.height (by norm_num [minimumPaneSize])
          rowDivider y
      else s.rowThirds
    | none => s.rowThirds

def Sizes.resetSizes (columns rows : Bool) (mode : RemoteLayoutMode) (s : Sizes) : Sizes where
  columnFraction := if columns ∧ mode.columns = 2 then 1 / 2 else s.columnFraction
  rowFraction := if rows ∧ mode.rows = 2 then 1 / 2 else s.rowFraction
  columnThirds := if columns ∧ mode.columns = 3 then .even else s.columnThirds
  rowThirds := if rows ∧ mode.rows = 3 then .even else s.rowThirds

/-! ## Rectangles -/

/-- The tracks in one direction, as `rectangles` lays them out. -/
structure Axis where
  count : Nat
  extent : ℚ
  gap : ℚ
  fraction : ℚ
  thirds : Thirds
  minimum : ℚ

namespace Axis

variable (a : Axis)

/-- `gapX` and `gapY`. -/
def gapSize : ℚ := if 1 < a.count then min a.gap (a.extent / (a.count - 1 : Nat)) else 0

def available : ℚ := max 0 (a.extent - a.gapSize * (a.count - 1 : Nat))

def extents : List ℚ :=
  if a.count = 1 then [a.available]
  else if a.count = 3 then List.ofFn (thirdExtents a.available a.thirds.weights a.minimum)
  else
    let first := firstExtent a.available a.fraction a.minimum
    [first, a.available - first]

/-- Where a track begins. -/
def start (i : Nat) : ℚ := trackStart a.extents a.gapSize i

def size (i : Nat) : ℚ := trackSize a.extents a.gapSize a.extent a.count i

end Axis

namespace Sizes

variable (s : Sizes)

def columns (mode : RemoteLayoutMode) (size : Size) (gap : ℚ) : Axis :=
  { count := mode.columns, extent := size.width, gap, fraction := s.columnFraction,
    thirds := s.columnThirds, minimum := minimumPaneSize.width }

def rows (mode : RemoteLayoutMode) (size : Size) (gap : ℚ) : Axis :=
  { count := mode.rows, extent := size.height, gap, fraction := s.rowFraction,
    thirds := s.rowThirds, minimum := minimumPaneSize.height }

def rectangles (mode : RemoteLayoutMode) (size : Size) (gap : ℚ) : List Rect :=
  (List.range mode.capacity).map fun i =>
    let column := i % mode.columns
    let row := i / mode.columns
    { left := (s.columns mode size gap).start column
      top := (s.rows mode size gap).start row
      width := (s.columns mode size gap).size column
      height := (s.rows mode size gap).size row }

end Sizes

def paneRects (m : RemoteLayoutModel Sizes) (size : Size) : List Rect :=
  m.sizes.rectangles m.mode size splitGap

end RemoteLayoutModel

end Desktop

end MDesk
