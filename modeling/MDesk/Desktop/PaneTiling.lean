import MDesk.Desktop.PaneSizes

/-!
# The panes tile the workspace

The tracks of each direction fill the workspace with a gap between each and the next, which is the
gap of the split wherever there is room for it. Moving a divider moves the boundary it belongs to,
as far as the smallest sizes of its two tracks allow, and no other.
-/

namespace MDesk

open Core

namespace Desktop

/-- Two rectangles do not overlap. -/
def Rect.Apart (r r' : Rect) : Prop :=
  r.left + r.width ≤ r'.left ∨ r'.left + r'.width ≤ r.left ∨
    r.top + r.height ≤ r'.top ∨ r'.top + r'.height ≤ r.top

/-- A place is in a rectangle. -/
def Rect.Contains (r : Rect) (x y : ℚ) : Prop :=
  r.left ≤ x ∧ x ≤ r.left + r.width ∧ r.top ≤ y ∧ y ≤ r.top + r.height

namespace RemoteLayoutModel

theorem firstExtent_mem (available fraction minimum : ℚ) :
    min minimum (available / 2) ≤ firstExtent available fraction minimum ∧
      firstExtent available fraction minimum ≤ available - min minimum (available / 2) := by
  have hhalf : min minimum (available / 2) ≤ available / 2 := min_le_right _ _
  exact ⟨le_clamp, clamp_le (by linarith)⟩

namespace Axis

/-- An axis of one, two or three tracks with room for them. -/
structure Lawful (a : Axis) : Prop where
  count : a.count = 1 ∨ a.count = 2 ∨ a.count = 3
  extent : 0 ≤ a.extent
  gap : 0 ≤ a.gap
  minimum : 0 ≤ a.minimum

/-- The smallest size of a track. -/
def limit (a : Axis) : ℚ := min a.minimum (a.available / a.count)

variable {a : Axis} {i : Nat}

theorem available_nonneg (a : Axis) : 0 ≤ a.available := le_max_left _ _

theorem limit_nonneg (h : a.Lawful) : 0 ≤ a.limit :=
  le_min h.minimum (div_nonneg a.available_nonneg (Nat.cast_nonneg _))

theorem gapSize_nonneg (h : a.Lawful) : 0 ≤ a.gapSize := by
  unfold gapSize
  split_ifs
  · exact le_min h.gap (div_nonneg h.extent (Nat.cast_nonneg _))
  · exact le_refl _

/-- Wherever there is room for the gaps, they have their full size. -/
theorem gapSize_eq (hcount : 1 < a.count) (hroom : a.gap * (a.count - 1 : Nat) ≤ a.extent) :
    a.gapSize = a.gap := by
  have hpos : (0 : ℚ) < (a.count - 1 : Nat) := by
    rw [Nat.cast_pos]
    omega
  rw [gapSize, if_pos hcount, min_eq_left]
  rw [le_div_iff₀ hpos]
  exact hroom

theorem gaps_le (h : a.Lawful) : a.gapSize * (a.count - 1 : Nat) ≤ a.extent := by
  unfold gapSize
  split_ifs with hcount
  · have hpos : (0 : ℚ) < (a.count - 1 : Nat) := by
      rw [Nat.cast_pos]
      omega
    rw [← le_div_iff₀ hpos]
    exact min_le_right _ _
  · rw [zero_mul]
    exact h.extent

theorem available_add_gaps (h : a.Lawful) :
    a.available + a.gapSize * (a.count - 1 : Nat) = a.extent := by
  have hgaps := gaps_le h
  rw [available, max_eq_right (by linarith)]
  linarith

/-- The sizes of the tracks fill what is available, none of them below the limit. -/
theorem extents_spec (h : a.Lawful) : a.extents.length = a.count ∧ a.extents.sum = a.available ∧
    ∀ s ∈ a.extents, a.limit ≤ s := by
  rcases h.count with hcount | hcount | hcount
  · rw [extents, if_pos hcount, limit, hcount]
    refine ⟨rfl, List.sum_singleton, fun s hs => ?_⟩
    rw [List.mem_singleton.mp hs, Nat.cast_one, div_one]
    exact min_le_right _ _
  · rw [extents, if_neg (by omega), if_neg (by omega), limit, hcount]
    obtain ⟨hlow, hhigh⟩ := firstExtent_mem a.available a.fraction a.minimum
    push_cast
    refine ⟨rfl, ?_, fun s hs => ?_⟩
    · rw [List.sum_cons, List.sum_singleton, add_sub_cancel]
    · rcases List.mem_pair.mp hs with rfl | rfl
      · exact hlow
      · linarith
  · rw [extents, if_neg (by omega), if_pos hcount, limit, hcount]
    obtain ⟨hsum, hlimit⟩ := thirdExtents_spec a.available a.thirds a.minimum
    refine ⟨List.length_ofFn, ?_, fun s hs => ?_⟩
    · rw [List.sum_ofFn, hsum]
    · obtain ⟨i, rfl⟩ := List.mem_ofFn.mp hs
      exact hlimit i

/-- The tracks tile the direction. -/
theorem tiles (h : a.Lawful) : Tiles a.count a.extent a.gapSize a.limit a.start a.size := by
  obtain ⟨hlength, hsum, hlimit⟩ := extents_spec h
  have hcount : 0 < a.count := by
    have := h.count
    omega
  refine tiles_of_sizes hlength hcount (limit_nonneg h) hlimit ?_
  rw [hsum]
  exact available_add_gaps h

theorem size_eq (h : a.Lawful) (hi : i < a.count) : a.size i = a.extents.getD i 0 := by
  obtain ⟨hlength, hsum, hlimit⟩ := extents_spec h
  refine trackSize_eq hlength (limit_nonneg h) hlimit ?_ hi
  rw [hsum]
  exact available_add_gaps h

end Axis

/-- A place is between two tracks. -/
def Axis.InGap (a : Axis) (x : ℚ) : Prop :=
  ∃ i, i + 1 < a.count ∧ a.start i + a.size i < x ∧ x < a.start (i + 1)

/-- Rectangles in the tracks of two directions tile a workspace. -/
structure TileGrid (a b : Axis) (rects : List Rect) : Prop where
  columns : Tiles a.count a.extent a.gapSize a.limit a.start a.size
  rows : Tiles b.count b.extent b.gapSize b.limit b.start b.size
  columnGap : 1 < a.count → a.gap * (a.count - 1 : Nat) ≤ a.extent → a.gapSize = a.gap
  rowGap : 1 < b.count → b.gap * (b.count - 1 : Nat) ≤ b.extent → b.gapSize = b.gap
  length : rects.length = a.count * b.count
  grid : ∀ column < a.count, ∀ row < b.count, rects[row * a.count + column]? =
    some ⟨a.start column, b.start row, a.size column, b.size row⟩
  inside : ∀ r ∈ rects, (0 ≤ r.left ∧ 0 ≤ r.width ∧ r.left + r.width ≤ a.extent) ∧
    0 ≤ r.top ∧ 0 ≤ r.height ∧ r.top + r.height ≤ b.extent
  apart : rects.Pairwise Rect.Apart
  cover : ∀ x y, 0 ≤ x → x ≤ a.extent → 0 ≤ y → y ≤ b.extent →
    (∃ r ∈ rects, r.Contains x y) ∨ a.InGap x ∨ b.InGap y

/-- The rectangles of two directions, row by row. -/
def grid (a b : Axis) : List Rect :=
  (List.range (a.count * b.count)).map fun i =>
    ⟨a.start (i % a.count), b.start (i / a.count), a.size (i % a.count), b.size (i / a.count)⟩

theorem tileGrid {a b : Axis} (ha : a.Lawful) (hb : b.Lawful) : TileGrid a b (grid a b) := by
  have hcolumns := Axis.tiles ha
  have hrows := Axis.tiles hb
  have hgapX := Axis.gapSize_nonneg ha
  have hgapY := Axis.gapSize_nonneg hb
  have hlimitX := Axis.limit_nonneg ha
  have hlimitY := Axis.limit_nonneg hb
  have hcolumn (i : Nat) : i % a.count < a.count := Nat.mod_lt i hcolumns.pos
  have hrow {i : Nat} (hi : i < a.count * b.count) : i / a.count < b.count :=
    Nat.div_lt_of_lt_mul hi
  have hget {column row : Nat} (hc : column < a.count) (hr : row < b.count) :
      (grid a b)[row * a.count + column]? =
        some ⟨a.start column, b.start row, a.size column, b.size row⟩ := by
    have hlt : row * a.count + column < a.count * b.count := by
      have hle : (row + 1) * a.count ≤ b.count * a.count := Nat.mul_le_mul_right _ hr
      rw [Nat.mul_comm a.count]
      linarith
    have hmod : (row * a.count + column) % a.count = column := by
      rw [Nat.mul_comm, Nat.mul_add_mod, Nat.mod_eq_of_lt hc]
    have hdiv : (row * a.count + column) / a.count = row := by
      rw [Nat.mul_comm, Nat.mul_add_div hcolumns.pos, Nat.div_eq_of_lt hc, Nat.add_zero]
    rw [grid, List.getElem?_map, List.getElem?_range hlt, Option.map_some, hmod, hdiv]
  refine ⟨hcolumns, hrows, Axis.gapSize_eq, Axis.gapSize_eq,
    by rw [grid, List.length_map, List.length_range], ?_, ?_, ?_, ?_⟩
  · exact fun column hc row hr => hget hc hr
  · intro r hr
    obtain ⟨i, hi, rfl⟩ := List.mem_map.mp hr
    rw [List.mem_range] at hi
    have hwidth := hcolumns.limit_le _ (hcolumn i)
    have hheight := hrows.limit_le _ (hrow hi)
    exact ⟨⟨hcolumns.start_nonneg hgapX hlimitX (hcolumn i), hlimitX.trans hwidth,
      hcolumns.end_le hgapX hlimitX (hcolumn i)⟩,
      hrows.start_nonneg hgapY hlimitY (hrow hi), hlimitY.trans hheight,
      hrows.end_le hgapY hlimitY (hrow hi)⟩
  · rw [grid, List.pairwise_map]
    refine List.Pairwise.imp_of_mem (fun {i j} hi hj hlt => ?_) List.pairwise_lt_range
    rw [List.mem_range] at hi hj
    -- two panes of one row are in different columns
    rcases Nat.lt_or_ge (i / a.count) (j / a.count) with hrows' | hrows'
    · have hstart := hrows.start_le hgapY hlimitY hrows' (hrow hj)
      exact .inr (.inr (.inl (by linarith)))
    · have hcolumns' : i % a.count < j % a.count := by
        have hle : i / a.count ≤ j / a.count := Nat.div_le_div_right (Nat.le_of_lt hlt)
        have hi' := Nat.div_add_mod i a.count
        have hj' := Nat.div_add_mod j a.count
        rw [Nat.le_antisymm hle hrows'] at hi'
        omega
      have hstart := hcolumns.start_le hgapX hlimitX hcolumns' (hcolumn j)
      exact .inl (by linarith)
  · intro x y hx hx' hy hy'
    rcases hcolumns.cover hx hx' with ⟨column, hc, hleft, hright⟩ | hgap
    · rcases hrows.cover hy hy' with ⟨row, hr, htop, hbottom⟩ | hgap
      · exact .inl ⟨_, List.mem_of_getElem? (hget hc hr), hleft, hright, htop, hbottom⟩
      · exact .inr (.inr hgap)
    · exact .inr (.inl hgap)

theorem columns_cases (mode : RemoteLayoutMode) :
    mode.columns = 1 ∨ mode.columns = 2 ∨ mode.columns = 3 := by cases mode <;> decide

theorem rows_cases (mode : RemoteLayoutMode) :
    mode.rows = 1 ∨ mode.rows = 2 ∨ mode.rows = 3 := by cases mode <;> decide

theorem columns_minimum (s : Sizes) (mode : RemoteLayoutMode) (size : Size) (gap : ℚ) :
    0 < (s.columns mode size gap).minimum := by
  norm_num [Sizes.columns, minimumPaneSize]

theorem rows_minimum (s : Sizes) (mode : RemoteLayoutMode) (size : Size) (gap : ℚ) :
    0 < (s.rows mode size gap).minimum := by
  norm_num [Sizes.rows, minimumPaneSize]

theorem columns_lawful (s : Sizes) (mode : RemoteLayoutMode) {size : Size} {gap : ℚ}
    (hwidth : 0 ≤ size.width) (hgap : 0 ≤ gap) : (s.columns mode size gap).Lawful where
  count := columns_cases mode
  extent := hwidth
  gap := hgap
  minimum := (columns_minimum s mode size gap).le

theorem rows_lawful (s : Sizes) (mode : RemoteLayoutMode) {size : Size} {gap : ℚ}
    (hheight : 0 ≤ size.height) (hgap : 0 ≤ gap) : (s.rows mode size gap).Lawful where
  count := rows_cases mode
  extent := hheight
  gap := hgap
  minimum := (rows_minimum s mode size gap).le

/-! ## Moving a divider -/

namespace Axis

/-- The axis with a divider of it moved to a position. -/
def drag (a : Axis) (hminimum : 0 < a.minimum) (divider : Int) (position : Option ℚ) : Axis :=
  match position with
  | none => a
  | some position =>
    { a with
      fraction :=
        if a.count = 2 then resizeFraction position a.extent a.minimum a.fraction else a.fraction
      thirds :=
        if a.count = 3 then resizeThirds a.thirds a.extent a.minimum hminimum divider position
        else a.thirds }

/-- The boundary behind a track is the one of a divider. The divider of two tracks has no number. -/
def Drags (a : Axis) (divider : Int) (i : Nat) : Prop := a.count = 2 ∨ (i : Int) = divider

instance (a : Axis) (divider : Int) (i : Nat) : Decidable (a.Drags divider i) :=
  inferInstanceAs (Decidable (_ ∨ _))

/-- The boundary behind a track. -/
def boundary (a : Axis) (i : Nat) : ℚ := a.start i + a.size i

/-- A boundary at a position of the middle of the gap, as far as the smallest sizes of the tracks
before and behind it allow. -/
def clamped (a : Axis) (i : Nat) (position : ℚ) : ℚ :=
  a.start i + clamp (position - a.start i - a.gapSize / 2) a.limit
    (a.size i + a.size (i + 1) - a.limit)

variable {a : Axis} {i : Nat} {hminimum : 0 < a.minimum} {divider : Int} {position : ℚ}

theorem start_zero (a : Axis) : a.start 0 = 0 := by simp [start, trackStart]

theorem start_one (h : a.Lawful) (hcount : 1 < a.count) : a.start 1 = a.size 0 + a.gapSize := by
  rw [(tiles h).next 0 hcount, start_zero, zero_add]

/-- The drag leaves what the tracks share. -/
theorem drag_lawful (h : a.Lawful) (hminimum : 0 < a.minimum) (divider : Int)
    (position : Option ℚ) : (a.drag hminimum divider position).Lawful := by
  cases position <;> exact ⟨h.count, h.extent, h.gap, h.minimum⟩

section Two

variable (h : a.Lawful) (hcount : a.count = 2)
include h hcount

theorem two_size : a.size 0 = firstExtent a.available a.fraction a.minimum ∧
    a.size 0 + a.size 1 = a.available := by
  rw [size_eq h (by omega), size_eq h (by omega), extents, if_neg (by omega), if_neg (by omega)]
  exact ⟨rfl, add_sub_cancel _ _⟩

theorem two_clamped : a.clamped 0 position =
    clamp (position - a.gapSize / 2) a.limit (a.available - a.limit) := by
  rw [clamped, start_zero, zero_add, zero_add, (two_size h hcount).2, sub_zero]

omit h in
theorem two_gapSize : a.gapSize = min a.gap a.extent := by
  rw [gapSize, if_pos (by omega), hcount]
  norm_num

/-- The fraction that is stored gives the boundary back. -/
theorem two_drag (hgap : a.gap = splitGap) :
    firstExtent a.available (resizeFraction position a.extent a.minimum a.fraction) a.minimum =
      a.clamped 0 position := by
  have hlimit : a.limit = min a.minimum (a.available / 2) := by rw [limit, hcount]; norm_cast
  have hsum := available_add_gaps h
  have hsize := two_gapSize hcount
  rw [hcount] at hsum
  norm_num at hsum
  rw [two_clamped h hcount, resizeFraction]
  split_ifs with hroom
  · -- there is no room for the tracks
    have hnone : a.available = 0 := by
      rw [hgap, min_eq_right (by linarith)] at hsize
      linarith
    have hzero : a.limit = 0 := by rw [hlimit, hnone, zero_div, min_eq_right h.minimum]
    rw [hzero, hnone, sub_zero, clamp_self, firstExtent, zero_div, min_eq_right h.minimum, sub_zero,
      clamp_self]
  · have hgapSize : a.gapSize = splitGap := by
      rw [hsize, hgap, min_eq_left (by linarith)]
    have havailable : a.extent - splitGap = a.available := by linarith
    have hne : a.available ≠ 0 := by linarith
    obtain ⟨hlow, hhigh⟩ := firstExtent_mem a.available
      ((position - splitGap / 2) / a.available) a.minimum
    have hfirst : firstExtent a.available ((position - splitGap / 2) / a.available) a.minimum =
        clamp (position - a.gapSize / 2) a.limit (a.available - a.limit) := by
      rw [firstExtent, hlimit, mul_div_cancel₀ _ hne, hgapSize]
    rw [havailable, firstExtent, mul_div_cancel₀ _ hne, clamp_of_mem hlow hhigh, hfirst]

end Two

section Three

variable (h : a.Lawful) (hcount : a.count = 3)
include h hcount

theorem three_size (i : Fin 3) :
    a.size i = thirdExtents a.available a.thirds.weights a.minimum i := by
  rw [size_eq h (by omega), extents, if_neg (by omega), if_pos hcount,
    List.getD_eq_getElem _ _ (by rw [List.length_ofFn]; exact i.isLt), List.getElem_ofFn]

omit h in
theorem three_limit : a.limit = min a.minimum (a.available / 3) := by
  rw [limit, hcount]
  norm_cast

/-- Without room for more than the smallest sizes every track has the limit. -/
theorem three_of_le (hroom : a.available ≤ 3 * a.minimum) (i : Fin 3) : a.size i = a.limit := by
  obtain ⟨hsum, hlimit⟩ := thirdExtents_spec a.available a.thirds a.minimum
  rw [min_eq_right (by linarith)] at hlimit
  rw [Fin.sum_univ_three] at hsum
  rw [three_size h hcount, three_limit hcount, min_eq_right (by linarith)]
  have h₀ := hlimit 0
  have h₁ := hlimit 1
  have h₂ := hlimit 2
  match i with
  | 0 | 1 | 2 => linarith

omit h in
theorem three_gapSize : a.gapSize = min a.gap (a.extent / 2) := by
  rw [gapSize, if_pos (by omega), hcount]
  norm_num

omit h hcount in
/-- Where there is room, the shares that a divider leaves are the sizes themselves. -/
theorem three_drag (hminimum : 0 < a.minimum) (hroom : ¬ a.available ≤ 3 * a.minimum)
    (hextent : a.extent - 2 * splitGap = a.available) (position : ℚ) (hdivider : 0 ≤ divider)
    (hdivider' : divider ≤ 1) (i : Fin 3) :
    thirdExtents a.available
      (resizeThirds a.thirds a.extent a.minimum hminimum divider position).weights a.minimum i =
      dragged (thirdExtents a.available a.thirds.weights a.minimum) a.minimum
        (if divider = 0 then 0 else 1) position i := by
  have hpos : a.available ≠ 0 := by linarith
  have hsizes := minimum_le_thirdExtents hroom a.thirds
  have hleft := le_dragged hsizes (if divider = 0 then 0 else 1) position
  unfold resizeThirds
  simp only [hextent, dif_neg hroom]
  rw [if_neg (by omega), thirdExtents_of_le]
  · exact mul_div_cancel₀ _ hpos
  · intro i
    have hcancel : a.available * (dragged (thirdExtents a.available a.thirds.weights a.minimum)
        a.minimum (if divider = 0 then 0 else 1) position i / a.available) =
        dragged (thirdExtents a.available a.thirds.weights a.minimum) a.minimum
          (if divider = 0 then 0 else 1) position i := mul_div_cancel₀ _ hpos
    exact (min_le_left _ _).trans ((hleft i).trans_eq hcancel.symm)

/-- The boundaries of three tracks. -/
theorem three_boundaries : a.boundary 0 = a.size 0 ∧
    a.boundary 1 = a.size 0 + a.gapSize + a.size 1 := by
  rw [boundary, boundary, start_zero, start_one h (by omega), zero_add]
  exact ⟨rfl, rfl⟩

/-- Three tracks of the same sizes and gaps have the same boundaries. -/
theorem boundary_congr {b : Axis} (hb : b.Lawful) (hcountB : b.count = 3)
    (hsize : ∀ i : Fin 3, b.size i = a.size i) (hgap : b.gapSize = a.gapSize) (hi : i < 2) :
    b.boundary i = a.boundary i := by
  have hfirst := three_boundaries h hcount
  have hsecond := three_boundaries hb hcountB
  have h₀ : b.size 0 = a.size 0 := hsize 0
  have h₁ : b.size 1 = a.size 1 := hsize 1
  match i with
  | 0 => rw [hfirst.1, hsecond.1, h₀]
  | 1 => rw [hfirst.2, hsecond.2, h₀, h₁, hgap]

omit h in
/-- The sizes of three tracks of which a divider has been moved. -/
theorem size_drag (hlawful : (a.drag hminimum divider (some position)).Lawful) (i : Fin 3) :
    (a.drag hminimum divider (some position)).size i =
      thirdExtents a.available
        (resizeThirds a.thirds a.extent a.minimum hminimum divider position).weights
        a.minimum i := by
  rw [three_size hlawful hcount]
  simp only [drag, if_pos hcount]
  rfl

section Room

variable (hroom : ¬ a.extent - 2 * splitGap ≤ 3 * a.minimum) (hgap : a.gap = splitGap)
include hroom hgap

/-- With room for the smallest sizes the gaps have their full size. -/
theorem three_room : a.gapSize = splitGap ∧ a.extent - 2 * splitGap = a.available ∧
    a.limit = a.minimum := by
  have hsum := available_add_gaps h
  have hgapSize : a.gapSize = splitGap := by
    have := h.minimum
    rw [three_gapSize hcount, hgap, min_eq_left (by linarith)]
  rw [hcount, hgapSize] at hsum
  norm_num at hsum
  have hextent : a.extent - 2 * splitGap = a.available := by linarith
  refine ⟨hgapSize, hextent, ?_⟩
  rw [three_limit hcount, min_eq_left (by linarith)]

/-- The first divider moves the boundary of the first two tracks. -/
theorem boundary_first : (a.drag hminimum 0 (some position)).boundary 0 = a.clamped 0 position ∧
    (a.drag hminimum 0 (some position)).boundary 1 = a.boundary 1 := by
  obtain ⟨hgapSize, hextent, hlimit⟩ := three_room h hcount hroom hgap
  have hlawful := drag_lawful h hminimum 0 (some position)
  obtain ⟨hbefore₀, hbefore₁⟩ := three_boundaries h hcount
  obtain ⟨hafter₀, hafter₁⟩ := three_boundaries hlawful hcount
  have hsize (i : Fin 3) := (size_drag hcount hlawful i).trans
    (three_drag hminimum (hextent ▸ hroom) hextent position (le_refl 0) zero_le_one i)
  have h₀ : a.size 0 = thirdExtents a.available a.thirds.weights a.minimum 0 :=
    three_size h hcount 0
  have h₁ : a.size 1 = thirdExtents a.available a.thirds.weights a.minimum 1 :=
    three_size h hcount 1
  have hfirst : (a.drag hminimum 0 (some position)).size 0 =
      clamp (position - 0 - splitGap / 2) a.minimum (a.size 0 + a.size 1 - a.minimum) := by
    rw [h₀, h₁]
    exact hsize 0
  have hsecond : (a.drag hminimum 0 (some position)).size 1 =
      a.size 0 + a.size 1 - (a.drag hminimum 0 (some position)).size 0 := by
    rw [hfirst, h₀, h₁]
    exact hsize 1
  constructor
  · rw [hafter₀, clamped, start_zero, zero_add, hlimit, hgapSize]
    exact hfirst
  · have hgapAfter : (a.drag hminimum 0 (some position)).gapSize = a.gapSize := rfl
    rw [hafter₁, hbefore₁, hgapAfter, hsecond]
    ring

/-- The second divider moves the boundary of the last two tracks. -/
theorem boundary_second : (a.drag hminimum 1 (some position)).boundary 0 = a.boundary 0 ∧
    (a.drag hminimum 1 (some position)).boundary 1 = a.clamped 1 position := by
  obtain ⟨hgapSize, hextent, hlimit⟩ := three_room h hcount hroom hgap
  have hlawful := drag_lawful h hminimum 1 (some position)
  obtain ⟨hbefore₀, hbefore₁⟩ := three_boundaries h hcount
  obtain ⟨hafter₀, hafter₁⟩ := three_boundaries hlawful hcount
  have hsize (i : Fin 3) := (size_drag hcount hlawful i).trans
    (three_drag hminimum (hextent ▸ hroom) hextent position zero_le_one (le_refl 1) i)
  have h₀ : a.size 0 = thirdExtents a.available a.thirds.weights a.minimum 0 :=
    three_size h hcount 0
  have h₁ : a.size 1 = thirdExtents a.available a.thirds.weights a.minimum 1 :=
    three_size h hcount 1
  have h₂ : a.size 2 = thirdExtents a.available a.thirds.weights a.minimum 2 :=
    three_size h hcount 2
  have hfirst : (a.drag hminimum 1 (some position)).size 0 = a.size 0 := by
    rw [h₀]
    exact hsize 0
  have hsecond : (a.drag hminimum 1 (some position)).size 1 =
      clamp (position - (a.size 0 + splitGap) - splitGap / 2) a.minimum
        (a.size 1 + a.size 2 - a.minimum) := by
    rw [h₀, h₁, h₂]
    exact hsize 1
  have hgapAfter : (a.drag hminimum 1 (some position)).gapSize = a.gapSize := rfl
  constructor
  · rw [hafter₀, hbefore₀, hfirst]
  · rw [hafter₁, clamped, start_one h (by omega), hgapAfter, hfirst, hsecond, hlimit, hgapSize]

end Room

/-- A divider of three tracks moves its boundary only. -/
theorem three_boundary (hgap : a.gap = splitGap) (hi : i < 2) :
    (a.drag hminimum divider (some position)).boundary i =
      if (i : Int) = divider then a.clamped i position else a.boundary i := by
  have hlawful := drag_lawful h hminimum divider (some position)
  have hsame (hthirds : resizeThirds a.thirds a.extent a.minimum hminimum divider position =
      a.thirds) : (a.drag hminimum divider (some position)).boundary i = a.boundary i := by
    refine boundary_congr h hcount hlawful hcount (fun i => ?_) rfl hi
    rw [size_drag hcount hlawful, hthirds, three_size h hcount]
  by_cases hroom : a.extent - 2 * splitGap ≤ 3 * a.minimum
  · -- without room there is no other place for the boundary
    have hminimum' : a.available ≤ 3 * a.minimum := by
      have hgapSize := three_gapSize hcount
      have hsum := available_add_gaps h
      rw [hcount] at hsum
      norm_num at hsum
      rw [hgap] at hgapSize
      rcases min_choice splitGap (a.extent / 2) with hmin | hmin
      · rw [hmin] at hgapSize
        linarith
      · rw [hmin] at hgapSize
        linarith
    have hlimit := three_of_le h hcount hminimum'
    have hclamped : a.clamped i position = a.boundary i := by
      have hi₀ : a.size i = a.limit := hlimit ⟨i, by omega⟩
      have hi₁ : a.size (i + 1) = a.limit := hlimit ⟨i + 1, by omega⟩
      rw [clamped, boundary, hi₀, hi₁, add_sub_cancel_right, clamp_self]
    rw [hclamped, ite_self]
    exact hsame (by simp only [resizeThirds, dif_pos hroom])
  · by_cases hdivider : divider < 0 ∨ 1 < divider
    · rw [if_neg (by omega)]
      exact hsame (by simp only [resizeThirds, dif_neg hroom, if_pos hdivider])
    · obtain rfl | rfl : divider = 0 ∨ divider = 1 := by omega
      · match i with
        | 0 => exact (boundary_first h hcount hroom hgap).1
        | 1 => exact (boundary_first h hcount hroom hgap).2
      · match i with
        | 0 => exact (boundary_second h hcount hroom hgap).1
        | 1 => exact (boundary_second h hcount hroom hgap).2

end Three

/-- Moving a divider moves its boundary, as far as the sizes of its tracks allow, and no other. -/
theorem boundary_drag (h : a.Lawful) (hgap : a.gap = splitGap) (hi : i + 1 < a.count) :
    (a.drag hminimum divider (some position)).boundary i =
      if a.Drags divider i then a.clamped i position else a.boundary i := by
  rcases h.count with hcount | hcount | hcount
  · omega
  · obtain rfl : i = 0 := by omega
    have hlawful := drag_lawful h hminimum divider (some position)
    rw [if_pos (.inl hcount), boundary, start_zero, zero_add, (two_size hlawful hcount).1,
      ← two_drag h hcount hgap]
    simp only [drag, if_pos hcount]
    rfl
  · have hdrags : a.Drags divider i ↔ (i : Int) = divider := or_iff_right (by omega)
    simp only [hdrags]
    exact three_boundary h hcount hgap (by omega)

/-- The boundary behind a track once a divider has been moved, if it has. -/
def moved (a : Axis) (divider : Int) (position : Option ℚ) (i : Nat) : ℚ :=
  match position with
  | some position => if a.Drags divider i then a.clamped i position else a.boundary i
  | none => a.boundary i

theorem boundary_moved (h : a.Lawful) (hgap : a.gap = splitGap) (position : Option ℚ)
    (hi : i + 1 < a.count) :
    (a.drag hminimum divider position).boundary i = a.moved divider position i := by
  cases position with
  | none => rfl
  | some position => exact boundary_drag h hgap hi

end Axis

section Resize

variable (s : Sizes) (mode : RemoteLayoutMode) (size : Size) (dividerX dividerY : Option ℚ)
  (columnDivider rowDivider : Int)

theorem columns_resize (hminimum : 0 < (s.columns mode size splitGap).minimum) :
    (s.resize mode size dividerX dividerY columnDivider rowDivider).columns mode size splitGap =
      (s.columns mode size splitGap).drag hminimum columnDivider dividerX := by
  cases dividerX <;> rfl

theorem rows_resize (hminimum : 0 < (s.rows mode size splitGap).minimum) :
    (s.resize mode size dividerX dividerY columnDivider rowDivider).rows mode size splitGap =
      (s.rows mode size splitGap).drag hminimum rowDivider dividerY := by
  cases dividerY <;> rfl

theorem rectangles_eq (gap : ℚ) :
    s.rectangles mode size gap = grid (s.columns mode size gap) (s.rows mode size gap) := rfl

end Resize

/-- The panes tile the workspace in every layout. A resize moves the boundary of each divider that
has a position, as far as the smallest sizes of its two tracks allow, and no other boundary. -/
theorem rectangles_tile (m : RemoteLayoutModel Sizes) (size : Size) (hwidth : 0 ≤ size.width)
    (hheight : 0 ≤ size.height) :
    (∀ gap, 0 ≤ gap → TileGrid (m.sizes.columns m.mode size gap) (m.sizes.rows m.mode size gap)
      (m.sizes.rectangles m.mode size gap)) ∧
    ∀ dividerX dividerY columnDivider rowDivider,
      let resized := (m.resize fun mode =>
        Sizes.resize mode size dividerX dividerY columnDivider rowDivider).sizes
      (∀ i, i + 1 < m.mode.columns →
        (resized.columns m.mode size splitGap).boundary i =
          (m.sizes.columns m.mode size splitGap).moved columnDivider dividerX i) ∧
      ∀ i, i + 1 < m.mode.rows →
        (resized.rows m.mode size splitGap).boundary i =
          (m.sizes.rows m.mode size splitGap).moved rowDivider dividerY i := by
  have hsplitGap : 0 ≤ splitGap := by norm_num [splitGap]
  constructor
  · intro gap hgap
    rw [rectangles_eq]
    exact tileGrid (columns_lawful _ _ hwidth hgap) (rows_lawful _ _ hheight hgap)
  · intro dividerX dividerY columnDivider rowDivider
    constructor
    · intro i hi
      rw [resize, columns_resize _ _ _ _ _ _ _ (columns_minimum _ _ _ _)]
      exact Axis.boundary_moved (columns_lawful _ _ hwidth hsplitGap) rfl dividerX hi
    · intro i hi
      rw [resize, rows_resize _ _ _ _ _ _ _ (rows_minimum _ _ _ _)]
      exact Axis.boundary_moved (rows_lawful _ _ hheight hsplitGap) rfl dividerY hi

/-- Six panes in a window that is too narrow for their smallest sizes. -/
theorem narrow_tiles :
    TileGrid (({} : Sizes).columns .sixWide ⟨300, 180⟩ splitGap)
      (({} : Sizes).rows .sixWide ⟨300, 180⟩ splitGap)
      (({} : Sizes).rectangles .sixWide ⟨300, 180⟩ splitGap) :=
  (rectangles_tile { new ({} : Sizes) with mode := .sixWide } ⟨300, 180⟩ (by norm_num)
    (by norm_num)).1 splitGap (by norm_num [splitGap])

end RemoteLayoutModel

end Desktop

end MDesk
