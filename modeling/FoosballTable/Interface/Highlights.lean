import FoosballTable.Interface.BreakList
import FoosballTable.Interface.Grid

/-!
# The rectangles over the breaks

`Table::draw` draws a rectangle for every break, which is to cover the cells of its laser. The
expressions for the y axis mix the offsets of the two axes. `highlights_cover_iff` says that every
rectangle covers its cells exactly when the offsets are the same, or there is no break on the y
axis.
-/

namespace FoosballTable.Interface

open Library

/-- An axis of the table. -/
inductive TableAxis where
  | x
  | y
  deriving DecidableEq, Repr

/-- A broken laser. -/
structure Break where
  axis : TableAxis
  laser : Int
  deriving DecidableEq, Repr

/-- The breaks of two lists of words. -/
def breaksOf (xIds yIds : List (BitVec 32)) : List Break :=
  xIds.map (fun id => ⟨.x, id.toInt⟩) ++ yIds.map fun id => ⟨.y, id.toInt⟩

/-- A rectangle lies inside another one. -/
def Rect.Inside (rect border : Rect) : Prop :=
  (border.x1 ≤ rect.x1 ∧ rect.x2 ≤ border.x2) ∧ border.y1 ≤ rect.y1 ∧ rect.y2 ≤ border.y2

/-- A rectangle contains a point. -/
def Rect.Contains (rect : Rect) (point : Int × Int) : Prop :=
  (rect.x1 ≤ point.1 ∧ point.1 ≤ rect.x2) ∧ rect.y1 ≤ point.2 ∧ point.2 ≤ rect.y2

instance (rect : Rect) : DecidablePred rect.Contains :=
  fun _ => inferInstanceAs (Decidable (_ ∧ _))

namespace Break

/-- The number of lasers of the axis. -/
def lasers (dim : TableDim) (seen : Break) : Int :=
  match seen.axis with
  | .x => dim.laserX
  | .y => dim.laserY

/-- The rectangle that is drawn. -/
def rect (dim : TableDim) (seen : Break) : Rect :=
  match seen.axis with
  | .x => xRect dim seen.laser
  | .y => yRect dim seen.laser

/-- The cells of the laser. -/
def cells (dim : TableDim) (seen : Break) : Rect :=
  match seen.axis with
  | .x =>
      { x1 := dim.startX + seen.laser * dim.spacingX
        y1 := dim.startY
        x2 := dim.startX + (seen.laser + 1) * dim.spacingX
        y2 := dim.startY + dim.laserY * dim.spacingY }
  | .y =>
      { x1 := dim.startX
        y1 := dim.startY + seen.laser * dim.spacingY
        x2 := dim.startX + dim.laserX * dim.spacingX
        y2 := dim.startY + (seen.laser + 1) * dim.spacingY }

/-- The point at which the mark of the laser begins. -/
def mark (dim : TableDim) (seen : Break) : Int × Int :=
  match seen.axis with
  | .x => (dim.laserLocX seen.laser, dim.startY + dim.height)
  | .y => (dim.startX + dim.length, dim.laserLocY seen.laser)

end Break

/-- What is claimed of the rectangle for a break. It spans the cells of its laser, lies inside the
border of the table, has its corners in order, and of the marks of its axis it contains exactly
its own. -/
structure Covers (dim : TableDim) (seen : Break) (rect : Rect) : Prop where
  spans : rect = seen.cells dim
  inside : rect.Inside (outline dim)
  ordered : rect.x1 ≤ rect.x2 ∧ rect.y1 ≤ rect.y2
  marks : ∀ laser, 0 ≤ laser → laser < seen.lasers dim →
    (rect.Contains (Break.mark dim { seen with laser := laser }) ↔ laser = seen.laser)

/-! ## One axis -/

section OneAxis

variable (start : Int) {spacing lasers laser : Int}

/-- The cells of a laser lie between the first line and the last one. -/
theorem cell_inside (hspacing : 0 ≤ spacing) (hlaser : 0 ≤ laser) (hlt : laser < lasers) :
    start ≤ start + laser * spacing ∧
      start + laser * spacing ≤ start + (laser + 1) * spacing ∧
      start + (laser + 1) * spacing ≤ start + lasers * spacing := by
  have hfirst : 0 ≤ laser * spacing := Int.mul_nonneg hlaser hspacing
  have hlast : (laser + 1) * spacing ≤ lasers * spacing :=
    Int.mul_le_mul_of_nonneg_right hlt hspacing
  rw [Int.add_mul, Int.one_mul] at hlast ⊢
  omega

/-- The cells of a laser contain the mark of no other laser. -/
theorem mark_in_cell_iff (hspacing : 2 ≤ spacing) (other : Int) :
    (start + laser * spacing ≤ start + other * spacing + spacing.tdiv 2 ∧
      start + other * spacing + spacing.tdiv 2 ≤ start + (laser + 1) * spacing) ↔
      other = laser := by
  rw [Int.tdiv_eq_ediv_of_nonneg (by omega)]
  constructor
  · intro hbetween
    obtain ⟨hlower, hupper⟩ := hbetween
    -- a mark of an earlier laser is before the cells, and one of a later laser is after them
    rcases Int.lt_trichotomy other laser with hlt | heq | hlt
    · have hle : (other + 1) * spacing ≤ laser * spacing :=
        Int.mul_le_mul_of_nonneg_right hlt (by omega)
      rw [Int.add_mul, Int.one_mul] at hle
      omega
    · exact heq
    · have hle : (laser + 1) * spacing ≤ other * spacing :=
        Int.mul_le_mul_of_nonneg_right hlt (by omega)
      omega
  · rintro rfl
    rw [Int.add_mul, Int.one_mul]
    omega

end OneAxis

/-! ## The rectangles -/

section Rectangles

variable {dim : TableDim}

/-- The cells of a laser of the table are covered by themselves. -/
theorem covers_cells (hx : 2 ≤ dim.spacingX) (hy : 2 ≤ dim.spacingY) (hxLasers : 0 < dim.laserX)
    (hyLasers : 0 < dim.laserY) {seen : Break} (hseen : 0 ≤ seen.laser)
    (hlt : seen.laser < seen.lasers dim) : Covers dim seen (seen.cells dim) := by
  have hlength : 0 ≤ dim.laserX * dim.spacingX := Int.mul_nonneg (by omega) (by omega)
  have hheight : 0 ≤ dim.laserY * dim.spacingY := Int.mul_nonneg (by omega) (by omega)
  obtain ⟨axis, laser⟩ := seen
  cases axis with
  | x =>
      have hspacing : 0 ≤ dim.spacingX := by omega
      obtain ⟨hfirst, hordered, hlast⟩ := cell_inside dim.startX hspacing hseen hlt
      refine ⟨rfl, ⟨⟨hfirst, hlast⟩, Int.le_refl _, Int.le_refl _⟩, ⟨hordered, ?_⟩, ?_⟩
      · show dim.startY ≤ dim.startY + dim.laserY * dim.spacingY
        omega
      · intro other _ _
        refine (and_iff_left ?_).trans (mark_in_cell_iff _ hx other)
        exact ⟨by show dim.startY ≤ dim.startY + dim.height; unfold TableDim.height; omega,
          Int.le_refl _⟩
  | y =>
      have hspacing : 0 ≤ dim.spacingY := by omega
      obtain ⟨hfirst, hordered, hlast⟩ := cell_inside dim.startY hspacing hseen hlt
      refine ⟨rfl, ⟨⟨Int.le_refl _, Int.le_refl _⟩, hfirst, hlast⟩, ⟨?_, hordered⟩, ?_⟩
      · show dim.startX ≤ dim.startX + dim.laserX * dim.spacingX
        omega
      · intro other _ _
        refine (and_iff_right ?_).trans (mark_in_cell_iff _ hy other)
        exact ⟨by show dim.startX ≤ dim.startX + dim.length; unfold TableDim.length; omega,
          Int.le_refl _⟩

/-- The rectangle for a break is that of the cells on the x axis, and on the y axis when the
offsets of the axes are the same. -/
theorem rect_eq_cells_iff (seen : Break) :
    seen.rect dim = seen.cells dim ↔ seen.axis = .x ∨ dim.startX = dim.startY := by
  obtain ⟨axis, laser⟩ := seen
  cases axis with
  | x =>
      refine iff_of_true ?_ (.inl rfl)
      simp only [Break.rect, Break.cells, xRect, Rect.mk.injEq, Int.add_mul, Int.one_mul, true_and,
        and_true]
      omega
  | y =>
      simp only [Break.rect, Break.cells, yRect, Rect.mk.injEq, Int.add_mul, Int.one_mul]
      constructor
      · intro hsame
        exact .inr hsame.1.symm
      · intro hsame
        have hstart := hsame.resolve_left (by decide)
        refine ⟨hstart.symm, ?_, ?_, ?_⟩ <;> omega

/-- The rectangle for a laser of the table covers its cells exactly when it is that of the
cells. -/
theorem covers_rect_iff (hx : 2 ≤ dim.spacingX) (hy : 2 ≤ dim.spacingY)
    (hxLasers : 0 < dim.laserX) (hyLasers : 0 < dim.laserY) {seen : Break}
    (hseen : 0 ≤ seen.laser) (hlt : seen.laser < seen.lasers dim) :
    Covers dim seen (seen.rect dim) ↔ seen.axis = .x ∨ dim.startX = dim.startY := by
  rw [← rect_eq_cells_iff]
  constructor
  · exact fun hcovers => hcovers.spans
  · intro hcells
    rw [hcells]
    exact covers_cells hx hy hxLasers hyLasers hseen hlt

end Rectangles

/-! ## The draw -/

section Draw

variable {xLasers yLasers : Nat} {dim : TableDim} {xShared : Vector (BitVec 32) (xLasers + 1)}
  {yShared : Vector (BitVec 32) (yLasers + 1)} {table : Table xLasers yLasers}
  {xIds yIds : List (BitVec 32)}

/-- A draw whose arrays hold two lists of breaks draws a rectangle for each of them. -/
theorem draw_rects (hx : Terminated (-1) (table.draw dim xShared yShared).1.xBreaks xIds)
    (hy : Terminated (-1) (table.draw dim xShared yShared).1.yBreaks yIds)
    (hxIds : -1 ∉ xIds) (hyIds : -1 ∉ yIds) :
    (table.draw dim xShared yShared).2.value =
      some ((breaksOf xIds yIds).map (Break.rect dim)) := by
  have hxAgrees := (agrees_iff_prefix_holds (xRect dim) _ 0 hxIds).mpr hx
  have hyAgrees := (agrees_iff_prefix_holds (yRect dim) _ 0 hyIds).mpr hy
  have hdraw := draw_of_agrees dim hxAgrees hyAgrees
  rw [hdraw, breaksOf, List.map_append, List.map_map, List.map_map]
  rfl

/-- The rectangles for breaks of lasers of the table cover their cells exactly when all breaks are
on the x axis or the offsets of the axes are the same. -/
theorem rects_cover_iff (hxSpacing : 2 ≤ dim.spacingX) (hySpacing : 2 ≤ dim.spacingY)
    (hxLasers : 0 < dim.laserX) (hyLasers : 0 < dim.laserY) {breaks : List Break}
    (hids : ∀ seen ∈ breaks, 0 ≤ seen.laser ∧ seen.laser < seen.lasers dim) :
    List.Forall₂ (Covers dim) breaks (breaks.map (Break.rect dim)) ↔
      ∀ seen ∈ breaks, seen.axis = .x ∨ dim.startX = dim.startY := by
  rw [List.forall₂_map_right_iff, List.forall₂_same]
  refine forall₂_congr fun seen hseen => ?_
  obtain ⟨hnonneg, hlt⟩ := hids seen hseen
  exact covers_rect_iff hxSpacing hySpacing hxLasers hyLasers hnonneg hlt

/-- All breaks of two lists are on the x axis when there is none in the second one. -/
theorem all_x_or_iff (xIds yIds : List (BitVec 32)) (p : Prop) :
    (∀ seen ∈ breaksOf xIds yIds, seen.axis = .x ∨ p) ↔ p ∨ yIds = [] := by
  constructor
  · intro hall
    cases yIds with
    | nil => exact .inr rfl
    | cons id rest =>
        have hmem : ⟨.y, id.toInt⟩ ∈ breaksOf xIds (id :: rest) :=
          List.mem_append_right _ List.mem_cons_self
        exact .inl ((hall _ hmem).resolve_left fun haxis => by cases haxis)
  · intro hcondition seen hseen
    rcases hcondition with hp | rfl
    · exact .inr hp
    · simp only [breaksOf, List.map_nil, List.append_nil, List.mem_map] at hseen
      obtain ⟨id, -, rfl⟩ := hseen
      exact .inl rfl

/-- The id of a break of the table is not the sentinel. -/
theorem sentinel_not_mem {ids : List (BitVec 32)} (hids : ∀ id ∈ ids, 0 ≤ id.toInt) :
    -1 ∉ ids := by
  intro hmem
  have hnonneg := hids (-1) hmem
  rw [(to_int_eq_neg_one (-1)).mpr rfl] at hnonneg
  omega

/-- Every rectangle drawn covers the cells of its break exactly when the offsets of the two axes
are the same or there is no break on the y axis. -/
theorem highlights_cover_iff (hxSpacing : 2 ≤ dim.spacingX) (hySpacing : 2 ≤ dim.spacingY)
    (hxLasers : 0 < dim.laserX) (hyLasers : 0 < dim.laserY)
    (hx : Terminated (-1) (table.draw dim xShared yShared).1.xBreaks xIds)
    (hy : Terminated (-1) (table.draw dim xShared yShared).1.yBreaks yIds)
    (hids : ∀ seen ∈ breaksOf xIds yIds, 0 ≤ seen.laser ∧ seen.laser < seen.lasers dim) :
    (∃ rects, (table.draw dim xShared yShared).2.value = some rects ∧
        List.Forall₂ (Covers dim) (breaksOf xIds yIds) rects) ↔
      dim.startX = dim.startY ∨ yIds = [] := by
  have hxNonneg : ∀ id ∈ xIds, 0 ≤ id.toInt := fun id hid =>
    (hids ⟨.x, id.toInt⟩ (List.mem_append_left _ (List.mem_map_of_mem hid))).1
  have hyNonneg : ∀ id ∈ yIds, 0 ≤ id.toInt := fun id hid =>
    (hids ⟨.y, id.toInt⟩ (List.mem_append_right _ (List.mem_map_of_mem hid))).1
  rw [draw_rects hx hy (sentinel_not_mem hxNonneg) (sentinel_not_mem hyNonneg), ← all_x_or_iff,
    ← rects_cover_iff hxSpacing hySpacing hxLasers hyLasers hids]
  simp only [Option.some.injEq, exists_eq_left']

/-- On a table that is farther from the left than from the top, the rectangle for the first y laser
begins to the left of the table. -/
theorem shifted_highlight_misplaced :
    let dim : TableDim := ⟨40, 30, 16, 12, 58, 43, 10⟩
    let drawn := (Table.mk #v[0, 0, 0, 0] #v[0, 0, 0, 0] : Table 3 3).draw dim #v[-1, 0, 0, 0]
      #v[0, -1, 0, 0]
    (Terminated (-1) drawn.1.xBreaks [] ∧ Terminated (-1) drawn.1.yBreaks [0] ∧
        drawn.2.value = some [⟨30, 40, 958, 42⟩]) ∧
      ¬ ∃ rects, drawn.2.value = some rects ∧
        List.Forall₂ (Covers dim) (breaksOf [] [0]) rects := by
  intro dim drawn
  have hvalue : drawn.2.value = some [⟨30, 40, 958, 42⟩] := by decide
  refine ⟨⟨by decide, by decide, hvalue⟩, ?_⟩
  intro hcovered
  obtain ⟨rects, hrects, hcovers⟩ := hcovered
  rw [hvalue] at hrects
  obtain rfl := Option.some.inj hrects
  obtain ⟨hfirst, -⟩ := List.forall₂_cons.mp hcovers
  exact absurd hfirst.spans (by decide)

/-- On the default table, the rectangles for an x laser and a y laser cover their cells. -/
theorem default_highlights_cover :
    ∃ rects, ((Table.mk #v[0, 0, 0, 0] #v[0, 0, 0, 0] : Table 3 3).draw .default #v[2, -1, 0, 0]
        #v[1, -1, 0, 0]).2.value = some rects ∧
      List.Forall₂ (Covers .default) (breaksOf [2] [1]) rects :=
  (highlights_cover_iff (by decide) (by decide) (by decide) (by decide) (by decide) (by decide)
    (by decide)).mpr (.inl rfl)

end Draw

end FoosballTable.Interface
