import FoosballTable.Library.Traced
import FoosballTable.Library.Words

/-!
# The table of the user interface

The part of `Table::draw` of `Table.cpp` that shows the breaks. The table copies the list of each
axis from shared memory into an array of its own and draws a rectangle for each entry before the
first `-1`. Both arrays hold `int`s, but the size of the copy is written for elements of the type
`coord`.
-/

namespace FoosballTable.Interface

open Library

/-- `TableDim`: the dimensions of the table on the screen. -/
structure TableDim where
  startX : Int
  startY : Int
  spacingX : Int
  spacingY : Int
  laserX : Int
  laserY : Int
  markLen : Int
  deriving DecidableEq, Repr

/-- The defaults of the constructor. -/
def TableDim.default : TableDim :=
  ⟨30, 30, 16, 12, 58, 43, 10⟩

/-- The arguments of `drawRect`. -/
structure Rect where
  x1 : Int
  y1 : Int
  x2 : Int
  y2 : Int
  deriving DecidableEq, Repr

/-- The rectangle of a break on the x axis. -/
def xRect (dim : TableDim) (xBreak : Int) : Rect where
  x1 := dim.startX + xBreak * dim.spacingX
  y1 := dim.startY
  x2 := dim.startX + xBreak * dim.spacingX + dim.spacingX
  y2 := dim.startY + dim.laserY * dim.spacingY

/-- The rectangle of a break on the y axis. -/
def yRect (dim : TableDim) (yBreak : Int) : Rect where
  x1 := dim.startY
  y1 := dim.startX + yBreak * dim.spacingY
  x2 := dim.startY + dim.laserX * dim.spacingX
  y2 := dim.startY + yBreak * dim.spacingY + dim.spacingY

/-- A read of an entry of the array of breaks, with the value found there; there is none past the
end of the array. -/
structure Read where
  index : Nat
  value : Option Int
  deriving DecidableEq, Repr

/-- `sizeof(coord)`: a `coord` is a `short`. -/
def sizeofCoord : Nat := 2

/-- The `memcpy` from shared memory into the array of breaks of an axis. -/
def copyBreaks {lasers : Nat} (breaks breakSM : Vector (BitVec 32) (lasers + 1)) :
    Vector (BitVec 32) (lasers + 1) :=
  ⟨(arrayWords (memcpy (sizeofCoord * (lasers + 1)) (arrayBytes breaks.toList)
      (arrayBytes breakSM.toList))).toArray, by
    rw [List.size_toArray, length_array_words_memcpy _ (by simp), Vector.length_toList]⟩

/-- The loop over the breaks of an axis. Its first list is the array from `index` on. -/
def breakLoop (rect : Int → Rect) : List (BitVec 32) → Nat → Traced Read (List Rect)
  | [], index => .fault ⟨index, none⟩
  | entry :: entries, index => do
      let laser ← .access ⟨index, some entry.toInt⟩ entry.toInt
      if laser ≠ -1 then
        let rects ← breakLoop rect entries (index + 1)
        pure (rect laser :: rects)
      else pure []

/-- The arrays of breaks of the table. -/
structure Table (xLasers yLasers : Nat) where
  xBreaks : Vector (BitVec 32) (xLasers + 1)
  yBreaks : Vector (BitVec 32) (yLasers + 1)

/-- `Table::draw`, from the first copy on: the table afterwards, and the rectangles drawn. -/
def Table.draw {xLasers yLasers : Nat} (dim : TableDim)
    (xBreakSM : Vector (BitVec 32) (xLasers + 1)) (yBreakSM : Vector (BitVec 32) (yLasers + 1))
    (table : Table xLasers yLasers) : Table xLasers yLasers × Traced Read (List Rect) :=
  let xBreaks := copyBreaks table.xBreaks xBreakSM
  let yBreaks := copyBreaks table.yBreaks yBreakSM
  (⟨xBreaks, yBreaks⟩, do
    let xRects ← breakLoop (xRect dim) xBreaks.toList 0
    let yRects ← breakLoop (yRect dim) yBreaks.toList 0
    pure (xRects ++ yRects))

end FoosballTable.Interface
