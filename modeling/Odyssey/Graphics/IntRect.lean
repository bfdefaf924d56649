import Mathlib.Algebra.Group.Int.Defs
import Mathlib.Data.Int.Basic

namespace Odyssey.Graphics

structure IntPoint where
  x : Int
  y : Int
  deriving DecidableEq, Repr

structure IntSize where
  width : Int
  height : Int
  deriving DecidableEq, Repr

structure IntRect where
  x : Int := 0
  y : Int := 0
  width : Int := 0
  height : Int := 0
  deriving DecidableEq, Repr

namespace IntRect

variable (rect : IntRect)

def maxX : Int := rect.x + rect.width

def maxY : Int := rect.y + rect.height

def isEmpty : Bool := rect.width ≤ 0 || rect.height ≤ 0

def containsPoint (point : IntPoint) : Bool :=
  point.x ≥ rect.x && point.x < rect.maxX && point.y ≥ rect.y && point.y < rect.maxY

def contains (rect other : IntRect) : Bool :=
  rect.x ≤ other.x && rect.maxX ≥ other.maxX && rect.y ≤ other.y && rect.maxY ≥ other.maxY

def intersects (rect other : IntRect) : Bool :=
  !rect.isEmpty && !other.isEmpty && rect.x < other.maxX && other.x < rect.maxX &&
    rect.y < other.maxY && other.y < rect.maxY

def unite (rect other : IntRect) : IntRect :=
  if other.isEmpty then rect
  else if rect.isEmpty then other
  else
    let l := min rect.x other.x
    let t := min rect.y other.y
    let r := max rect.maxX other.maxX
    let b := max rect.maxY other.maxY
    { x := l, y := t, width := r - l, height := b - t }

def move (rect : IntRect) (offset : IntSize) : IntRect :=
  { rect with x := rect.x + offset.width, y := rect.y + offset.height }

variable {rect other : IntRect} {point : IntPoint}

theorem isEmpty_iff : rect.isEmpty = true ↔ rect.width ≤ 0 ∨ rect.height ≤ 0 := by
  simp [isEmpty]

theorem containsPoint_iff : rect.containsPoint point = true ↔
    rect.x ≤ point.x ∧ point.x < rect.maxX ∧ rect.y ≤ point.y ∧ point.y < rect.maxY := by
  simp [containsPoint, and_assoc]

theorem contains_iff : rect.contains other = true ↔
    rect.x ≤ other.x ∧ other.maxX ≤ rect.maxX ∧ rect.y ≤ other.y ∧ other.maxY ≤ rect.maxY := by
  simp [contains, and_assoc]

end IntRect

end Odyssey.Graphics
