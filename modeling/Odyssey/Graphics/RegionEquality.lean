import Odyssey.Graphics.RegionAlgebra

namespace Odyssey.Graphics

open Containers Shape List

variable {a b region : Region} {s t : Set IntPoint} {rows rows' : Rows}

theorem Rows.WellFormed.unique (first : rows.WellFormed) (second : rows'.WellFormed) (same : rows.points = rows'.points) :
    rows = rows' := by
  apply steps_unique first.increasing second.increasing first.changing second.changing
  intro y
  apply toggles_unique (valueAt_rows Pairwise.nil first.ordered y) (valueAt_rows Pairwise.nil second.ordered y)
  intro x
  exact Bool.eq_iff_iff.mpr (Set.ext_iff.mp same ⟨x, y⟩)

def Region.equals (a b : Region) : Bool :=
  a.bounds == b.bounds && (a.shape.spans == b.shape.spans && a.shape.segments == b.shape.segments)

theorem Represents.spansContain (represents : Represents region rows) (point : IntPoint) :
    Region.spansContain region.shape point region.shape.spans = rows.contains point := by
  rw [represents.shape]
  have scanned := represents.wellFormed.scanned
  exact spansContain_eq scanned.reads scanned.increasing scanned.ended scanned.segments point

/-- A set of points has one shape, however it was put together, so the comparison of two regions that have
    points compares their points. -/
theorem region_equality (first : Built a s) (second : Built b t) :
    (a.shape = b.shape ↔ s = t) ∧ (s.Nonempty → (a.equals b = true ↔ s = t)) := by
  obtain ⟨rows, represents, rfl⟩ := first.denotes
  obtain ⟨rows', represents', rfl⟩ := second.denotes
  have shapes : a.shape = b.shape ↔ rows.points = rows'.points := by
    constructor
    · intro same
      ext point
      show rows.contains point = true ↔ rows'.contains point = true
      rw [← represents.spansContain, ← represents'.spansContain, same]
    · intro same
      rw [represents.shape, represents'.shape, represents.wellFormed.unique represents'.wellFormed same]
  refine ⟨shapes, ?_⟩
  intro filled
  simp only [Region.equals, Bool.and_eq_true, beq_iff_eq]
  rw [← shapes]
  constructor
  · exact fun same => congrArg₂ Shape.mk same.2.2 same.2.1
  · intro same
    have points := shapes.mp same
    refine ⟨(represents.isBounds filled).unique ?_, congrArg spans same, congrArg segments same⟩
    rw [points]
    exact represents'.isBounds (points ▸ filled)

theorem region_equality_square_united :
    ((Region.ofRect ⟨0, 0, 2, 2⟩).unite (.ofRect ⟨0, 0, 2, 2⟩)).shape = (Region.ofRect ⟨0, 0, 2, 2⟩).shape :=
  have square := Built.rect ⟨0, 0, 2, 2⟩ (by decide) (by decide) (by decide) (by decide)
  (region_equality (square.unite square) square).1.mpr (Set.union_self _)

end Odyssey.Graphics
