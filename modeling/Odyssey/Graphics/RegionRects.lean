import Odyssey.Graphics.RegionAlgebra

namespace Odyssey.Graphics

open Containers Shape List IntRect

namespace Region

def segmentRects (y height : Int) : List Int → List IntRect
  | x :: maxX :: rest => ⟨x, y, maxX - x, height⟩ :: segmentRects y height rest
  | _ => []

def spanRects (shape : Shape) : List Span → List IntRect
  | span :: next :: rest =>
    segmentRects span.y (next.y - span.y) (shape.segmentsAt (span :: next :: rest)) ++
      spanRects shape (next :: rest)
  | _ => []

def rects (region : Region) : List IntRect := spanRects region.shape region.shape.spans

/-- The number of rectangles that have the point. -/
def timesIn (point : IntPoint) (rects : List IntRect) : Nat := rects.countP (·.containsPoint point)

theorem segmentRects_times {segments : List Int} (known : Segments segments) (y height : Int)
    (point : IntPoint) : timesIn point (segmentRects y height segments) =
      if (y ≤ point.y ∧ point.y < y + height) ∧ covers segments point.x = true then 1 else 0 := by
  induction segments, known using Segments.induction with
  | nil => simp [segmentRects, timesIn, covers_nil]
  | pair low high rest _ less beyond later ih =>
    have covered := covers_pair_iff less beyond later point.x
    rw [segmentRects, timesIn, countP_cons, ← timesIn]
    simp only [containsPoint_iff, maxX, maxY]
    split_ifs <;> grind

theorem spanRects_times {shape : Shape} {spans : List Span} {rows : Rows} (scanned : Scanned shape spans rows)
    (point : IntPoint) : timesIn point (spanRects shape spans) = (rows.contains point).toNat := by
  induction spans generalizing rows with
  | nil =>
    rcases scanned.cases with ⟨_, none⟩ | ⟨_, _, _, _, _, _, ⟨⟩, _⟩
    rw [none]
    rfl
  | cons span spans ih =>
    rcases scanned.cases with ⟨short, none⟩ |
      ⟨_, next, rest, row, row', rows', ⟨⟩, rfl, place, place', less, here, known, later⟩
    · rw [none, length_eq_zero_iff.mp (Nat.le_zero.mp (Nat.le_of_succ_le_succ short))]
      rfl
    rw [spanRects, here, timesIn, countP_append, ← timesIn, ← timesIn, segmentRects_times known, ih later]
    by_cases after : row'.1 ≤ point.y
    · rw [contains_later less after, if_neg (by omega), Nat.zero_add]
    · rw [contains_before after]
      by_cases begun : row.1 ≤ point.y
      · rw [contains_here begun (by omega)]
        cases covers row.2 point.x <;> simp
        omega
      · rw [contains_before begun, if_neg (by omega)]
        rfl

theorem pairwise_of_times {rects : List IntRect} (once : ∀ point, timesIn point rects ≤ 1) :
    rects.Pairwise fun rect other =>
      ∀ point, ¬ (rect.containsPoint point = true ∧ other.containsPoint point = true) := by
  induction rects with
  | nil => exact Pairwise.nil
  | cons rect rects ih =>
    have once (point : IntPoint) : timesIn point rects + _ ≤ 1 := countP_cons.symm.trans_le (once point)
    refine pairwise_cons.mpr ⟨fun other member point both => ?_,
      ih fun point => (Nat.le_add_right _ _).trans (once point)⟩
    have more : 0 < timesIn point rects := countP_pos_iff.mpr ⟨other, member, both.2⟩
    have once := once point
    rw [if_pos both.1] at once
    omega

end Region

variable {a b : Region} {s t : Set IntPoint}

theorem IsBounds.contains {rect other : IntRect} {points others : Set IntPoint} (bounds : IsBounds rect points)
    (bounds' : IsBounds other others) (subset : others ⊆ points) : rect.contains other = true := by
  obtain ⟨_, left⟩ := bounds'.left
  obtain ⟨_, right⟩ := bounds'.right
  obtain ⟨_, top⟩ := bounds'.top
  obtain ⟨_, bottom⟩ := bounds'.bottom
  have left := bounds.within (subset left)
  have right := bounds.within (subset right)
  have top := bounds.within (subset top)
  have bottom := bounds.within (subset bottom)
  rw [contains_iff]
  simp only [maxX, maxY] at *
  omega

theorem region_comparison (first : Built a s) (second : Built b t) :
    ((a.contains b = true ↔ t ⊆ s) ↔ t.Nonempty ∨ a.bounds.contains b.bounds = true) ∧
    (a.intersects b = true ↔ (s ∩ t).Nonempty) ∧
    a.rects.Pairwise (fun rect other =>
      ∀ point, ¬ (rect.containsPoint point = true ∧ other.containsPoint point = true)) ∧
    ∀ point, (∃ rect ∈ a.rects, rect.containsPoint point = true) ↔ point ∈ s := by
  obtain ⟨rows, represents, rfl⟩ := first.denotes
  obtain ⟨rows', represents', rfl⟩ := second.denotes
  have times (point : IntPoint) : Region.timesIn point a.rects = (rows.contains point).toNat := by
    rw [Region.rects, represents.shape]
    exact Region.spanRects_times represents.wellFormed.scanned point
  refine ⟨?_, ?_, Region.pairwise_of_times fun point => ?_, fun point => ?_⟩
  -- The comparison of the shapes is right; the test of the bounds fails an empty region outside of them.
  · have compared := represents.compareShapes_contains represents'
    by_cases within : a.bounds.contains b.bounds = true
    · simp [Region.contains, within, compared within]
    · simp only [Region.contains, within, Bool.false_and, Bool.false_eq_true, or_false, false_iff]
      constructor
      · exact fun outside => Set.nonempty_of_not_subset outside |>.mono Set.sdiff_subset
      · intro some' subset
        exact within ((represents.isBounds (some'.mono subset)).contains (represents'.isBounds some') subset)
  · have compared := compareShapes_spec .intersects represents.wellFormed represents'.wellFormed
      (fun outside => absurd rfl outside)
    rw [← represents.shape, ← represents'.shape] at compared
    rw [Region.intersects, Bool.and_eq_true]
    constructor
    · rintro ⟨_, found⟩
      by_contra none
      have := compared.mpr fun point both => none ⟨point, both⟩
      rw [found] at this
      cases this
    · rintro ⟨point, both⟩
      constructor
      · by_contra apart
        exact represents.apart represents' (Bool.not_eq_true _ ▸ apart) both.1 both.2
      · by_contra none
        exact compared.mp (Bool.not_eq_true _ ▸ none) point both
  · rw [times]
    exact Bool.toNat_le _
  · have counted : 0 < Region.timesIn point a.rects ↔ ∃ rect ∈ a.rects, rect.containsPoint point = true :=
      countP_pos_iff
    rw [← counted, times]
    change 0 < (rows.contains point).toNat ↔ rows.contains point = true
    cases rows.contains point <;> simp

theorem corners_intersect : (Region.ofRect ⟨0, 0, 2, 2⟩).intersects (.ofRect ⟨1, 1, 2, 2⟩) = true :=
  have square : Built (.ofRect ⟨0, 0, 2, 2⟩) _ := .rect _ (by decide) (by decide) (by decide) (by decide)
  have corner : Built (.ofRect ⟨1, 1, 2, 2⟩) _ := .rect _ (by decide) (by decide) (by decide) (by decide)
  (region_comparison square corner).2.1.mpr ⟨⟨1, 1⟩, by decide, by decide⟩

theorem empty_not_contained : ∃ s t, Built (.ofRect ⟨10, 10, 5, 5⟩) s ∧
    Built ((Region.ofRect ⟨0, 0, 5, 5⟩).subtract (.ofRect ⟨0, 0, 5, 5⟩)) t ∧ t ⊆ s ∧
    (Region.ofRect ⟨10, 10, 5, 5⟩).contains
      ((Region.ofRect ⟨0, 0, 5, 5⟩).subtract (.ofRect ⟨0, 0, 5, 5⟩)) = false := by
  have square : Built (.ofRect ⟨0, 0, 5, 5⟩) _ := .rect _ (by decide) (by decide) (by decide) (by decide)
  have other : Built (.ofRect ⟨10, 10, 5, 5⟩) _ := .rect _ (by decide) (by decide) (by decide) (by decide)
  exact ⟨_, _, other, .subtract square square, fun _ member => absurd member.1 member.2, by decide +kernel⟩

end Odyssey.Graphics
