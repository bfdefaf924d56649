import Mathlib.Order.BooleanAlgebra.Set
import Mathlib.Data.Set.Basic
import Mathlib.Order.MinMax
import Odyssey.Graphics.RegionContains

namespace Odyssey.Graphics

open Containers Shape List IntRect Bool Set

section Bounds

variable {rect other : IntRect} {points others : Set IntPoint}

section IsBounds

variable (bounds : IsBounds rect points)
include bounds

theorem IsBounds.within {point : IntPoint} (member : point ∈ points) :
    rect.x ≤ point.x ∧ point.x < rect.x + rect.width ∧ rect.y ≤ point.y ∧ point.y < rect.y + rect.height :=
  containsPoint_iff.mp (bounds.inside point member)

theorem IsBounds.filled : 0 < rect.width ∧ 0 < rect.height := by
  obtain ⟨y, member⟩ := bounds.left
  have within := bounds.within member
  omega

theorem IsBounds.isEmpty : rect.isEmpty = false := by
  have filled := bounds.filled
  rw [eq_false_iff, ne_eq, IntRect.isEmpty_iff]
  omega

theorem IsBounds.apart (bounds' : IsBounds other others)
    (apart : rect.intersects other = false) {point : IntPoint} (member : point ∈ points) : point ∉ others := by
  intro member'
  have within := bounds.within member
  have within' := bounds'.within member'
  apply eq_false_iff.mp apart
  simp only [intersects, bounds.isEmpty, bounds'.isEmpty, Bool.not_false, Bool.true_and, and_eq_true, decide_eq_true_eq]
  rw [maxX, maxX, maxY, maxY]
  omega

theorem IsBounds.unite (bounds' : IsBounds other others) : IsBounds (rect.unite other) (points ∪ others) := by
  have united : rect.unite other = ⟨min rect.x other.x, min rect.y other.y,
      max rect.maxX other.maxX - min rect.x other.x, max rect.maxY other.maxY - min rect.y other.y⟩ := by
    rw [IntRect.unite, bounds.isEmpty, bounds'.isEmpty]
    rfl
  have right : (rect.unite other).maxX = max rect.maxX other.maxX := by
    rw [united]
    show min rect.x other.x + (max rect.maxX other.maxX - min rect.x other.x) = _
    omega
  have bottom : (rect.unite other).maxY = max rect.maxY other.maxY := by
    rw [united]
    show min rect.y other.y + (max rect.maxY other.maxY - min rect.y other.y) = _
    omega
  constructor
  · intro point member
    rw [containsPoint_iff, united]
    simp only [maxX, maxY]
    rcases member with member | member
    · have within := bounds.within member
      omega
    · have within := bounds'.within member
      omega
  · rcases min_choice rect.x other.x with same | same <;> rw [united, same]
    · exact bounds.left.imp (fun _ => .inl)
    · exact bounds'.left.imp (fun _ => .inr)
  · rcases max_choice rect.maxX other.maxX with same | same <;> rw [right, same]
    · exact bounds.right.imp (fun _ => .inl)
    · exact bounds'.right.imp (fun _ => .inr)
  · rcases min_choice rect.y other.y with same | same <;> rw [united, same]
    · exact bounds.top.imp (fun _ => .inl)
    · exact bounds'.top.imp (fun _ => .inr)
  · rcases max_choice rect.maxY other.maxY with same | same <;> rw [bottom, same]
    · exact bounds.bottom.imp (fun _ => .inl)
    · exact bounds'.bottom.imp (fun _ => .inr)

theorem IsBounds.subset (bounds' : IsBounds other others) (subset : points ⊆ others) :
    other.x ≤ rect.x ∧ rect.maxX ≤ other.maxX ∧ other.y ≤ rect.y ∧ rect.maxY ≤ other.maxY := by
  obtain ⟨_, left⟩ := bounds.left
  obtain ⟨_, right⟩ := bounds.right
  obtain ⟨_, top⟩ := bounds.top
  obtain ⟨_, bottom⟩ := bounds.bottom
  have left := bounds'.within (subset left)
  have right := bounds'.within (subset right)
  have top := bounds'.within (subset top)
  have bottom := bounds'.within (subset bottom)
  simp only [maxX, maxY] at left right top bottom ⊢
  omega

theorem IsBounds.unique (bounds' : IsBounds other points) : rect = other := by
  have one := bounds.subset bounds' (refl points)
  have two := bounds'.subset bounds (refl points)
  simp only [maxX, maxY] at one two
  rw [IntRect.mk.injEq]
  omega

end IsBounds

def moved (offset : IntSize) (points : Set IntPoint) : Set IntPoint :=
  {point | ⟨point.x - offset.width, point.y - offset.height⟩ ∈ points}

theorem mem_moved {offset : IntSize} {x y : Int} (member : ⟨x, y⟩ ∈ points) :
    ⟨x + offset.width, y + offset.height⟩ ∈ moved offset points := by
  show IntPoint.mk (x + offset.width - offset.width) (y + offset.height - offset.height) ∈ points
  rw [Int.add_sub_cancel, Int.add_sub_cancel]
  exact member

theorem IsBounds.move (bounds : IsBounds rect points) (offset : IntSize) :
    IsBounds (rect.move offset) (moved offset points) := by
  have right : (rect.move offset).maxX - 1 = rect.maxX - 1 + offset.width := by
    simp only [maxX, IntRect.move]
    omega
  have bottom : (rect.move offset).maxY - 1 = rect.maxY - 1 + offset.height := by
    simp only [maxY, IntRect.move]
    omega
  constructor
  · intro point member
    have within := bounds.within member
    rw [containsPoint_iff]
    simp only [maxX, maxY, IntRect.move] at within ⊢
    omega
  · obtain ⟨y, member⟩ := bounds.left
    exact ⟨_, mem_moved member⟩
  · obtain ⟨y, member⟩ := bounds.right
    rw [right]
    exact ⟨_, mem_moved member⟩
  · obtain ⟨x, member⟩ := bounds.top
    exact ⟨_, mem_moved member⟩
  · obtain ⟨x, member⟩ := bounds.bottom
    rw [bottom]
    exact ⟨_, mem_moved member⟩

end Bounds

structure Represents (region : Region) (rows : Rows) : Prop where
  shape : region.shape = .ofRows rows
  wellFormed : rows.WellFormed
  inRange : rows.InRange
  bounds : rows ≠ [] → IsBounds region.bounds rows.points
  empty : rows = [] → region.bounds.isEmpty = true

section Represents

variable {region other : Region} {rows rows' : Rows}

theorem represents_computed (wellFormed : rows.WellFormed) (inRange : rows.InRange) :
    Represents { bounds := (ofRows rows).bounds, shape := .ofRows rows } rows :=
  ⟨rfl, wellFormed, inRange, bounds_ofRows wellFormed inRange, fun none => by subst none; rfl⟩

theorem represents_empty : Represents {} [] :=
  represents_computed ⟨List.Pairwise.nil, trivial, rfl, nofun, nofun⟩ nofun

def Rows.ofRect (rect : IntRect) : Rows := [(rect.y, [rect.x, rect.maxX]), (rect.maxY, [])]

theorem ofRect_contains {rect : IntRect} (point : IntPoint) :
    (Rows.ofRect rect).contains point = rect.containsPoint point := by
  rw [Bool.eq_iff_iff, containsPoint_iff]
  simp only [Rows.contains, Rows.ofRect, valueAt]
  by_cases below : rect.y ≤ point.y
  · by_cases above : rect.maxY ≤ point.y
    · rw [if_pos below, if_pos above, covers_nil]
      simp only [reduceCtorEq, false_iff]
      omega
    · rw [if_pos below, if_neg above, covers_pair, covers_nil]
      split_ifs <;> simp <;> omega
  · rw [if_neg below, covers_nil]
    simp only [reduceCtorEq, false_iff]
    omega

theorem ofRect_isBounds {rect : IntRect} (width : 0 < rect.width) (height : 0 < rect.height) :
    IsBounds rect (Rows.ofRect rect).points := by
  have right : rect.maxX = rect.x + rect.width := rfl
  have bottom : rect.maxY = rect.y + rect.height := rfl
  have corner {x y : Int} (within : rect.x ≤ x ∧ x < rect.maxX ∧ rect.y ≤ y ∧ y < rect.maxY) :
      ⟨x, y⟩ ∈ (Rows.ofRect rect).points :=
    (ofRect_contains ⟨x, y⟩).trans (containsPoint_iff.mpr within)
  constructor
  · intro point member
    exact (ofRect_contains point).symm.trans member
  · exact ⟨rect.y, corner (by omega)⟩
  · exact ⟨rect.y, corner (by omega)⟩
  · exact ⟨rect.x, corner (by omega)⟩
  · exact ⟨rect.x, corner (by omega)⟩

theorem Rows.WellFormed.rect (wellFormed : rows.WellFormed) (some : rows ≠ [])
    (isRect : (Shape.ofRows rows).isRect = true) :
    ∃ rect : IntRect, 0 < rect.width ∧ 0 < rect.height ∧ rows = .ofRect rect := by
  obtain ⟨row, rest, rfl⟩ := exists_cons_of_ne_nil some
  have filled : row.2 ≠ [] := wellFormed.changing.1
  rcases (wellFormed.segments row mem_cons_self).cases with none | ⟨low, high, more, value, less, _, _⟩
  · exact absurd none filled
  cases rest with
  | nil => exact absurd wellFormed.ended filled
  | cons row' rest =>
    rw [Shape.isRect, and_eq_true, decide_eq_true_eq, decide_eq_true_eq] at isRect
    simp only [ofRows, flatMap_cons, length_cons, length_append, value] at isRect
    have noMore : more = [] := length_eq_zero_iff.mp (by omega)
    cases rest with
    | cons _ _ =>
      simp only [offsets, length_cons] at isRect
      omega
    | nil =>
      have none : row'.2 = [] := wellFormed.ended
      have below : row.1 < row'.1 := (pairwise_cons.mp wellFormed.increasing).1 row' mem_cons_self
      refine ⟨⟨low, row.1, high - low, row'.1 - row.1⟩, by simp only; omega, by simp only; omega, ?_⟩
      have right : low + (high - low) = high := by omega
      have bottom : row.1 + (row'.1 - row.1) = row'.1 := by omega
      have first : row = (row.1, [low, high]) := Prod.ext rfl (noMore ▸ value)
      have second : row' = (row'.1, []) := Prod.ext rfl none
      rw [ofRect, maxX, maxY, right, bottom, ← first, ← second]

theorem represents_ofRect {rect : IntRect} (width : 0 < rect.width) (height : 0 < rect.height)
    (left : -2^31 ≤ rect.x) (right : rect.maxX < 2^31) : Represents (.ofRect rect) (.ofRect rect) := by
  have low : rect.x < rect.maxX := Int.lt_add_of_pos_right _ width
  constructor
  · rfl
  · constructor
    · exact pairwise_pair.mpr (Int.lt_add_of_pos_right _ height)
    · exact ⟨cons_ne_nil _ _, (cons_ne_nil _ _).symm, trivial⟩
    · rfl
    · intro row member
      rcases mem_pair.mp member with rfl | rfl
      · exact pairwise_pair.mpr low
      · exact List.Pairwise.nil
    · intro row member
      rcases mem_pair.mp member with rfl | rfl
      · simp
      · simp
  · intro row member x inside
    rcases mem_pair.mp member with rfl | rfl
    · rcases mem_pair.mp inside with rfl | rfl
      · omega
      · omega
    · cases inside
  · exact fun _ => ofRect_isBounds width height
  · exact fun none => absurd none (cons_ne_nil _ _)

section Represented

variable (represents : Represents region rows)
include represents

theorem Represents.containsPoint (point : IntPoint) : region.containsPoint point = rows.contains point := by
  have wellFormed := represents.wellFormed
  rw [Region.containsPoint, represents.shape, spansContain_eq (ofRows_reads wellFormed.ended) wellFormed.increasing
    wellFormed.ended wellFormed.segments]
  cases inside : rows.contains point with
  | false => rw [Bool.and_false]
  | true =>
    have some : rows ≠ [] := by
      rintro rfl
      cases inside
    rw [(represents.bounds some).inside point inside, Bool.and_true]

theorem Represents.isEmpty : region.bounds.isEmpty = true ↔ rows = [] := by
  constructor
  · intro empty
    by_contra some
    rw [(represents.bounds some).isEmpty] at empty
    cases empty
  · exact represents.empty

theorem Represents.points_empty : rows.points = ∅ ↔ rows = [] := by
  constructor
  · intro none
    by_contra some
    obtain ⟨y, member⟩ := (represents.bounds some).left
    rw [none] at member
    exact member
  · rintro rfl
    exact eq_empty_of_forall_notMem (fun _ member => by cases member)

theorem Represents.no_points (empty : region.bounds.isEmpty = true) : rows.points = ∅ :=
  represents.points_empty.mpr (represents.isEmpty.mp empty)

theorem Represents.rect (some : rows ≠ []) (isRect : region.isRect = true) : rows = .ofRect region.bounds := by
  have shape : (ofRows rows).isRect = true := represents.shape ▸ isRect
  obtain ⟨rect, width, height, rfl⟩ := represents.wellFormed.rect some shape
  rw [(represents.bounds some).unique (ofRect_isBounds width height)]

theorem Represents.top {row : Int × List Int} {rest : Rows} (begins : rows = row :: rest) : region.bounds.y = row.1 := by
  have some : rows ≠ [] := begins ▸ cons_ne_nil row rest
  obtain ⟨front, last, ends⟩ := (eq_nil_or_concat rows).resolve_left some
  rw [concat_eq_append] at ends
  rw [(represents.bounds some).unique (bounds_ofRows represents.wellFormed represents.inRange some),
    bounds_eq begins ends rfl]

end Represented

section Merged

variable (first : Represents region rows) (second : Represents other rows')
include first second

theorem mergeRows_represents {f : Bool → Bool → Bool} (outside : f false false = false) :
    Represents { bounds := (ofRows (mergeRows f rows rows')).bounds, shape := .ofRows (mergeRows f rows rows') }
      (mergeRows f rows rows') :=
  represents_computed (mergeRows_wellFormed first.wellFormed second.wellFormed outside)
    (mergeRows_inRange first.inRange second.inRange)

theorem mergeRows_points {f : Bool → Bool → Bool} (outside : f false false = false) :
    (mergeRows f rows rows').points = {point | f (rows.contains point) (rows'.contains point) = true} := by
  ext point
  show (mergeRows f rows rows').contains point = true ↔ _
  rw [mergeRows_contains first.wellFormed second.wellFormed outside]
  rfl

theorem Represents.apart (apart : region.bounds.intersects other.bounds = false) {point : IntPoint}
    (member : point ∈ rows.points) : point ∉ rows'.points := by
  by_cases some : rows = []
  · rw [first.points_empty.mpr some] at member
    cases member
  by_cases some' : rows' = []
  · rw [second.points_empty.mpr some']
    exact notMem_empty point
  exact (first.bounds some).apart (second.bounds some') apart member

theorem Represents.rect_subset (some : rows ≠ []) (isRect : region.isRect = true)
    (within : region.bounds.contains other.bounds = true) : rows'.points ⊆ rows.points := by
  by_cases some' : rows' = []
  · rw [second.points_empty.mpr some']
    exact empty_subset _
  intro point member
  have inside := (second.bounds some').within member
  rw [contains_iff] at within
  rw [first.rect some isRect]
  show (Rows.ofRect region.bounds).contains point = true
  rw [ofRect_contains, containsPoint_iff]
  simp only [maxX, maxY] at within ⊢
  omega

theorem Represents.compareShapes_contains (within : region.bounds.contains other.bounds = true) :
    compareShapes CompareContainsOperation region.shape other.shape = true ↔ rows'.points ⊆ rows.points := by
  rw [first.shape, second.shape]
  apply (compareShapes_spec .contains first.wellFormed second.wellFormed _).trans Iff.rfl
  intro _ row head row' head'
  obtain ⟨rest, begins⟩ := head?_eq_some_iff.mp head
  obtain ⟨rest', begins'⟩ := head?_eq_some_iff.mp head'
  rw [← first.top begins, ← second.top begins']
  exact (contains_iff.mp within).2.2.1

theorem Represents.united (some' : rows' ≠ []) :
    Represents { bounds := region.bounds.unite other.bounds, shape := unionShapes region.shape other.shape }
      (mergeRows (· || ·) rows rows') ∧ (mergeRows (· || ·) rows rows').points = rows.points ∪ rows'.points := by
  have points : (mergeRows (· || ·) rows rows').points = rows.points ∪ rows'.points := by
    rw [mergeRows_points first second rfl]
    ext point
    exact or_eq_true_iff
  have represents := mergeRows_represents (f := (· || ·)) first second rfl
  have bounds : IsBounds (region.bounds.unite other.bounds) (mergeRows (· || ·) rows rows').points := by
    rw [points]
    by_cases some : rows = []
    · have united : region.bounds.unite other.bounds = other.bounds := by
        rw [unite, (second.bounds some').isEmpty, first.isEmpty.mpr some]
        rfl
      rw [united, first.points_empty.mpr some, empty_union]
      exact second.bounds some'
    · exact (first.bounds some).unite (second.bounds some')
  refine ⟨⟨?_, represents.wellFormed, represents.inRange, fun _ => bounds, ?_⟩, points⟩
  · rw [first.shape, second.shape, unionShapes_ofRows first.wellFormed second.wellFormed]
  · intro none
    obtain ⟨y, member⟩ := bounds.left
    rw [none] at member
    cases member

end Merged

def Denotes (region : Region) (points : Set IntPoint) : Prop := ∃ rows, Represents region rows ∧ rows.points = points

variable {points points' : Set IntPoint}

theorem Denotes.translate {offset : IntSize} (denotes : Denotes region points)
    (inRange : ∀ x ∈ (region.translate offset).shape.segments, -2^31 ≤ x ∧ x < 2^31) :
    Denotes (region.translate offset) (moved offset points) := by
  obtain ⟨rows, represents, rfl⟩ := denotes
  have shape : (region.translate offset).shape = .ofRows (rows.translate offset) := by
    rw [Region.translate, represents.shape, translate_ofRows]
  have points : (rows.translate offset).points = moved offset rows.points := by
    ext point
    have same : (rows.translate offset).contains ⟨point.x - offset.width + offset.width,
        point.y - offset.height + offset.height⟩ = _ := translate_contains offset _ _
    rw [sub_add_cancel, sub_add_cancel] at same
    exact eq_iff_iff.mp same
  rw [shape] at inRange
  refine ⟨_, ⟨shape, translate_wellFormed offset represents.wellFormed, ?_, ?_, ?_⟩, points⟩
  · intro row member x inside
    exact inRange x (mem_flatMap.mpr ⟨row, member, inside⟩)
  · intro some
    rw [points]
    exact (represents.bounds (fun none => some (map_eq_nil_iff.mpr none))).move offset
  · intro none
    exact represents.empty (map_eq_nil_iff.mp none)

variable (first : Denotes region points) (second : Denotes other points')
include first second

theorem Denotes.intersect : Denotes (region.intersect other) (points ∩ points') := by
  obtain ⟨rows, first, rfl⟩ := first
  obtain ⟨rows', second, rfl⟩ := second
  unfold Region.intersect
  split
  · rename_i empty
    rw [first.no_points empty, empty_inter]
    exact ⟨rows, first, first.no_points empty⟩
  split
  · rename_i apart
    rw [not_eq_true'] at apart
    refine ⟨[], represents_empty, ?_⟩
    ext point
    exact ⟨nofun, fun member => absurd member.2 (first.apart second apart member.1)⟩
  · rw [first.shape, second.shape, Shape.intersectShapes, shapeOperation,
      sweep_ofRows intersect_computes first.wellFormed second.wellFormed]
    refine ⟨_, mergeRows_represents first second rfl, ?_⟩
    rw [mergeRows_points first second rfl]
    ext point
    exact and_eq_true_iff

theorem Denotes.subtract : Denotes (region.subtract other) (points \ points') := by
  obtain ⟨rows, first, rfl⟩ := first
  obtain ⟨rows', second, rfl⟩ := second
  unfold Region.subtract
  split
  · rename_i empty
    rw [first.no_points empty, empty_sdiff]
    exact ⟨rows, first, first.no_points empty⟩
  split
  · rename_i empty
    rw [second.no_points empty, sdiff_empty]
    exact ⟨rows, first, rfl⟩
  split
  · rename_i apart
    rw [not_eq_true'] at apart
    refine ⟨rows, first, ?_⟩
    ext point
    exact ⟨fun member => ⟨member, first.apart second apart member⟩, fun member => member.1⟩
  · rw [first.shape, second.shape, Shape.subtractShapes, shapeOperation,
      sweep_ofRows subtract_computes first.wellFormed second.wellFormed]
    refine ⟨_, mergeRows_represents first second rfl, ?_⟩
    rw [mergeRows_points first second rfl]
    ext point
    show (rows.contains point && !rows'.contains point) = true ↔ _
    rw [and_eq_true_iff, not_eq_true', eq_false_iff]
    rfl

theorem Denotes.unite : Denotes (region.unite other) (points ∪ points') := by
  obtain ⟨rows, first, rfl⟩ := first
  obtain ⟨rows', second, rfl⟩ := second
  unfold Region.unite
  split
  · rename_i empty
    rw [second.no_points empty, union_empty]
    exact ⟨rows, first, rfl⟩
  rename_i filled
  have some' : rows' ≠ [] := fun none => filled (second.empty none)
  split
  · rename_i rect
    rw [and_eq_true] at rect
    have some : rows ≠ [] := by
      intro none
      have within := contains_iff.mp rect.2
      have empty := isEmpty_iff.mp (first.empty none)
      have filled := (second.bounds some').filled
      simp only [maxX, maxY] at within
      omega
    rw [union_eq_left.mpr (first.rect_subset second some rect.1 rect.2)]
    exact ⟨rows, first, rfl⟩
  split
  · rename_i rect
    rw [and_eq_true] at rect
    rw [union_eq_right.mpr (second.rect_subset first some' rect.1 rect.2)]
    exact ⟨rows', second, rfl⟩
  split
  · rename_i found
    rw [and_eq_true] at found
    have inside := found.2
    rw [Region.contains, and_eq_true] at inside
    rw [union_eq_left.mpr ((first.compareShapes_contains second inside.1).mp inside.2)]
    exact ⟨rows, first, rfl⟩
  · exact ⟨_, first.united second some'⟩

end Represents

/-- The regions that are made of rectangles, and the points that they should have. Segment ends are integers of
    the source. -/
inductive Built : Region → Set IntPoint → Prop
  | empty : Built {} ∅
  | rect (rect : IntRect) (width : 0 < rect.width) (height : 0 < rect.height) (left : -2^31 ≤ rect.x)
      (right : rect.maxX < 2^31) : Built (.ofRect rect)
        {point | rect.x ≤ point.x ∧ point.x < rect.maxX ∧ rect.y ≤ point.y ∧ point.y < rect.maxY}
  | unite {a b : Region} {s t : Set IntPoint} (first : Built a s) (second : Built b t) : Built (a.unite b) (s ∪ t)
  | intersect {a b : Region} {s t : Set IntPoint} (first : Built a s) (second : Built b t) :
      Built (a.intersect b) (s ∩ t)
  | subtract {a b : Region} {s t : Set IntPoint} (first : Built a s) (second : Built b t) :
      Built (a.subtract b) (s \ t)
  | translate {a : Region} {s : Set IntPoint} (offset : IntSize) (first : Built a s)
      (inRange : ∀ x ∈ (a.translate offset).shape.segments, -2^31 ≤ x ∧ x < 2^31) :
      Built (a.translate offset) (moved offset s)

variable {a b region : Region} {s t points : Set IntPoint}

theorem Built.denotes (built : Built region points) : Denotes region points := by
  induction built with
  | empty => exact ⟨[], represents_empty, represents_empty.points_empty.mpr rfl⟩
  | rect rect width height left right =>
    refine ⟨_, represents_ofRect width height left right, ?_⟩
    ext point
    exact (eq_iff_iff.mp (ofRect_contains point)).trans containsPoint_iff
  | unite _ _ first second => exact first.unite second
  | intersect _ _ first second => exact first.intersect second
  | subtract _ _ first second => exact first.subtract second
  | translate offset _ inRange first => exact first.translate inRange

theorem Denotes.containsPoint (denotes : Denotes region points) (point : IntPoint) :
    region.containsPoint point = true ↔ point ∈ points := by
  obtain ⟨rows, represents, rfl⟩ := denotes
  rw [represents.containsPoint]
  rfl

theorem Represents.isBounds {rows : Rows} (represents : Represents a rows) (some : rows.points.Nonempty) :
    IsBounds a.bounds rows.points :=
  represents.bounds fun none => some.ne_empty (represents.points_empty.mpr none)

/-- The algebra of regions is that of their points. -/
theorem region_algebra (first : Built a s) (second : Built b t) :
    (∀ point, (a.unite b).containsPoint point = true ↔
      a.containsPoint point = true ∨ b.containsPoint point = true) ∧
    (∀ point, (a.intersect b).containsPoint point = true ↔
      a.containsPoint point = true ∧ b.containsPoint point = true) ∧
    (∀ point, (a.subtract b).containsPoint point = true ↔
      a.containsPoint point = true ∧ ¬b.containsPoint point = true) ∧
    (∀ point, a.containsPoint point = true ↔ point ∈ s) ∧
    (∃ rows : Rows, a.shape = .ofRows rows ∧ rows.WellFormed) ∧
    (a.isEmpty = true ↔ s = ∅) ∧ (s.Nonempty → IsBounds a.bounds s) := by
  have points := first.denotes.containsPoint
  have points' := second.denotes.containsPoint
  refine ⟨fun point => ?_, fun point => ?_, fun point => ?_, points, ?_⟩
  · rw [(first.unite second).denotes.containsPoint, points, points']
    rfl
  · rw [(first.intersect second).denotes.containsPoint, points, points']
    rfl
  · rw [(first.subtract second).denotes.containsPoint, points, points']
    rfl
  · obtain ⟨rows, represents, rfl⟩ := first.denotes
    exact ⟨⟨rows, represents.shape, represents.wellFormed⟩,
      represents.isEmpty.trans represents.points_empty.symm, represents.isBounds⟩

theorem corner_left_of_square :
    ((Region.ofRect ⟨0, 0, 2, 2⟩).subtract (.ofRect ⟨1, 1, 2, 2⟩)).containsPoint ⟨1, 0⟩ = true :=
  have square : Built (.ofRect ⟨0, 0, 2, 2⟩) _ := .rect _ (by decide) (by decide) (by decide) (by decide)
  have corner : Built (.ofRect ⟨1, 1, 2, 2⟩) _ := .rect _ (by decide) (by decide) (by decide) (by decide)
  ((region_algebra square corner).2.2.1 ⟨1, 0⟩).mpr ⟨by decide, by decide⟩

end Odyssey.Graphics
