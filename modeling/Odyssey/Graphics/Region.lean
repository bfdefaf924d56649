import Odyssey.Graphics.IntRect

namespace Odyssey.Graphics

/-- A row of a shape: where it begins, and where its segments begin in the list of all segments. -/
structure Span where
  y : Int
  segmentIndex : Nat
  deriving DecidableEq, Repr

structure Shape where
  segments : List Int := []
  spans : List Span := []
  deriving DecidableEq, Repr

namespace Shape

variable (shape : Shape)

def isEmpty (shape : Shape) : Bool := shape.spans.isEmpty

def isRect : Bool := shape.spans.length ≤ 2 && shape.segments.length ≤ 2

/-- From `segments_begin` to `segments_end` of the first of the spans, which are followed to the end of the
    shape. Only the last span has no next one, and its index is the number of segments. -/
def segmentsAt : List Span → List Int
  | span :: next :: _ =>
    if span.segmentIndex = shape.segments.length then []
    else (shape.segments.take next.segmentIndex).drop span.segmentIndex
  | _ => []

def appendSpanAt (y : Int) : Shape :=
  { shape with spans := shape.spans ++ [⟨y, shape.segments.length⟩] }

def canCoalesce (segments : List Int) : Bool :=
  match shape.spans.getLast? with
  | none => false
  | some last => shape.segments.drop last.segmentIndex == segments

def appendSpan (y : Int) (segments : List Int) : Shape :=
  if shape.canCoalesce segments then shape
  else { shape.appendSpanAt y with segments := shape.segments ++ segments }

def appendSpans (shape other : Shape) : List Span → Shape
  | [] => shape
  | span :: spans => (shape.appendSpan span.y (other.segmentsAt (span :: spans))).appendSpans other spans

def appendSegment (shape : Shape) (x : Int) : Shape := { shape with segments := shape.segments ++ [x] }

def ofRect (rect : IntRect) : Shape :=
  let shape := ({} : Shape).appendSpanAt rect.y
  let shape := shape.appendSegment rect.x
  let shape := shape.appendSegment rect.maxX
  shape.appendSpanAt rect.maxY

/-- The first and the last segment of a span that has one after it. A span without segments has those of its
    neighbours. -/
def outerSegments (shape : Shape) (span next : Span) : Option (Int × Int) :=
  if span.segmentIndex = shape.segments.length then none
  else some (shape.segments.getD span.segmentIndex 0, shape.segments.getD (next.segmentIndex - 1) 0)

def extend (shape : Shape) : Int → Int → List Span → Int × Int
  | minX, maxX, span :: next :: rest =>
    match shape.outerSegments span next with
    | none => shape.extend minX maxX (next :: rest)
    | some (first, last) =>
      shape.extend (if first < minX then first else minX) (if last > maxX then last else maxX) (next :: rest)
  | minX, maxX, _ => (minX, maxX)

def bounds (shape : Shape) : IntRect :=
  match shape.spans.head?, shape.spans.getLast? with
  | some first, some last =>
    let (minX, maxX) := shape.extend (2^31 - 1) (-2^31) shape.spans
    { x := minX, y := first.y, width := maxX - minX, height := last.y - first.y }
  | _, _ => {}

def translate (shape : Shape) (offset : IntSize) : Shape :=
  { segments := shape.segments.map (· + offset.width)
    spans := shape.spans.map (fun span => { span with y := span.y + offset.height }) }

structure Operation where
  trySimpleOperation : Shape → Shape → Option Shape
  opCode : Nat
  shouldAddRemainingSegmentsFromSpan1 : Bool
  shouldAddRemainingSegmentsFromSpan2 : Bool
  shouldAddRemainingSpansFromShape1 : Bool
  shouldAddRemainingSpansFromShape2 : Bool

/-- The inner loop; the old flag is the one from before the step. -/
def mergeSegments (operation : Operation) (oldFlag : Nat) (s1 s2 : List Int) : List Int :=
  match s1, s2 with
  | x1 :: rest1, x2 :: rest2 =>
    let test := x1 - x2
    if test < 0 then
      let flag := oldFlag ^^^ 1
      (if flag = operation.opCode ∨ oldFlag = operation.opCode then [x1] else []) ++
        mergeSegments operation flag rest1 (x2 :: rest2)
    else if test > 0 then
      let flag := oldFlag ^^^ 2
      (if flag = operation.opCode ∨ oldFlag = operation.opCode then [x2] else []) ++
        mergeSegments operation flag (x1 :: rest1) rest2
    else
      let flag := (oldFlag ^^^ 1) ^^^ 2
      (if flag = operation.opCode ∨ oldFlag = operation.opCode then [x2] else []) ++
        mergeSegments operation flag rest1 rest2
  | s1, s2 =>
    if operation.shouldAddRemainingSegmentsFromSpan1 ∧ s1 ≠ [] then s1
    else if operation.shouldAddRemainingSegmentsFromSpan2 ∧ s2 ≠ [] then s2
    else []
termination_by s1.length + s2.length

/-- The span that is added for a row; the result does not begin with one that has no segments. -/
def addRow (operation : Operation) (y : Int) (segments1 segments2 : List Int) (result : Shape) : Shape :=
  let segments := mergeSegments operation 0 segments1 segments2
  if segments ≠ [] ∨ !result.isEmpty then result.appendSpan y segments else result

def sweep (operation : Operation) (shape1 shape2 : Shape) (spans1 spans2 : List Span)
    (segments1 segments2 : List Int) (result : Shape) : Shape :=
  match spans1, spans2 with
  | span1 :: rest1, span2 :: rest2 =>
    let test := span1.y - span2.y
    let begun1 := shape1.segmentsAt (span1 :: rest1)
    let begun2 := shape2.segmentsAt (span2 :: rest2)
    if test < 0 then
      sweep operation shape1 shape2 rest1 (span2 :: rest2) begun1 segments2
        (addRow operation span1.y begun1 segments2 result)
    else if test > 0 then
      sweep operation shape1 shape2 (span1 :: rest1) rest2 segments1 begun2
        (addRow operation span2.y segments1 begun2 result)
    else
      sweep operation shape1 shape2 rest1 rest2 begun1 begun2
        (addRow operation span2.y begun1 begun2 result)
  | spans1, spans2 =>
    if operation.shouldAddRemainingSpansFromShape1 ∧ spans1 ≠ [] then result.appendSpans shape1 spans1
    else if operation.shouldAddRemainingSpansFromShape2 ∧ spans2 ≠ [] then result.appendSpans shape2 spans2
    else result
termination_by spans1.length + spans2.length

def shapeOperation (operation : Operation) (shape1 shape2 : Shape) : Shape :=
  match operation.trySimpleOperation shape1 shape2 with
  | some result => result
  | none => sweep operation shape1 shape2 shape1.spans shape2.spans [] [] {}

def UnionOperation : Operation where
  trySimpleOperation shape1 shape2 := if shape1.isEmpty then some shape2 else none
  opCode := 0
  shouldAddRemainingSegmentsFromSpan1 := true
  shouldAddRemainingSegmentsFromSpan2 := true
  shouldAddRemainingSpansFromShape1 := true
  shouldAddRemainingSpansFromShape2 := true

def IntersectOperation : Operation where
  trySimpleOperation _ _ := none
  opCode := 3
  shouldAddRemainingSegmentsFromSpan1 := false
  shouldAddRemainingSegmentsFromSpan2 := false
  shouldAddRemainingSpansFromShape1 := false
  shouldAddRemainingSpansFromShape2 := false

def SubtractOperation : Operation where
  trySimpleOperation _ _ := none
  opCode := 1
  shouldAddRemainingSegmentsFromSpan1 := true
  shouldAddRemainingSegmentsFromSpan2 := false
  shouldAddRemainingSpansFromShape1 := true
  shouldAddRemainingSpansFromShape2 := false

def unionShapes (shape1 shape2 : Shape) : Shape := shapeOperation UnionOperation shape1 shape2

def intersectShapes (shape1 shape2 : Shape) : Shape := shapeOperation IntersectOperation shape1 shape2

def subtractShapes (shape1 shape2 : Shape) : Shape := shapeOperation SubtractOperation shape1 shape2

/-- What a comparison makes of each finding: a result, or none if it goes on. -/
structure CompareOperation where
  defaultResult : Bool
  aOutsideB : Option Bool
  bOutsideA : Option Bool
  aOverlapsB : Option Bool

def CompareContainsOperation : CompareOperation where
  defaultResult := true
  aOutsideB := none
  bOutsideA := some false
  aOverlapsB := none

def CompareIntersectsOperation : CompareOperation where
  defaultResult := false
  aOutsideB := none
  bOutsideA := none
  aOverlapsB := some true

def firstFinding (findings : List (Bool × Option Bool)) : Option Bool :=
  findings.findSome? (fun finding => if finding.1 then finding.2 else none)

def compareSegments (operation : CompareOperation) (a b : List Int) : Option Bool :=
  match a, b with
  | aX :: aMaxX :: restA, bX :: bMaxX :: restB =>
    (firstFinding [(bMaxX > aX && bX < aMaxX, operation.aOverlapsB), (aX < bX, operation.aOutsideB),
      (bX < aX, operation.bOutsideA)]).or
      (if aMaxX < bMaxX then compareSegments operation restA (bX :: bMaxX :: restB)
      else if bMaxX < aMaxX then compareSegments operation (aX :: aMaxX :: restA) restB
      else compareSegments operation restA restB)
  | a, b => firstFinding [(a ≠ [], operation.aOutsideB), (b ≠ [], operation.bOutsideA)]
termination_by a.length + b.length

def compareSpans (operation : CompareOperation) (aShape bShape : Shape) (aHadSegment bHadSegment : Bool)
    (aSpans bSpans : List Span) : Bool :=
  match aSpans, bSpans with
  | aSpan :: aNext :: restA, bSpan :: bNext :: restB =>
    let aSegments := aShape.segmentsAt aSpans
    let bSegments := bShape.segmentsAt bSpans
    let found := (firstFinding
      [(aSpan.y < bSpan.y && !bHadSegment && aSegments ≠ [], operation.aOutsideB),
        (bSpan.y < aSpan.y && !aHadSegment && bSegments ≠ [], operation.bOutsideA)]).or
      (if bNext.y > aSpan.y ∧ bSpan.y < aNext.y then compareSegments operation aSegments bSegments else none)
    match found with
    | some result => result
    | none =>
      if aNext.y < bNext.y then
        compareSpans operation aShape bShape (aSegments ≠ []) (bSegments ≠ []) (aNext :: restA)
          (bSpan :: bNext :: restB)
      else if bNext.y < aNext.y then
        compareSpans operation aShape bShape (aSegments ≠ []) (bSegments ≠ []) (aSpan :: aNext :: restA)
          (bNext :: restB)
      else
        compareSpans operation aShape bShape (aSegments ≠ []) (bSegments ≠ []) (aNext :: restA)
          (bNext :: restB)
  | aSpans, bSpans =>
    (firstFinding [(aSpans.length > 1, operation.aOutsideB), (bSpans.length > 1, operation.bOutsideA)]).getD
      operation.defaultResult
termination_by aSpans.length + bSpans.length

def compareShapes (operation : CompareOperation) (aShape bShape : Shape) : Bool :=
  compareSpans operation aShape bShape false false aShape.spans bShape.spans

end Shape

structure Region where
  bounds : IntRect := {}
  shape : Shape := {}
  deriving DecidableEq, Repr

namespace Region

def ofRect (rect : IntRect) : Region := { bounds := rect, shape := Shape.ofRect rect }

def isEmpty (region : Region) : Bool := region.bounds.isEmpty

def isRect (region : Region) : Bool := region.shape.isRect

def contains (region other : Region) : Bool :=
  region.bounds.contains other.bounds &&
    Shape.compareShapes Shape.CompareContainsOperation region.shape other.shape

def intersects (region other : Region) : Bool :=
  region.bounds.intersects other.bounds &&
    Shape.compareShapes Shape.CompareIntersectsOperation region.shape other.shape

def segmentsContain (x : Int) : List Int → Bool
  | low :: high :: rest =>
    if low > x then false else if high > x then true else segmentsContain x rest
  | _ => false

def spansContain (shape : Shape) (point : IntPoint) : List Span → Bool
  | span :: next :: rest =>
    if span.y > point.y then false
    else if next.y ≤ point.y then spansContain shape point (next :: rest)
    else segmentsContain point.x (shape.segmentsAt (span :: next :: rest)) ||
      spansContain shape point (next :: rest)
  | _ => false

def containsPoint (region : Region) (point : IntPoint) : Bool :=
  region.bounds.containsPoint point && spansContain region.shape point region.shape.spans

def intersect (region other : Region) : Region :=
  if region.bounds.isEmpty then region
  else if !region.bounds.intersects other.bounds then {}
  else
    let shape := Shape.intersectShapes region.shape other.shape
    { bounds := shape.bounds, shape := shape }

def unite (region other : Region) : Region :=
  if other.isEmpty then region
  else if region.isRect && region.bounds.contains other.bounds then region
  else if other.isRect && other.bounds.contains region.bounds then other
  else if !region.isRect && region.contains other then region
  else { bounds := region.bounds.unite other.bounds, shape := Shape.unionShapes region.shape other.shape }

def subtract (region other : Region) : Region :=
  if region.bounds.isEmpty then region
  else if other.isEmpty then region
  else if !region.bounds.intersects other.bounds then region
  else
    let shape := Shape.subtractShapes region.shape other.shape
    { bounds := shape.bounds, shape := shape }

def translate (region : Region) (offset : IntSize) : Region :=
  { bounds := region.bounds.move offset, shape := region.shape.translate offset }

end Region

end Odyssey.Graphics
