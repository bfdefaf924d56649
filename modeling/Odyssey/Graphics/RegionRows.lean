import Odyssey.Containers.StepFunction
import Odyssey.Graphics.Region

namespace Odyssey.Graphics

open Containers List Shape

abbrev Rows := List (Int × List Int)

/-- Every row begins after the one before and differs from it, the last one has no segments, and the segments
    of a row begin and end in turn. -/
structure Rows.WellFormed (rows : Rows) : Prop where
  increasing : Increasing rows
  changing : Changing [] rows
  ended : lastValue [] rows = []
  ordered : ∀ row ∈ rows, row.2.Pairwise (· < ·)
  even : ∀ row ∈ rows, row.2.length.bodd = false

def offsets (start : Nat) : Rows → List Span
  | [] => []
  | row :: rows => ⟨row.1, start⟩ :: offsets (start + row.2.length) rows

/-- The two lists that the source keeps for the rows. -/
def Shape.ofRows (rows : Rows) : Shape where
  segments := rows.flatMap Prod.snd
  spans := offsets 0 rows

def Reads (shape : Shape) : List Span → Rows → Prop
  | [], [] => True
  | span :: spans, row :: rows =>
    span.y = row.1 ∧ shape.segmentsAt (span :: spans) = row.2 ∧ Reads shape spans rows
  | _, _ => False

theorem offsets_append (start : Nat) (rows : Rows) (row : Int × List Int) : offsets start (rows ++ [row]) =
      offsets start rows ++ [⟨row.1, start + (rows.flatMap Prod.snd).length⟩] := by
  induction rows generalizing start with
  | nil => rfl
  | cons first rows ih =>
    rw [cons_append, offsets, ih, flatMap_cons, length_append, Nat.add_assoc]
    rfl

theorem offsets_reads {shape : Shape} (before : List Int) {rows : Rows}
    (whole : shape.segments = before ++ rows.flatMap Prod.snd) (ended : lastValue [] rows = []) :
    Reads shape (offsets before.length rows) rows := by
  induction rows generalizing before with
  | nil => trivial
  | cons row rows ih =>
    rw [flatMap_cons] at whole
    cases rows with
    | nil => exact ⟨rfl, ended.symm, trivial⟩
    | cons next rows =>
      refine ⟨rfl, ?_, ?_⟩
      · show (if before.length = shape.segments.length then []
          else (shape.segments.take (before.length + row.2.length)).drop before.length) = row.2
        rw [whole]
        split_ifs with none
        · simp only [length_append] at none
          exact (length_eq_zero_iff.mp (by omega)).symm
        · rw [← append_assoc, ← length_append, take_left, drop_left]
      · have later := ih (before ++ row.2) (by rw [whole, append_assoc]) ended
        rw [length_append] at later
        exact later

theorem ofRows_reads {rows : Rows} (ended : lastValue [] rows = []) :
    Reads (.ofRows rows) (Shape.ofRows rows).spans rows :=
  offsets_reads [] rfl ended

section Append

variable {rows : Rows} {y : Int} {segments : List Int}

theorem canCoalesce_ofRows (row : Int × List Int) :
    (Shape.ofRows (rows ++ [row])).canCoalesce segments = decide (row.2 = segments) := by
  unfold canCoalesce
  have last : (ofRows (rows ++ [row])).spans.getLast? = some ⟨row.1, 0 + (rows.flatMap Prod.snd).length⟩ := by
    show (offsets 0 (rows ++ [row])).getLast? = _
    rw [offsets_append, getLast?_concat]
  have drops : (ofRows (rows ++ [row])).segments.drop (0 + (rows.flatMap Prod.snd).length) = row.2 := by
    show ((rows ++ [row]).flatMap Prod.snd).drop _ = _
    rw [flatMap_append, Nat.zero_add, drop_left, flatMap_singleton]
  simp only [last, drops]
  exact beq_eq_decide row.2 segments

theorem appended_ofRows :
    { (Shape.ofRows rows).appendSpanAt y with segments := (Shape.ofRows rows).segments ++ segments } =
      Shape.ofRows (rows ++ [(y, segments)]) := by
  unfold appendSpanAt ofRows
  rw [flatMap_append, flatMap_singleton, offsets_append, Nat.zero_add]

theorem appendSpan_ofRows (begun : rows ≠ [] ∨ segments ≠ []) : (Shape.ofRows rows).appendSpan y segments =
      Shape.ofRows (rows ++ compress (lastValue [] rows) [(y, segments)]) := by
  unfold appendSpan
  rw [compress, compress]
  rcases eq_nil_or_concat rows with rfl | ⟨front, row, rfl⟩
  · have nonempty : segments ≠ [] := begun.resolve_left (fun none => none rfl)
    rw [appended_ofRows]
    show _ = ofRows ([] ++ if segments = [] then _ else _)
    rw [if_neg nonempty]
    rfl
  · rw [concat_eq_append, canCoalesce_ofRows, lastValue_append, appended_ofRows]
    by_cases same : row.2 = segments
    · rw [if_pos (decide_eq_true same), if_pos same.symm, append_nil]
    · rw [if_neg (by simp [same]), if_neg (Ne.symm same)]
      rfl

theorem appendSpans_ofRows {shape : Shape} {spans : List Span} {others : Rows}
    (reads : Reads shape spans others) (changing : Changing (lastValue [] rows) others) :
    (Shape.ofRows rows).appendSpans shape spans = Shape.ofRows (rows ++ others) := by
  induction others generalizing rows spans with
  | nil =>
    cases spans with
    | nil => rw [appendSpans, append_nil]
    | cons span spans => cases reads
  | cons row others ih =>
    cases spans with
    | nil => cases reads
    | cons span spans =>
      rcases reads with ⟨place, segments, later⟩
      have begun : rows ≠ [] ∨ row.2 ≠ [] := by
        by_cases none : rows = []
        · rw [none] at changing
          exact Or.inr changing.1
        · exact Or.inl none
      have added : (ofRows rows).appendSpan row.1 row.2 = ofRows (rows ++ [row]) := by
        rw [appendSpan_ofRows begun, compress, if_neg changing.1]
        rfl
      rw [appendSpans, place, segments, added, ih later, append_assoc]
      · rfl
      · rw [lastValue_append]
        exact changing.2

end Append

def flagOf (a b : Bool) : Nat := (if a then 1 else 0) + (if b then 2 else 0)

/-- The operation computes a truth function: its code is where the function differs from the outside or where it
    does not, and what is left of one shape is kept as it is or not at all. -/
structure Computes (operation : Shape.Operation) (f : Bool → Bool → Bool) : Prop where
  outside : f false false = false
  opCode : (∀ a b, flagOf a b = operation.opCode ↔ f a b = true) ∨
    ∀ a b, flagOf a b = operation.opCode ↔ f a b = false
  left : ∀ a, f a false = (operation.shouldAddRemainingSegmentsFromSpan1 && a)
  right : ∀ b, f false b = (operation.shouldAddRemainingSegmentsFromSpan2 && b)
  leftSpans : operation.shouldAddRemainingSpansFromShape1 = operation.shouldAddRemainingSegmentsFromSpan1
  rightSpans : operation.shouldAddRemainingSpansFromShape2 = operation.shouldAddRemainingSegmentsFromSpan2

theorem union_computes : Computes Shape.UnionOperation (· || ·) := by
  constructor <;> decide

theorem intersect_computes : Computes Shape.IntersectOperation (· && ·) := by
  constructor <;> decide

theorem subtract_computes : Computes Shape.SubtractOperation (fun a b => a && !b) := by
  constructor <;> decide

theorem flagOf_xor (a b : Bool) : flagOf a b ^^^ 1 = flagOf (!a) b ∧ flagOf a b ^^^ 2 = flagOf a (!b) ∧
      (flagOf a b ^^^ 1) ^^^ 2 = flagOf (!a) (!b) := by
  cases a <;> cases b <;> decide

theorem flagOf_moved (a b : Bool) :
    flagOf a b ≠ flagOf (!a) b ∧ flagOf a b ≠ flagOf a (!b) ∧ flagOf a b ≠ flagOf (!a) (!b) := by
  cases a <;> cases b <;> decide

def mergeRow (f : Bool → Bool → Bool) : List Int → List Int → List Int := mergeToggles f false false

theorem lastValue_row (rows : Rows) (row : Int × List Int) :
    lastValue [] (rows ++ compress (lastValue [] rows) [row]) = row.2 := by
  rw [compress]
  split_ifs with same
  · rw [compress, append_nil, same]
  · rw [compress, lastValue_append]

structure Ahead (shape : Shape) (spans : List Span) (current : List Int) (rows : Rows) : Prop where
  reads : Reads shape spans rows
  changing : Changing current rows
  ended : lastValue current rows = []
  evenCurrent : current.length.bodd = false
  even : ∀ row ∈ rows, row.2.length.bodd = false

variable {shape shape1 shape2 : Shape} {spans : List Span} {current : List Int} {rows rows1 rows2 : Rows}
  {f : Bool → Bool → Bool}

theorem Ahead.next {span : Span} {row : Int × List Int}
    (ahead : Ahead shape (span :: spans) current (row :: rows)) : Ahead shape spans row.2 rows where
  reads := ahead.reads.2.2
  changing := ahead.changing.2
  ended := ahead.ended
  evenCurrent := ahead.even row mem_cons_self
  even other member := ahead.even other (mem_cons_of_mem _ member)

theorem Ahead.nil (ahead : Ahead shape spans current []) : spans = [] ∧ current = [] := by
  constructor
  · cases spans with
    | nil => rfl
    | cons span spans => exact ahead.reads.elim
  · exact ahead.ended

theorem Ahead.cons {row : Int × List Int} (ahead : Ahead shape spans current (row :: rows)) :
    ∃ span rest, spans = span :: rest ∧ span.y = row.1 ∧ shape.segmentsAt (span :: rest) = row.2 := by
  cases spans with
  | nil => exact ahead.reads.elim
  | cons span spans => exact ⟨span, spans, rfl, ahead.reads.1, ahead.reads.2.1⟩

theorem remaining_eq {result : Rows} {keep : Bool} (ahead : Ahead shape spans current rows)
    (last : lastValue [] result = if keep then current else []) :
    (if keep ∧ spans ≠ [] then (Shape.ofRows result).appendSpans shape spans else Shape.ofRows result) =
      .ofRows (result ++ compress (if keep then current else [])
        (rows.map (fun row => (row.1, if keep then row.2 else [])))) := by
  cases keep with
  | true =>
    rw [compress_of_changing (by simpa using ahead.changing)]
    cases rows with
    | nil =>
      rw [ahead.nil.1]
      simp
    | cons row rows =>
      rcases ahead.cons with ⟨span, rest, rfl, _, _⟩
      rw [appendSpans_ofRows ahead.reads (last ▸ ahead.changing)]
      simp
  | false =>
    simp only [Bool.false_eq_true, if_false, false_and]
    rw [compress_constant, append_nil]
    intro step member
    rcases mem_map.mp member with ⟨_, _, rfl⟩
    rfl

def mergeRows (f : Bool → Bool → Bool) (rows1 rows2 : Rows) : Rows :=
  compress [] (combine (mergeRow f) [] [] rows1 rows2)

theorem Rows.WellFormed.ahead (wellFormed : rows.WellFormed) :
    Ahead (.ofRows rows) (Shape.ofRows rows).spans [] rows where
  reads := ofRows_reads wellFormed.ended
  changing := wellFormed.changing
  ended := wellFormed.ended
  evenCurrent := rfl
  even := wellFormed.even

section Computes

variable {operation : Shape.Operation} (computes : Computes operation f)
include computes

theorem emit_eq {a b a' b' : Bool} (moved : flagOf a b ≠ flagOf a' b') (x : Int) (rest : List Int) :
    (if flagOf a' b' = operation.opCode ∨ flagOf a b = operation.opCode then [x] else []) ++ rest =
      emit (f a b) (f a' b') x rest := by
  have changes : flagOf a' b' = operation.opCode ∨ flagOf a b = operation.opCode ↔ f a' b' ≠ f a b := by
    have one : ¬ (flagOf a' b' = operation.opCode ∧ flagOf a b = operation.opCode) :=
      fun both => moved (both.2.trans both.1.symm)
    rcases computes.opCode with code | code
    all_goals
      rw [code, code] at one ⊢
      generalize f a b = before, f a' b' = after at one ⊢
      revert one
      cases before <;> cases after <;> decide
  unfold emit
  by_cases same : f a' b' = f a b
  · rw [if_neg (fun found => changes.mp found same), if_pos same, nil_append]
  · rw [if_pos (changes.mpr same), if_neg same, singleton_append]

/-- The lists may be those that are left after the first ends, with the flag for what has been passed. -/
theorem mergeSegments_eq {a b : Bool} {s1 s2 : List Int} (even : s1.length.bodd = a) (even' : s2.length.bodd = b) :
    Shape.mergeSegments operation (flagOf a b) s1 s2 = mergeToggles f a b s1 s2 := by
  induction size : s1.length + s2.length using Nat.strongRecOn generalizing a b s1 s2 with
  | _ total ih =>
    cases s1 with
    | nil =>
      have outside : a = false := even.symm
      rw [outside, mergeToggles_right_only computes.right b s2, mergeSegments]
      · cases s2 <;> simp
      · simp
    | cons x1 rest1 =>
      cases s2 with
      | nil =>
        have outside : b = false := even'.symm
        rw [outside, mergeToggles_left_only computes.left a (x1 :: rest1), mergeSegments]
        · simp
        · simp
      | cons x2 rest2 =>
        have whole := even
        have whole' := even'
        rw [length_cons, Nat.bodd_succ] at even even'
        have half : rest1.length.bodd = !a := by rw [← even, Bool.not_not]
        have half' : rest2.length.bodd = !b := by rw [← even', Bool.not_not]
        rcases flagOf_xor a b with ⟨one, two, both⟩
        rcases flagOf_moved a b with ⟨moved1, moved2, moved3⟩
        simp only [length_cons] at size
        rw [mergeSegments]
        simp only [one, two]
        rcases lt_trichotomy x1 x2 with less | rfl | greater
        · rw [if_pos (by omega), emit_eq computes moved1, mergeToggles_less less]
          rw [ih _ (by simp only [length_cons]; omega) half whole' rfl]
        · rw [if_neg (by omega), if_neg (by omega), ← one, both, emit_eq computes moved3, mergeToggles_equal]
          rw [ih _ (by omega) half half' rfl]
        · rw [if_neg (by omega), if_pos (by omega), emit_eq computes moved2, mergeToggles_greater greater]
          rw [ih _ (by simp only [length_cons]; omega) whole half' rfl]

theorem addRow_ofRows (y : Int) {segments1 segments2 : List Int}
    (even : segments1.length.bodd = false) (even' : segments2.length.bodd = false) :
    Shape.addRow operation y segments1 segments2 (.ofRows rows) =
      .ofRows (rows ++ compress (lastValue [] rows) [(y, mergeRow f segments1 segments2)]) := by
  have merged : mergeSegments operation 0 segments1 segments2 = mergeRow f segments1 segments2 :=
    mergeSegments_eq computes even even'
  unfold addRow
  rw [merged]
  simp only
  split_ifs with begun
  · apply appendSpan_ofRows
    rcases begun with nonempty | begun
    · exact Or.inr nonempty
    · left
      rintro rfl
      cases begun
  · rw [not_or, not_not] at begun
    rcases begun with ⟨none, notBegun⟩
    cases rows with
    | nil =>
      rw [none]
      rfl
    | cons row rows => exact absurd rfl notBegun

theorem mergeRow_left (segments : List Int) :
    mergeRow f segments [] = if operation.shouldAddRemainingSegmentsFromSpan1 then segments else [] :=
  mergeToggles_left_only computes.left false segments

theorem mergeRow_right (segments : List Int) :
    mergeRow f [] segments = if operation.shouldAddRemainingSegmentsFromSpan2 then segments else [] :=
  mergeToggles_right_only computes.right false segments

theorem sweep_eq {spans1 spans2 : List Span} {current1 current2 : List Int}
    {result : Rows} (ahead1 : Ahead shape1 spans1 current1 rows1)
    (ahead2 : Ahead shape2 spans2 current2 rows2) (last : lastValue [] result = mergeRow f current1 current2) :
    Shape.sweep operation shape1 shape2 spans1 spans2 current1 current2 (.ofRows result) =
      .ofRows (result ++ compress (mergeRow f current1 current2)
        (combine (mergeRow f) current1 current2 rows1 rows2)) := by
  induction size : rows1.length + rows2.length using Nat.strongRecOn
    generalizing spans1 spans2 current1 current2 rows1 rows2 result with
  | _ total ih =>
    cases rows1 with
    | nil =>
      rcases ahead1.nil with ⟨rfl, rfl⟩
      rw [sweep, combine_right_only]
      · simp only [ne_eq, not_true_eq_false, and_false, mergeRow_right computes] at last ⊢
        rw [computes.rightSpans]
        exact remaining_eq ahead2 last
      · simp
    | cons row1 rows1 =>
      rcases ahead1.cons with ⟨span1, rest1, rfl, place1, segments1⟩
      cases rows2 with
      | nil =>
        rcases ahead2.nil with ⟨rfl, rfl⟩
        rw [sweep, combine_left_only]
        · simp only [ne_eq, not_true_eq_false, and_false, mergeRow_left computes] at last ⊢
          rw [computes.leftSpans]
          exact remaining_eq ahead1 last
        · simp
      | cons row2 rows2 =>
        rcases ahead2.cons with ⟨span2, rest2, rfl, place2, segments2⟩
        rw [sweep]
        simp only [place1, place2, segments1, segments2]
        simp only [length_cons] at size
        -- A row is added for the next place, and the sweep goes on with what is current there.
        have goesOn {next1 next2 : List Span} {begun1 begun2 : List Int} {later1 later2 : Rows} {y : Int}
            (next : nextKey (row1 :: rows1) (row2 :: rows2) = some y)
            (left : pass y current1 (row1 :: rows1) = (begun1, later1))
            (right : pass y current2 (row2 :: rows2) = (begun2, later2))
            (ahead1 : Ahead shape1 next1 begun1 later1) (ahead2 : Ahead shape2 next2 begun2 later2)
            (less : later1.length + later2.length < total) :
            sweep operation shape1 shape2 next1 next2 begun1 begun2
                (addRow operation y begun1 begun2 (.ofRows result)) =
              .ofRows (result ++ compress (mergeRow f current1 current2)
                (combine (mergeRow f) current1 current2 (row1 :: rows1) (row2 :: rows2))) := by
          rw [addRow_ofRows computes y ahead1.evenCurrent ahead2.evenCurrent,
            ih _ less ahead1 ahead2 (lastValue_row _ _) rfl, last, append_assoc, combine_next next, left, right]
          exact congrArg (fun rows => ofRows (result ++ rows)) (compress_append _ [_] _).symm
        rcases lt_trichotomy row1.1 row2.1 with less | equal | greater
        · rw [if_pos (by omega)]
          exact goesOn (congrArg some (min_eq_left less.le)) (if_pos rfl) (if_neg less.ne') ahead1.next ahead2
            (by simp only [length_cons]; omega)
        · rw [if_neg (by omega), if_neg (by omega)]
          exact goesOn (congrArg some (min_eq_right equal.ge)) (if_pos equal) (if_pos rfl) ahead1.next ahead2.next (by omega)
        · rw [if_neg (by omega), if_pos (by omega)]
          exact goesOn (congrArg some (min_eq_right greater.le)) (if_neg greater.ne') (if_pos rfl) ahead1 ahead2.next
            (by simp only [length_cons]; omega)

theorem sweep_ofRows (first : rows1.WellFormed) (second : rows2.WellFormed) :
    Shape.sweep operation (.ofRows rows1) (.ofRows rows2) (Shape.ofRows rows1).spans (Shape.ofRows rows2).spans
      [] [] {} = .ofRows (mergeRows f rows1 rows2) := by
  have nothing : lastValue [] ([] : Rows) = mergeRow f [] [] := mergeToggles_nil.symm
  have swept := sweep_eq computes first.ahead second.ahead nothing
  rw [← nothing] at swept
  exact swept

end Computes

def Rows.contains (rows : Rows) (point : IntPoint) : Bool := covers (valueAt [] rows point.y) point.x

theorem valueAt_rows {property : List Int → Prop} (none : property []) (all : ∀ row ∈ rows, property row.2)
    (y : Int) : property (valueAt [] rows y) := by
  rcases valueAt_mem [] rows y with same | ⟨row, member, _, same⟩
  · rw [same]
    exact none
  · rw [← same]
    exact all row member

theorem mem_mergeRows (property : List Int → Prop) (none : property []) (left : ∀ row ∈ rows1, property row.2)
    (right : ∀ row ∈ rows2, property row.2) (merge : ∀ s t, property s → property t → property (mergeRow f s t)) :
    ∀ row ∈ mergeRows f rows1 rows2, property row.2 := by
  intro row member
  rcases (mem_combine ((compress_sublist _ _).subset member)).2 with ⟨s, t, value, from1, from2⟩
  rw [value]
  apply merge
  · rcases from1 with rfl | ⟨step, inside, rfl⟩
    · exact none
    · exact left step inside
  · rcases from2 with rfl | ⟨step, inside, rfl⟩
    · exact none
    · exact right step inside

variable (first : rows1.WellFormed) (second : rows2.WellFormed)
include first second

theorem unionShapes_ofRows :
    Shape.unionShapes (.ofRows rows1) (.ofRows rows2) = .ofRows (mergeRows (· || ·) rows1 rows2) := by
  have swept := sweep_ofRows union_computes first second
  cases rows1 with
  | nil =>
    have whole : mergeRows (· || ·) [] rows2 = rows2 := by
      rw [mergeRows, combine_right_only]
      simp only [mergeRow_right union_computes, Shape.UnionOperation, if_true, map_id']
      exact compress_of_changing second.changing
    rw [whole]
    rfl
  | cons row rows1 => exact swept

theorem mergeRows_contains (outside : f false false = false) (point : IntPoint) :
    (mergeRows f rows1 rows2).contains point = f (rows1.contains point) (rows2.contains point) := by
  have nothing : mergeRow f [] [] = [] := mergeToggles_nil
  have values := valueAt_combine (mergeRow f) [] [] first.increasing second.increasing point.y
  rw [nothing, ← valueAt_compress (combine_increasing _ _ _ first.increasing second.increasing)] at values
  show covers (valueAt [] (compress [] _) point.y) point.x = _
  rw [values]
  exact covers_mergeToggles outside (valueAt_rows List.Pairwise.nil first.ordered point.y)
    (valueAt_rows List.Pairwise.nil second.ordered point.y) point.x

theorem mergeRows_wellFormed (outside : f false false = false) : (mergeRows f rows1 rows2).WellFormed := by
  have nothing : mergeRow f [] [] = [] := mergeToggles_nil
  constructor
  · exact (combine_increasing _ _ _ first.increasing second.increasing).sublist (compress_sublist _ _)
  · exact compress_changing _ _
  · have last := lastValue_combine (mergeRow f) [] [] rows1 rows2
    rw [first.ended, second.ended, nothing] at last
    rw [mergeRows, lastValue_compress, last]
  · exact mem_mergeRows (List.Pairwise (· < ·)) List.Pairwise.nil first.ordered second.ordered
      (fun _ _ => mergeToggles_increasing)
  · exact mem_mergeRows (fun segments => segments.length.bodd = false) rfl first.even second.even
      (fun _ _ => mergeToggles_even outside)

end Odyssey.Graphics
