import Odyssey.Graphics.RegionPoints

namespace Odyssey.Graphics

open Containers List Option Prod Shape

def Rows.points (rows : Rows) : Set IntPoint := {point | rows.contains point = true}

structure IsBounds (rect : IntRect) (points : Set IntPoint) : Prop where
  inside : ∀ point ∈ points, rect.containsPoint point = true
  left : ∃ y, ⟨rect.x, y⟩ ∈ points
  right : ∃ y, ⟨rect.maxX - 1, y⟩ ∈ points
  top : ∃ x, ⟨x, rect.y⟩ ∈ points
  bottom : ∃ x, ⟨x, rect.maxY - 1⟩ ∈ points

section Segments

variable {segments : List Int}

variable (known : Segments segments)
include known

theorem Segments.between {x : Int} (covered : covers segments x = true) :
    (∃ low ∈ segments.head?, low ≤ x) ∧ ∃ high ∈ segments.getLast?, x < high := by
  induction segments, known using induction with
  | nil => cases covered
  | pair low high rest _ less beyond later ih =>
    rw [covers_pair] at covered
    split at covered
    · rename_i begun
      refine ⟨⟨low, rfl, begun⟩, ?_⟩
      split at covered
      · rcases (ih covered).2 with ⟨last, member, below⟩
        refine ⟨last, ?_, below⟩
        rw [getLast?_cons_cons, getLast?_cons, member]
        rfl
      · cases rest with
        | nil => exact ⟨high, rfl, by omega⟩
        | cons next rest =>
          have found := getLast?_eq_some_getLast (cons_ne_nil next rest)
          have greater := beyond _ (mem_of_getLast? found)
          exact ⟨_, found, by omega⟩
    · cases covered

theorem Segments.covers_head {low : Int} (head : segments.head? = some low) : covers segments low = true := by
  induction segments, known using induction with
  | nil => cases head
  | pair low' high rest _ less beyond later ih =>
    cases head
    rw [covers_pair, if_pos le_rfl, if_neg less.not_ge]

theorem Segments.covers_last {high : Int} (last : segments.getLast? = some high) :
    covers segments (high - 1) = true := by
  induction segments, known using induction with
  | nil => cases last
  | pair low high' rest _ less beyond later ih =>
    rw [covers_pair]
    cases rest with
    | nil =>
      have same : high' = high := some.inj last
      rw [if_pos (by omega), if_neg (by omega)]
    | cons next rest =>
      have greater := beyond high (mem_of_getLast? last)
      rw [if_pos (by omega), if_pos (by omega)]
      exact ih last

theorem Segments.point (filled : segments ≠ []) : ∃ x, covers segments x = true := by
  obtain ⟨x, found⟩ := ne_none_iff_exists'.mp (mt head?_eq_none_iff.mp filled)
  exact ⟨x, known.covers_head found⟩

end Segments

variable {rows : Rows} {row : Int × List Int} {x : Int}

theorem valueAt_row (increasing : Increasing rows) (member : row ∈ rows) (start : List Int) :
    valueAt start rows row.1 = row.2 := by
  induction rows generalizing start with
  | nil => cases member
  | cons first rows ih =>
    rcases pairwise_cons.mp increasing with ⟨later, increasing⟩
    rw [valueAt]
    rcases mem_cons.mp member with rfl | member
    · rw [if_pos le_rfl]
      exact valueAt_before later
    · rw [if_pos (later row member).le]
      exact ih increasing member first.2

theorem head_flat (found : (rows.flatMap Prod.snd).head? = some x) : ∃ row ∈ rows, row.2.head? = some x := by
  rw [head?_flatMap] at found
  exact exists_of_findSome?_eq_some found

theorem last_flat (found : (rows.flatMap Prod.snd).getLast? = some x) : ∃ row ∈ rows, row.2.getLast? = some x := by
  rw [getLast?_flatMap] at found
  obtain ⟨row, member, last⟩ := exists_of_findSome?_eq_some found
  exact ⟨row, mem_reverse.mp member, last⟩

/-- The range from the first to the last segment ends of some rows, which extends another one. -/
structure Extends (rows some : Rows) (minX maxX : Int) (range : Int × Int) : Prop where
  low : range.1 ≤ minX
  high : maxX ≤ range.2
  first : ∀ row ∈ some, ∀ x ∈ row.2.head?, range.1 ≤ x
  last : ∀ row ∈ some, ∀ x ∈ row.2.getLast?, x ≤ range.2
  isFirst : range.1 = minX ∨ ∃ row ∈ rows, row.2.head? = Option.some range.1
  isLast : range.2 = maxX ∨ ∃ row ∈ rows, row.2.getLast? = Option.some range.2

theorem flat_of_lastValue (last : lastValue [] rows ≠ []) : rows.flatMap Prod.snd ≠ [] := by
  rcases eq_nil_or_concat rows with rfl | ⟨front, row, rfl⟩
  · exact absurd rfl last
  · rw [concat_eq_append, lastValue_append] at last
    rw [concat_eq_append, flatMap_append, flatMap_singleton]
    exact append_ne_nil_of_right_ne_nil _ last

theorem getD_last {before after : List Int} (last : before.getLast? = some x) :
    (before ++ after).getD (before.length - 1) 0 = x := by
  have positive : 0 < before.length := length_pos_of_mem (mem_of_getLast? last)
  rw [getD_eq_getElem?_getD, getElem?_append_left (by omega), ← getLast?_eq_getElem?, last]
  rfl

theorem outerSegments_eq {shape : Shape} {before rest : Rows} {next : Int × List Int}
    (whole : shape.segments = (before ++ row :: next :: rest).flatMap Prod.snd)
    (changes : row.2 ≠ lastValue [] before) (changes' : next.2 ≠ row.2) :
    ∃ first last, shape.outerSegments ⟨row.1, (before.flatMap Prod.snd).length⟩
        ⟨next.1, (before.flatMap Prod.snd).length + row.2.length⟩ = some (first, last) ∧
      ((row :: next :: rest).flatMap Prod.snd).head? = some first ∧
      ((before ++ [row]).flatMap Prod.snd).getLast? = some last := by
  have after : (row :: next :: rest).flatMap snd ≠ [] := by
    intro none
    rw [flatMap_cons, flatMap_cons, append_eq_nil_iff, append_eq_nil_iff] at none
    exact changes' (none.2.1.trans none.1.symm)
  have upTo : (before ++ [row]).flatMap snd ≠ [] := by
    rw [flatMap_append, flatMap_singleton]
    by_cases none : row.2 = []
    · rw [none] at changes
      exact append_ne_nil_of_left_ne_nil (flat_of_lastValue changes.symm) _
    · exact append_ne_nil_of_right_ne_nil _ none
  rcases ne_none_iff_exists'.mp (mt head?_eq_none_iff.mp after) with ⟨first, head⟩
  rcases ne_none_iff_exists'.mp (mt getLast?_eq_none_iff.mp upTo) with ⟨last, found⟩
  have size := length_pos_of_ne_nil after
  have left : shape.segments.getD (before.flatMap snd).length 0 = first := by
    rw [whole, flatMap_append, getD_eq_getElem?_getD, getElem?_append_right (le_refl _), Nat.sub_self,
      ← head?_eq_getElem?, head]
    rfl
  have right : shape.segments.getD ((before.flatMap snd).length + row.2.length - 1) 0 = last := by
    have split := append_cons before row (next :: rest)
    have length : ((before ++ [row]).flatMap snd).length = (before.flatMap snd).length + row.2.length := by simp
    rw [whole, split, flatMap_append, ← length]
    exact getD_last found
  refine ⟨first, last, ?_, head, found⟩
  unfold outerSegments
  rw [left, right, if_neg]
  rw [whole, flatMap_append, length_append]
  simp only
  omega

theorem Extends.cons {all : Rows} {first last minX maxX : Int} {range : Int × Int}
    (later : Extends all rows (if first < minX then first else minX) (if last > maxX then last else maxX) range)
    (head : ∀ x ∈ row.2.head?, x = first) (tail : ∀ x ∈ row.2.getLast?, x = last)
    (isFirst : ∃ row ∈ all, row.2.head? = some first) (isLast : ∃ row ∈ all, row.2.getLast? = some last) :
    Extends all (row :: rows) minX maxX range := by
  have low := later.low
  have high := later.high
  constructor
  · split_ifs at low <;> omega
  · split_ifs at high <;> omega
  · intro other member x found
    rcases mem_cons.mp member with rfl | member
    · rw [head x found]
      split_ifs at low <;> omega
    · exact later.first other member x found
  · intro other member x found
    rcases mem_cons.mp member with rfl | member
    · rw [tail x found]
      split_ifs at high <;> omega
    · exact later.last other member x found
  · rcases later.isFirst with same | isFirst
    · split_ifs at same
      · exact .inr (same ▸ isFirst)
      · exact .inl same
    · exact .inr isFirst
  · rcases later.isLast with same | isLast
    · split_ifs at same
      · exact .inr (same ▸ isLast)
      · exact .inl same
    · exact .inr isLast

theorem extend_spec {shape : Shape} (before : Rows) (whole : shape.segments = (before ++ rows).flatMap Prod.snd)
    (changing : Changing (lastValue [] before) rows) (ended : lastValue [] rows = []) (minX maxX : Int) :
    Extends (before ++ rows) rows minX maxX
      (shape.extend minX maxX (offsets (before.flatMap Prod.snd).length rows)) := by
  induction rows generalizing before minX maxX with
  | nil =>
    exact ⟨le_rfl, le_rfl, fun _ member => absurd member not_mem_nil,
      fun _ member => absurd member not_mem_nil, .inl rfl, .inl rfl⟩
  | cons row rows ih =>
    cases rows with
    | nil =>
      have none : row.2 = [] := ended
      refine ⟨le_rfl, le_rfl, ?_, ?_, .inl rfl, .inl rfl⟩
      all_goals
        intro other member x found
        rw [mem_singleton.mp member, none] at found
        cases found
    | cons next rest =>
      rcases outerSegments_eq whole changing.1 changing.2.1 with ⟨first, last, outer, head, tail⟩
      have split := append_cons before row (next :: rest)
      have length : ((before ++ [row]).flatMap snd).length = (before.flatMap snd).length + row.2.length := by simp
      have later := ih (before ++ [row]) (split ▸ whole) (by rw [lastValue_append]; exact changing.2) ended
        (if first < minX then first else minX) (if last > maxX then last else maxX)
      rw [length, ← split] at later
      show Extends _ _ _ _ (shape.extend minX maxX (⟨row.1, _⟩ :: ⟨next.1, _⟩ :: _))
      rw [extend, outer]
      apply later.cons
      · intro x found
        rw [flatMap_cons, head?_append, mem_def.mp found] at head
        exact some.inj head
      · intro x found
        rw [flatMap_append, flatMap_singleton, getLast?_append, mem_def.mp found] at tail
        exact some.inj tail
      · rcases head_flat head with ⟨other, member, found⟩
        exact ⟨other, mem_append_right _ member, found⟩
      · rcases last_flat tail with ⟨other, member, found⟩
        refine ⟨other, ?_, found⟩
        rw [split]
        exact mem_append_left _ member

def Rows.InRange (rows : Rows) : Prop := ∀ row ∈ rows, ∀ x ∈ row.2, -2^31 ≤ x ∧ x < 2^31

variable {rows : Rows}

theorem mergeRows_inRange {f : Bool → Bool → Bool} {rows1 rows2 : Rows} (first : rows1.InRange)
    (second : rows2.InRange) : (mergeRows f rows1 rows2).InRange := by
  apply mem_mergeRows (fun segments => ∀ x ∈ segments, -2^31 ≤ x ∧ x < 2^31)
    (fun _ member => absurd member not_mem_nil) first second
  intro s t left right x member
  exact (mem_mergeToggles member).elim (left x) (right x)

variable {row : Int × List Int} {rest front : Rows}

theorem Rows.WellFormed.first (wellFormed : rows.WellFormed) (begins : rows = row :: rest) : row.2 ≠ [] := by
  have changing := wellFormed.changing
  rw [begins] at changing
  exact changing.1

theorem Rows.WellFormed.last (wellFormed : rows.WellFormed) (ends : rows = front ++ [row]) :
    row.2 = [] ∧ lastValue [] front ≠ [] := by
  have changing := wellFormed.changing
  have ended := wellFormed.ended
  rw [ends, lastValue_append] at ended
  rw [ends, changing_append] at changing
  exact ⟨ended, fun none => changing.2.1 (ended.trans none.symm)⟩

theorem valueAt_last (increasing : Increasing (front ++ [row])) (start : List Int) :
    valueAt start (front ++ [row]) (row.1 - 1) = lastValue start front := by
  induction front generalizing start with
  | nil => exact if_neg (by omega)
  | cons first front ih =>
    rcases pairwise_cons.mp increasing with ⟨later, increasing⟩
    have less := later row (mem_append_right _ (mem_singleton_self row))
    rw [cons_append, valueAt, if_pos (by omega)]
    exact ih increasing first.2

theorem Extends.reached {range : Int × Int} (extended : Extends rows rows (2^31 - 1) (-2^31) range)
    (inRange : rows.InRange) (wellFormed : rows.WellFormed) (some : rows ≠ []) :
    (∃ row ∈ rows, row.2.head? = Option.some range.1) ∧ ∃ row ∈ rows, row.2.getLast? = Option.some range.2 := by
  rcases exists_cons_of_ne_nil some with ⟨row, rest, begins⟩
  have member : row ∈ rows := begins ▸ mem_cons_self
  have filled := wellFormed.first begins
  constructor
  · rcases extended.isFirst with limit | reached
    · rcases ne_none_iff_exists'.mp (mt head?_eq_none_iff.mp filled) with ⟨x, head⟩
      have least := extended.first row member x head
      have range := inRange row member x (mem_of_head? head)
      exact ⟨row, member, head.trans (congrArg _ (by omega))⟩
    · exact reached
  · rcases extended.isLast with limit | reached
    · rcases ne_none_iff_exists'.mp (mt getLast?_eq_none_iff.mp filled) with ⟨x, last⟩
      have greatest := extended.last row member x last
      have range := inRange row member x (mem_of_getLast? last)
      exact ⟨row, member, last.trans (congrArg _ (by omega))⟩
    · exact reached

theorem bounds_eq {last : Int × List Int} (begins : rows = row :: rest) (ends : rows = front ++ [last])
    {range : Int × Int} (extended : (ofRows rows).extend (2^31 - 1) (-2^31) (offsets 0 rows) = range) :
    (ofRows rows).bounds = ⟨range.1, row.1, range.2 - range.1, last.1 - row.1⟩ := by
  have head : (ofRows rows).spans.head? = some ⟨row.1, 0⟩ := by
    rw [begins]
    rfl
  have tail : (ofRows rows).spans.getLast? = some ⟨last.1, 0 + (front.flatMap snd).length⟩ := by
    show (offsets 0 rows).getLast? = _
    rw [ends, offsets_append, getLast?_concat]
  unfold bounds
  rw [head, tail, ← extended]
  rfl

variable (wellFormed : rows.WellFormed)
include wellFormed

theorem Rows.WellFormed.first_le {other : Int × List Int}
    (begins : rows = row :: rest) (member : other ∈ rows) : row.1 ≤ other.1 := by
  have increasing := wellFormed.increasing
  rw [begins] at increasing member
  rcases mem_cons.mp member with rfl | member
  · exact le_rfl
  · exact ((pairwise_cons.mp increasing).1 other member).le

theorem Rows.WellFormed.le_last {other : Int × List Int}
    (ends : rows = front ++ [row]) (member : other ∈ rows) : other.1 ≤ row.1 := by
  have increasing := wellFormed.increasing
  rw [ends] at increasing member
  rcases mem_append.mp member with member | member
  · exact ((pairwise_append.mp increasing).2.2 other member row (mem_singleton_self row)).le
  · rw [mem_singleton.mp member]

theorem Rows.WellFormed.between {point : IntPoint} (inside : rows.contains point = true) :
    (∃ row ∈ rows, row.1 ≤ point.y ∧ covers row.2 point.x = true) ∧ ∃ row ∈ rows, point.y < row.1 := by
  constructor
  · rcases valueAt_mem [] rows point.y with none | ⟨row, member, reached, value⟩
    · rw [contains, none] at inside
      cases inside
    · rw [contains, ← value] at inside
      exact ⟨row, member, reached, inside⟩
  · by_contra after
    have none : valueAt [] rows point.y = [] := by
      rw [valueAt_after, wellFormed.ended]
      intro row member
      exact le_of_not_gt (fun below => after ⟨row, member, below⟩)
    rw [contains, none] at inside
    cases inside

theorem Rows.WellFormed.point {y : Int} (filled : valueAt [] rows y ≠ []) : ∃ x, rows.contains ⟨x, y⟩ = true :=
  (valueAt_rows Segments.nil wellFormed.segments y).point filled

theorem bounds_ofRows (inRange : rows.InRange) (some : rows ≠ []) : IsBounds (ofRows rows).bounds rows.points := by
  have segments := wellFormed.segments
  rcases exists_cons_of_ne_nil some with ⟨row, rest, begins⟩
  rcases (eq_nil_or_concat rows).resolve_left some with ⟨front, last, ends⟩
  rw [concat_eq_append] at ends
  have extended : Extends ([] ++ rows) rows (2^31 - 1) (-2^31)
      ((ofRows rows).extend (2^31 - 1) (-2^31) (offsets 0 rows)) :=
    extend_spec [] rfl wellFormed.changing wellFormed.ended _ _
  generalize computed : (ofRows rows).extend (2^31 - 1) (-2^31) (offsets 0 rows) = range at extended
  rw [bounds_eq begins ends computed]
  rcases Extends.reached extended inRange wellFormed some with ⟨⟨left, leftIn, head⟩, ⟨right, rightIn, tail⟩⟩
  constructor
  · intro point inside
    rcases wellFormed.between inside with ⟨⟨at', member, reached, covered⟩, after, member', below⟩
    rcases (segments at' member).between covered with ⟨⟨low, isLow, lowest⟩, high, isHigh, highest⟩
    have least := extended.first at' member low isLow
    have greatest := extended.last at' member high isHigh
    have above := wellFormed.first_le begins member
    have under := wellFormed.le_last ends member'
    rw [IntRect.containsPoint_iff]
    show range.1 ≤ point.x ∧ point.x < range.1 + (range.2 - range.1) ∧ row.1 ≤ point.y ∧
      point.y < row.1 + (last.1 - row.1)
    omega
  · refine ⟨left.1, ?_⟩
    rw [Rows.points, Set.mem_ofPred_eq, Rows.contains, valueAt_row wellFormed.increasing leftIn]
    exact (segments left leftIn).covers_head head
  · have same : range.1 + (range.2 - range.1) - 1 = range.2 - 1 := by omega
    refine ⟨right.1, ?_⟩
    rw [Rows.points, Set.mem_ofPred_eq, Rows.contains, valueAt_row wellFormed.increasing rightIn, IntRect.maxX, same]
    exact (segments right rightIn).covers_last tail
  · have member : row ∈ rows := begins ▸ mem_cons_self
    have filled := wellFormed.first begins
    rw [← valueAt_row wellFormed.increasing member []] at filled
    exact wellFormed.point filled
  · have filled := (wellFormed.last ends).2
    have increasing := wellFormed.increasing
    rw [ends] at increasing
    rw [← valueAt_last increasing, ← ends] at filled
    have same : row.1 + (last.1 - row.1) - 1 = last.1 - 1 := by omega
    rw [IntRect.maxY, same]
    exact wellFormed.point filled

end Odyssey.Graphics
