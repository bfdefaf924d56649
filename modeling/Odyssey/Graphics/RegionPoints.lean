import Odyssey.Graphics.RegionRows

namespace Odyssey.Graphics

open Containers List

/-- The segments of a row: they begin and end in turn, from left to right. -/
structure Segments (segments : List Int) : Prop where
  ordered : segments.Pairwise (· < ·)
  even : segments.length.bodd = false

theorem Segments.nil : Segments [] := ⟨List.Pairwise.nil, rfl⟩

theorem Rows.WellFormed.segments {rows : Rows} (wellFormed : rows.WellFormed) : ∀ row ∈ rows, Segments row.2 :=
  fun row member => ⟨wellFormed.ordered row member, wellFormed.even row member⟩

theorem Segments.induction {motive : (segments : List Int) → Segments segments → Prop} (nil : motive [] .nil)
    (pair : ∀ low high rest known, low < high → (∀ x ∈ rest, high < x) → (later : Segments rest) →
      motive rest later → motive (low :: high :: rest) known)
    (segments : List Int) (known : Segments segments) : motive segments known := by
  induction size : segments.length using Nat.strongRecOn generalizing segments with
  | _ length ih =>
    match segments, known with
    | [], _ => exact nil
    | [_], known => exact absurd known.even (by simp)
    | low :: high :: rest, known =>
      rcases pairwise_cons.mp known.ordered with ⟨first, ordered⟩
      rcases pairwise_cons.mp ordered with ⟨second, ordered⟩
      have even := known.even
      rw [length_cons, length_cons, Nat.bodd_succ, Nat.bodd_succ, Bool.not_not] at even
      have less : rest.length < length := by
        rw [← size, length_cons, length_cons]
        omega
      exact pair low high rest known (first high mem_cons_self) second ⟨ordered, even⟩
        (ih _ less rest ⟨ordered, even⟩ rfl)

theorem segmentsContain_eq {segments : List Int} (known : Segments segments) (x : Int) :
    Region.segmentsContain x segments = covers segments x := by
  induction segments, known using Segments.induction with
  | nil => rfl
  | pair low high rest _ _ _ _ ih =>
    rw [Region.segmentsContain, covers_pair, ih]
    by_cases begun : low ≤ x
    · rw [if_neg (by omega), if_pos begun]
      by_cases ended : high ≤ x
      · rw [if_neg (by omega), if_pos ended]
      · rw [if_pos (by omega), if_neg ended]
    · rw [if_pos (by omega), if_neg begun]

theorem spansContain_eq {shape : Shape} {spans : List Span} {rows : Rows} (reads : Reads shape spans rows)
    (increasing : Increasing rows) (ended : lastValue [] rows = []) (segments : ∀ row ∈ rows, Segments row.2)
    (point : IntPoint) : Region.spansContain shape point spans = rows.contains point := by
  induction rows generalizing spans with
  | nil =>
    cases spans with
    | nil => rfl
    | cons span spans => exact reads.elim
  | cons row rows ih =>
    cases spans with
    | nil => exact reads.elim
    | cons span spans =>
      rcases reads with ⟨place, here, later⟩
      cases rows with
      | nil =>
        cases spans with
        | nil =>
          have none : row.2 = [] := ended
          show false = covers (if row.1 ≤ point.y then row.2 else []) point.x
          rw [none, ite_self]
          rfl
        | cons next spans => exact later.elim
      | cons row' rows =>
        cases spans with
        | nil => exact later.elim
        | cons next spans =>
          have after := ih later (pairwise_cons.mp increasing).2 ended
            (fun other member => segments other (mem_cons_of_mem _ member))
          have known := segmentsContain_eq (segments row mem_cons_self) point.x
          rw [Region.spansContain, after, here, known, later.1]
          unfold Rows.contains
          simp only [valueAt]
          by_cases above : row.1 ≤ point.y
          · rw [if_neg (by omega), if_pos above]
            by_cases below : row'.1 ≤ point.y
            · rw [if_pos below, if_pos below, if_pos below]
            · rw [if_neg below, if_neg below, if_neg below, covers_nil, Bool.or_false]
          · rw [if_pos (by omega), if_neg above]
            rfl

def Rows.translate (rows : Rows) (offset : IntSize) : Rows :=
  rows.map (fun row => (row.1 + offset.height, row.2.map (· + offset.width)))

theorem translate_ofRows (rows : Rows) (offset : IntSize) :
    (Shape.ofRows rows).translate offset = .ofRows (rows.translate offset) := by
  have spans (start : Nat) : (offsets start rows).map (fun span => { span with y := span.y + offset.height }) =
      offsets start (rows.translate offset) := by
    induction rows generalizing start with
    | nil => rfl
    | cons row rows ih =>
      have later := ih (start + row.2.length)
      rw [offsets, map_cons, later]
      show _ = _ :: offsets (start + (row.2.map (· + offset.width)).length) _
      rw [length_map]
      rfl
  unfold Shape.translate
  rw [Shape.ofRows, spans, Shape.ofRows, Rows.translate, flatMap_map, map_flatMap]

variable {rows : Rows} (offset : IntSize)

theorem valueAt_translate (rows : Rows) (start : List Int) (y : Int) :
    valueAt (start.map (· + offset.width)) (rows.translate offset) (y + offset.height) =
      (valueAt start rows y).map (· + offset.width) := by
  induction rows generalizing start with
  | nil => rfl
  | cons row rows ih =>
    rw [Rows.translate, map_cons, valueAt, valueAt]
    by_cases reached : row.1 ≤ y
    · rw [if_pos reached, if_pos (by simpa using reached)]
      exact ih row.2
    · rw [if_neg reached, if_neg (by simpa using reached)]

theorem covers_translate (segments : List Int) (x width : Int) :
    covers (segments.map (· + width)) (x + width) = covers segments x := by
  have moved (inside : Bool) : valueAt inside (alternate inside (segments.map (· + width))) (x + width) =
      valueAt inside (alternate inside segments) x := by
    induction segments generalizing inside with
    | nil => rfl
    | cons toggle segments ih =>
      rw [map_cons, alternate, alternate, valueAt, valueAt, ih]
      by_cases reached : toggle ≤ x
      · rw [if_pos reached, if_pos (by simpa using reached)]
      · rw [if_neg reached, if_neg (by simpa using reached)]
  exact moved false

theorem translate_contains (x y : Int) :
    (rows.translate offset).contains ⟨x + offset.width, y + offset.height⟩ = rows.contains ⟨x, y⟩ := by
  have value := valueAt_translate offset rows [] y
  unfold Rows.contains
  rw [map_nil] at value
  rw [value, covers_translate]

theorem translate_wellFormed (wellFormed : rows.WellFormed) : (rows.translate offset).WellFormed := by
  have injective : Function.Injective (· + offset.width : Int → Int) := fun _ _ same => by simpa using same
  have changing (start : List Int) (changing : Changing start rows) :
      Changing (start.map (· + offset.width)) (rows.translate offset) := by
    clear wellFormed
    induction rows generalizing start with
    | nil => trivial
    | cons row rows ih =>
      exact ⟨fun same => changing.1 (map_injective_iff.mpr injective same), ih row.2 changing.2⟩
  have last (start : List Int) : lastValue (start.map (· + offset.width)) (rows.translate offset) =
      (lastValue start rows).map (· + offset.width) := by
    clear wellFormed changing
    induction rows generalizing start with
    | nil => rfl
    | cons row rows ih => exact ih row.2
  constructor
  · exact pairwise_map.mpr (wellFormed.increasing.imp (fun less => Int.add_lt_add_right less _))
  · exact changing [] wellFormed.changing
  · have ended := last []
    rw [wellFormed.ended] at ended
    exact ended
  · intro row member
    rcases mem_map.mp member with ⟨row, inside, rfl⟩
    exact pairwise_map.mpr ((wellFormed.ordered row inside).imp (fun less => Int.add_lt_add_right less _))
  · intro row member
    rcases mem_map.mp member with ⟨row, inside, rfl⟩
    simp only [length_map]
    exact wellFormed.even row inside

end Odyssey.Graphics
