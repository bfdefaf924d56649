import Odyssey.Graphics.RegionBounds

namespace Odyssey.Graphics

open Containers Shape List Option

@[simp] theorem firstFinding_cons (found : Bool) (result : Option Bool) (findings : List (Bool × Option Bool)) :
    firstFinding ((found, result) :: findings) = (if found then result else none).or (firstFinding findings) := by
  cases found <;> cases result <;> rfl

theorem Segments.cases {segments : List Int} (known : Segments segments) :
    segments = [] ∨ ∃ low high rest, segments = low :: high :: rest ∧ low < high ∧ (∀ x ∈ rest, high < x) ∧
      Segments rest := by
  induction segments, known using induction with
  | nil => exact .inl rfl
  | pair low high rest _ less beyond later _ => exact .inr ⟨low, high, rest, rfl, less, beyond, later⟩

theorem covers_pair_iff {low high : Int} {rest : List Int} (less : low < high) (beyond : ∀ x ∈ rest, high < x)
    (later : Segments rest) (x : Int) :
    (covers (low :: high :: rest) x = true ↔ low ≤ x ∧ x < high ∨ covers rest x = true) ∧
      (covers rest x = true → high < x) := by
  have reached : covers rest x = true → high < x := by
    intro covered
    rcases (later.between covered).1 with ⟨first, head, reached⟩
    have greater := beyond first (mem_of_head? head)
    omega
  rw [covers_pair]
  split_ifs <;> grind

section Steps

variable {a b a' b' : Int → Prop} {aX aMaxX bX bMaxX : Int} (lessA : aX < aMaxX) (lessB : bX < bMaxX)
  (first : ∀ x, (a x ↔ aX ≤ x ∧ x < aMaxX ∨ a' x) ∧ (a' x → aMaxX < x))
  (second : ∀ x, (b x ↔ bX ≤ x ∧ x < bMaxX ∨ b' x) ∧ (b' x → bMaxX < x))
include lessA lessB first second

theorem contains_step : (∀ x, b x → a x) ↔ aX ≤ bX ∧ (if aMaxX < bMaxX then ∀ x, b x → a' x
    else if bMaxX < aMaxX then ∀ x, b' x → a x else ∀ x, b' x → a' x) := by
  constructor
  · intro within
    have start := within bX
    have gap := within aMaxX
    constructor
    · grind
    · split_ifs <;> grind
  · rintro ⟨begun, rest⟩ x
    split_ifs at rest <;> grind

theorem intersects_step : (∀ x, ¬ (a x ∧ b x)) ↔ ¬ (aX < bMaxX ∧ bX < aMaxX) ∧
    (if aMaxX < bMaxX then ∀ x, ¬ (a' x ∧ b x)
    else if bMaxX < aMaxX then ∀ x, ¬ (a x ∧ b' x) else ∀ x, ¬ (a' x ∧ b' x)) := by
  constructor
  · intro apart
    have start := apart (max aX bX)
    constructor
    · grind
    · split_ifs <;> grind
  · rintro ⟨begun, rest⟩ x
    split_ifs at rest <;> grind

end Steps

inductive Compares : CompareOperation → (Bool → Bool → Prop) → Prop
  | contains : Compares CompareContainsOperation (fun a b => b = true → a = true)
  | intersects : Compares CompareIntersectsOperation (fun a b => ¬ (a = true ∧ b = true))

/-- The second rows have no place that the first ones do not have, from where both have begun. -/
def Within (a b : Rows) : Prop := ∀ point : IntPoint, (∀ row ∈ a.head?, row.1 ≤ point.y) →
  (∀ row ∈ b.head?, row.1 ≤ point.y) → b.contains point = true → a.contains point = true

variable {shape aShape bShape : Shape}

/-- The spans from here on are the rows, to the end of the shape. -/
structure Scanned (shape : Shape) (spans : List Span) (rows : Rows) : Prop where
  reads : Reads shape spans rows
  increasing : Increasing rows
  ended : lastValue [] rows = []
  segments : ∀ row ∈ rows, Segments row.2

theorem Rows.WellFormed.scanned {rows : Rows} (wellFormed : rows.WellFormed) :
    Scanned (.ofRows rows) (Shape.ofRows rows).spans rows :=
  ⟨ofRows_reads wellFormed.ended, wellFormed.increasing, wellFormed.ended, wellFormed.segments⟩

theorem Scanned.cases {spans : List Span} {rows : Rows} (scanned : Scanned shape spans rows) :
    (spans.length ≤ 1 ∧ ∀ point, rows.contains point = false) ∨
      ∃ span next rest row row' rows', spans = span :: next :: rest ∧ rows = row :: row' :: rows' ∧
        span.y = row.1 ∧ next.y = row'.1 ∧ row.1 < row'.1 ∧ shape.segmentsAt spans = row.2 ∧ Segments row.2 ∧
        Scanned shape (next :: rest) (row' :: rows') := by
  rcases scanned with ⟨reads, increasing, ended, segments⟩
  match spans, rows, reads with
  | [], [], _ => exact .inl ⟨Nat.zero_le _, fun _ => rfl⟩
  | [span], [row], _ =>
    refine .inl ⟨le_rfl, fun point => ?_⟩
    have none : row.2 = [] := ended
    show covers (if row.1 ≤ point.y then row.2 else []) point.x = false
    rw [none, ite_self]
    rfl
  | span :: next :: rest, row :: row' :: rows', reads =>
    rcases pairwise_cons.mp increasing with ⟨later, increasing⟩
    exact .inr ⟨span, next, rest, row, row', rows', rfl, rfl, reads.1, reads.2.2.1, later row' mem_cons_self,
      reads.2.1, segments row mem_cons_self, reads.2.2, increasing, ended,
      fun other member => segments other (mem_cons_of_mem _ member)⟩

section Contains

variable {row row' : Int × List Int} {rows : Rows} {point : IntPoint}

theorem contains_later (less : row.1 < row'.1) (reached : row'.1 ≤ point.y) :
    Rows.contains (row :: row' :: rows) point = Rows.contains (row' :: rows) point := by
  simp only [Rows.contains, valueAt]
  rw [if_pos (by omega), if_pos reached, if_pos reached]

theorem contains_here (reached : row.1 ≤ point.y) (before : point.y < row'.1) :
    Rows.contains (row :: row' :: rows) point = covers row.2 point.x := by
  simp only [Rows.contains, valueAt]
  rw [if_pos reached, if_neg (by omega)]

theorem contains_before (before : ¬ row.1 ≤ point.y) : Rows.contains (row :: rows) point = false := by
  rw [Rows.contains, valueAt, if_neg before, covers_nil]

end Contains

variable {operation : CompareOperation} {agree : Bool → Bool → Prop}

def AgreeFrom (agree : Bool → Bool → Prop) (a b : Rows) : Prop := ∀ point : IntPoint,
  (∀ row ∈ a.head?, row.1 ≤ point.y) → (∀ row ∈ b.head?, row.1 ≤ point.y) → agree (a.contains point) (b.contains point)

theorem agreeFrom_swap {a b : Rows} : AgreeFrom agree a b ↔ AgreeFrom (fun second first => agree first second) b a :=
  ⟨fun agrees point left right => agrees point right left, fun agrees point left right => agrees point right left⟩

theorem agreeFrom_advance {row row' : Int × List Int} {rows b : Rows}
    (less : row.1 < row'.1) (here : ∀ point : IntPoint, row.1 ≤ point.y → point.y < row'.1 →
      (∀ other ∈ b.head?, other.1 ≤ point.y) → agree (covers row.2 point.x) (b.contains point)) :
    AgreeFrom agree (row' :: rows) b ↔ AgreeFrom agree (row :: row' :: rows) b := by
  constructor
  · intro agrees point reached reached'
    by_cases later : row'.1 ≤ point.y
    · rw [contains_later less later]
      exact agrees point (by simpa using later) reached'
    · have begun := reached row rfl
      rw [contains_here begun (by omega)]
      exact here point begun (by omega) reached'
  · intro agrees point reached reached'
    have later := reached row' rfl
    rw [← contains_later less later]
    exact agrees point (by rintro _ ⟨⟩; omega) reached'

/-- The second rows end after the first have begun, and have no segments before that follow a row without. -/
def Begun (aHad : Bool) (a b : Rows) : Prop := ∀ aRow ∈ a.head?, ∀ bRow bRow' rest, b = bRow :: bRow' :: rest →
  aRow.1 < bRow'.1 ∧ (bRow.1 < aRow.1 → aHad = false → bRow.2 = [])

theorem Scanned.point {spans : List Span} {row row' : Int × List Int} {rows : Rows} {start : List Int} {y : Int}
    (scanned : Scanned shape spans (row :: row' :: rows)) (changing : Changing start (row :: row' :: rows))
    (before : y < row'.1) :
    ∃ point, y ≤ point.y ∧ row.1 ≤ point.y ∧ Rows.contains (row :: row' :: rows) point = true := by
  have less := (pairwise_cons.mp scanned.increasing).1 row' mem_cons_self
  by_cases empty : row.2 = []
  · have filled : row'.2 ≠ [] := fun none => changing.2.1 (none.trans empty.symm)
    have value : valueAt [] (row :: row' :: rows) row'.1 = row'.2 :=
      valueAt_row scanned.increasing (mem_cons_of_mem row mem_cons_self) []
    obtain ⟨x, covered⟩ := (scanned.segments row' (mem_cons_of_mem row mem_cons_self)).point filled
    exact ⟨⟨x, row'.1⟩, before.le, less.le, by rw [Rows.contains, value]; exact covered⟩
  · obtain ⟨x, covered⟩ := (scanned.segments row mem_cons_self).point empty
    refine ⟨⟨x, max y row.1⟩, le_max_left _ _, le_max_right _ _, ?_⟩
    rw [contains_here (le_max_right _ _) (max_lt before less)]
    exact covered

theorem Rows.WellFormed.reached {rows : Rows} (wellFormed : rows.WellFormed) {point : IntPoint}
    (inside : rows.contains point = true) : ∀ row ∈ rows.head?, row.1 ≤ point.y := by
  intro row head
  rcases (wellFormed.between inside).1 with ⟨other, member, below, _⟩
  rcases head?_eq_some_iff.mp head with ⟨rest, begins⟩
  exact (wellFormed.first_le begins member).trans below

variable (known : Compares operation agree)
include known

theorem compareSegments_spec {a b : List Int} (first : Segments a) (second : Segments b) :
    ((∀ x, agree (covers a x) (covers b x)) → compareSegments operation a b = none) ∧
      (¬ (∀ x, agree (covers a x) (covers b x)) →
        compareSegments operation a b = some (!operation.defaultResult)) := by
  induction size : a.length + b.length using Nat.strongRecOn generalizing a b with
  | _ length ih =>
    rcases second.cases with rfl | ⟨bX, bMaxX, restB, rfl, lessB, beyondB, laterB⟩
    · rw [compareSegments.eq_2 _ _ _ (by simp)]
      cases known <;> simp [firstFinding, CompareContainsOperation, CompareIntersectsOperation, covers_nil]
    have coveredB := covers_pair_iff lessB beyondB laterB
    rcases first.cases with rfl | ⟨aX, aMaxX, restA, rfl, lessA, beyondA, laterA⟩
    · rw [compareSegments.eq_2 _ _ _ (by simp)]
      have here := (coveredB bX).1.mpr (.inl ⟨le_rfl, lessB⟩)
      cases known with
      | contains => exact ⟨fun within => absurd (within bX here) Bool.false_ne_true, fun _ => rfl⟩
      | intersects => exact ⟨fun _ => rfl, fun apart => absurd (fun x both => absurd both.1 Bool.false_ne_true) apart⟩
    have coveredA := covers_pair_iff lessA beyondA laterA
    simp only [length_cons] at size
    rw [compareSegments]
    have nextA := ih _ (by simp only [length_cons]; omega) laterA second rfl
    have nextB := ih _ (by simp only [length_cons]; omega) first laterB rfl
    have next := ih _ (by omega) laterA laterB rfl
    cases known with
    | contains =>
      rw [contains_step lessA lessB coveredA coveredB]
      by_cases outside : bX < aX
      · simp [outside, CompareContainsOperation]
      · simp only [firstFinding_cons, CompareContainsOperation, ite_self, outside, decide_false,
          Bool.false_eq_true, if_false, not_lt.mp outside, true_and]
        split_ifs
        · exact nextA
        · exact nextB
        · exact next
    | intersects =>
      rw [intersects_step lessA lessB coveredA coveredB]
      by_cases overlap : aX < bMaxX ∧ bX < aMaxX
      · simp [overlap, CompareIntersectsOperation]
      · simp only [firstFinding_cons, CompareIntersectsOperation, ite_self, ← Bool.decide_and, overlap, decide_false,
          Bool.false_eq_true, if_false, not_false_eq_true,
          true_and]
        split_ifs
        · exact nextA
        · exact nextB
        · exact next

theorem compareSpans_end {aHad bHad : Bool} {aSpans bSpans : List Span}
    (short : aSpans.length ≤ 1 ∨ bSpans.length ≤ 1) :
    compareSpans operation aShape bShape aHad bHad aSpans bSpans = operation.defaultResult ↔
      (operation.bOutsideA ≠ none → ¬ bSpans.length > 1) := by
  rw [compareSpans.eq_2]
  · by_cases more : bSpans.length > 1
    · cases known <;> simp [firstFinding, CompareContainsOperation, CompareIntersectsOperation, more]
    · cases known <;> simp [firstFinding, CompareContainsOperation, CompareIntersectsOperation, more]
  · rintro aSpan aNext restA bSpan bNext restB rfl rfl
    simp only [length_cons] at short
    omega

theorem compareSpans_spec {aHad bHad : Bool} {aSpans bSpans : List Span} {a b : Rows} {start : List Int}
    (first : Scanned aShape aSpans a) (second : Scanned bShape bSpans b) (changing : Changing start b)
    (begun : operation.bOutsideA ≠ none → Begun aHad a b) :
    compareSpans operation aShape bShape aHad bHad aSpans bSpans = operation.defaultResult ↔ AgreeFrom agree a b := by
  induction size : aSpans.length + bSpans.length using Nat.strongRecOn
    generalizing aHad bHad aSpans bSpans a b start with
  | _ length ih =>
    rcases second.cases with ⟨short, none⟩ |
      ⟨bSpan, bNext, restB, bRow, bRow', rowsB, rfl, rfl, placeB, placeB', lessB, hereB, knownB, laterB⟩
    · rw [compareSpans_end known (.inr short)]
      refine iff_of_true (fun _ => short.not_gt) fun point _ _ => ?_
      rw [none]
      cases known <;> simp
    rcases first.cases with ⟨short, none⟩ |
      ⟨aSpan, aNext, restA, aRow, aRow', rowsA, rfl, rfl, placeA, placeA', lessA, hereA, knownA, laterA⟩
    · rw [compareSpans_end known (.inl short)]
      cases known with
      | contains =>
        refine iff_of_false (fun ended => ended (some_ne_none _) (by simp)) fun agrees => ?_
        obtain ⟨y, before, reached⟩ : ∃ y, y < bRow'.1 ∧ ∀ row ∈ a.head?, row.1 ≤ y := by
          cases head : a.head? with
          | none => exact ⟨bRow.1, lessB, by simp⟩
          | some row => exact ⟨row.1, (begun (some_ne_none _) row head bRow bRow' rowsB rfl).1, by simp⟩
        obtain ⟨point, after, after', inside⟩ := second.point changing before
        have inside' := agrees point (fun row head => (reached row head).trans after) (by simpa using after') inside
        rw [none] at inside'
        cases inside'
      | intersects =>
        refine iff_of_true (fun outside => absurd rfl outside) fun point _ _ => ?_
        rw [none]
        simp
    rw [compareSpans]
    simp only [hereA, hereB, placeA, placeA', placeB, placeB']
    have calm : firstFinding [(decide (aRow.1 < bRow.1) && !bHad && decide (aRow.2 ≠ []), operation.aOutsideB),
        (decide (bRow.1 < aRow.1) && !aHad && decide (bRow.2 ≠ []), operation.bOutsideA)] = none := by
      cases known with
      | contains =>
        have quiet := (begun (some_ne_none _) aRow rfl bRow bRow' rowsB rfl).2
        simpa [firstFinding, CompareContainsOperation] using quiet
      | intersects => simp [firstFinding, CompareIntersectsOperation]
    have segments := compareSegments_spec known knownA knownB
    simp only [calm, none_or]
    by_cases clean : bRow'.1 > aRow.1 ∧ bRow.1 < aRow'.1 → ∀ x, agree (covers aRow.2 x) (covers bRow.2 x)
    swap
    · obtain ⟨overlap, fault⟩ := Classical.not_imp.mp clean
      rw [if_pos overlap, segments.2 fault]
      refine iff_of_false (by simp) fun agrees => fault fun x => ?_
      have agrees := agrees ⟨x, max aRow.1 bRow.1⟩ (by simp) (by simp)
      rwa [contains_here (le_max_left _ _) (max_lt lessA overlap.2),
        contains_here (le_max_right _ _) (max_lt overlap.1 lessB)] at agrees
    have nothing : (if bRow'.1 > aRow.1 ∧ bRow.1 < aRow'.1 then compareSegments operation aRow.2 bRow.2
        else none) = none := by
      split_ifs with overlap
      · exact segments.1 (clean overlap)
      · rfl
    rw [nothing]
    have forward : bRow'.1 ≤ aRow'.1 → (AgreeFrom agree (aRow :: aRow' :: rowsA) (bRow' :: rowsB) ↔
        AgreeFrom agree (aRow :: aRow' :: rowsA) (bRow :: bRow' :: rowsB)) := by
      intro order
      rw [agreeFrom_swap, agreeFrom_swap (b := bRow :: _)]
      apply agreeFrom_advance lessB
      intro point reached before reached'
      have reachedA := reached' aRow rfl
      rw [contains_here reachedA (by omega)]
      exact clean ⟨by omega, by omega⟩ point.x
    have begun' {aHad : Bool} {row : Int × List Int} {rows : Rows} (before : row.1 ≤ bRow'.1) :
        Begun aHad (row :: rows) (bRow' :: rowsB) := by
      rintro _ ⟨⟩ _ next _ ⟨⟩
      have less := (pairwise_cons.mp laterB.increasing).1 next mem_cons_self
      exact ⟨by omega, fun below => absurd below (by omega)⟩
    simp only [length_cons] at size
    split_ifs with orderA orderB
    · rw [ih _ (by simp only [length_cons]; omega) laterA second changing _ rfl]
      · apply agreeFrom_advance lessA
        intro point reached before reached'
        have reachedB := reached' bRow rfl
        rw [contains_here reachedB (by omega)]
        exact clean ⟨by omega, by omega⟩ point.x
      · rintro outside _ ⟨⟩ _ _ _ ⟨⟩
        refine ⟨orderA, fun below had => ?_⟩
        by_contra filled
        obtain ⟨x, covered⟩ := knownB.point filled
        have within := clean ⟨(begun outside aRow rfl _ _ _ rfl).1, below⟩ x
        rw [of_not_not (of_decide_eq_false had), covered] at within
        cases known with
        | contains => cases within rfl
        | intersects => exact outside rfl
    · rw [ih _ (by simp only [length_cons]; omega) first laterB changing.2 _ rfl]
      · exact forward orderB.le
      · exact fun outside => begun' (begun outside aRow rfl _ _ _ rfl).1.le
    · rw [ih _ (by simp only [length_cons]; omega) laterA laterB changing.2 _ rfl, ← forward (by omega)]
      · apply agreeFrom_advance lessA
        intro point reached before reached'
        have := reached' bRow' rfl
        omega
      · exact fun _ => begun' (by omega)

theorem compareShapes_spec {a b : Rows} (first : a.WellFormed) (second : b.WellFormed)
    (above : operation.bOutsideA ≠ none → ∀ row ∈ a.head?, ∀ row' ∈ b.head?, row.1 ≤ row'.1) :
    compareShapes operation (.ofRows a) (.ofRows b) = operation.defaultResult ↔
      ∀ point, agree (a.contains point) (b.contains point) := by
  rw [compareShapes, compareSpans_spec known first.scanned second.scanned second.changing]
  · refine ⟨fun agrees point => ?_, fun agrees point _ _ => agrees point⟩
    by_cases inside : b.contains point = true
    · cases known with
      | contains =>
        obtain ⟨row', rest, begins⟩ := exists_cons_of_ne_nil (ne_nil_of_mem (second.between inside).1.choose_spec.1)
        have head : row' ∈ b.head? := head?_eq_some_iff.mpr ⟨rest, begins⟩
        have within : Within a b := agrees
        exact within point (fun row begun => (above (some_ne_none _) row begun row' head).trans
          (second.reached inside row' head)) (second.reached inside)
      | intersects =>
        exact fun both => agrees point (first.reached both.1) (second.reached both.2) both
    · rw [Bool.not_eq_true] at inside
      rw [inside]
      cases known <;> simp
  · rintro outside row head _ _ _ rfl
    have order := above outside row head _ rfl
    have less := (pairwise_cons.mp second.increasing).1 _ mem_cons_self
    exact ⟨by omega, fun below => absurd below (by omega)⟩

end Odyssey.Graphics
