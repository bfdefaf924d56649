import Mathlib.Order.Lattice
import Mathlib.Data.Nat.Bits
import Mathlib.Data.List.Basic

namespace Odyssey.Containers

open List

variable {K V W U : Type*}

def lastValue (start : V) (steps : List (K × V)) : V :=
  steps.foldl (fun _ step => step.2) start

theorem lastValue_cons (start : V) (step : K × V) (steps : List (K × V)) :
    lastValue start (step :: steps) = lastValue step.2 steps := rfl

theorem lastValue_append (start : V) (steps : List (K × V)) (step : K × V) :
    lastValue start (steps ++ [step]) = step.2 := by
  rw [lastValue, foldl_append]
  rfl

def Changing (start : V) : List (K × V) → Prop
  | [] => True
  | step :: steps => step.2 ≠ start ∧ Changing step.2 steps

theorem changing_append (start : V) (steps more : List (K × V)) :
    Changing start (steps ++ more) ↔ Changing start steps ∧ Changing (lastValue start steps) more := by
  induction steps generalizing start with
  | nil => exact (and_iff_right trivial).symm
  | cons step steps ih =>
    rw [cons_append, Changing, Changing, lastValue_cons, ih, and_assoc]

def compress [DecidableEq V] (start : V) : List (K × V) → List (K × V)
  | [] => []
  | step :: steps => if step.2 = start then compress start steps else step :: compress step.2 steps

section Compress

variable [DecidableEq V] (start : V) (steps : List (K × V))

theorem compress_changing : Changing start (compress start steps) := by
  induction steps generalizing start with
  | nil => trivial
  | cons step steps ih =>
    rw [compress]
    split
    · exact ih start
    · exact ⟨‹_›, ih step.2⟩

theorem compress_of_changing {start : V} {steps : List (K × V)} (changing : Changing start steps) :
    compress start steps = steps := by
  induction steps generalizing start with
  | nil => rfl
  | cons step steps ih => rw [compress, if_neg changing.1, ih changing.2]

theorem compress_constant {start : V} {steps : List (K × V)} (constant : ∀ step ∈ steps, step.2 = start) :
    compress start steps = [] := by
  induction steps with
  | nil => rfl
  | cons step steps ih =>
    rw [compress, if_pos (constant step mem_cons_self)]
    exact ih (fun other member => constant other (mem_cons_of_mem _ member))

theorem compress_sublist : (compress start steps).Sublist steps := by
  induction steps generalizing start with
  | nil => exact List.Sublist.slnil
  | cons step steps ih =>
    rw [compress]
    split
    · exact (ih start).cons _
    · exact (ih step.2).cons_cons _

theorem lastValue_compress : lastValue start (compress start steps) = lastValue start steps := by
  induction steps generalizing start with
  | nil => rfl
  | cons step steps ih =>
    rw [compress]
    split
    · rename_i same
      rw [ih, lastValue_cons, same]
    · exact ih step.2

theorem compress_append (more : List (K × V)) :
    compress start (steps ++ more) = compress start steps ++ compress (lastValue start steps) more := by
  induction steps generalizing start with
  | nil => rfl
  | cons step steps ih =>
    rw [cons_append, compress, compress, lastValue_cons]
    split
    · rename_i same
      rw [ih, same]
    · rw [ih, cons_append]

end Compress

variable [LinearOrder K]

def valueAt (start : V) : List (K × V) → K → V
  | [], _ => start
  | step :: steps, x => if step.1 ≤ x then valueAt step.2 steps x else start

abbrev Increasing (steps : List (K × V)) : Prop := steps.Pairwise (fun step other => step.1 < other.1)

section Values

variable {start : V} {steps : List (K × V)} {x : K}

theorem valueAt_before (before : ∀ step ∈ steps, x < step.1) : valueAt start steps x = start := by
  cases steps with
  | nil => rfl
  | cons step steps => rw [valueAt, if_neg (before step mem_cons_self).not_ge]

theorem valueAt_after (after : ∀ step ∈ steps, step.1 ≤ x) : valueAt start steps x = lastValue start steps := by
  induction steps generalizing start with
  | nil => rfl
  | cons step steps ih =>
    rw [valueAt, if_pos (after step mem_cons_self)]
    exact ih (fun other member => after other (mem_cons_of_mem _ member))

theorem valueAt_mem (start : V) (steps : List (K × V)) (x : K) :
    valueAt start steps x = start ∨ ∃ step ∈ steps, step.1 ≤ x ∧ step.2 = valueAt start steps x := by
  induction steps generalizing start with
  | nil => exact .inl rfl
  | cons step steps ih =>
    rw [valueAt]
    by_cases reached : step.1 ≤ x
    · rw [if_pos reached]
      rcases ih step.2 with same | ⟨other, member, reached', same⟩
      · exact .inr ⟨step, mem_cons_self, reached, same.symm⟩
      · exact .inr ⟨other, mem_cons_of_mem _ member, reached', same⟩
    · rw [if_neg reached]
      exact .inl rfl

theorem valueAt_compress [DecidableEq V] (increasing : Increasing steps) :
    valueAt start (compress start steps) x = valueAt start steps x := by
  induction steps generalizing start with
  | nil => rfl
  | cons step steps ih =>
    rcases pairwise_cons.mp increasing with ⟨first, later⟩
    rw [compress, valueAt]
    split
    · rename_i same
      rw [ih later, same]
      split
      · rfl
      · rename_i ahead
        exact valueAt_before (fun other member => (not_le.mp ahead).trans (first other member))
    · rw [valueAt, ih later]

end Values

def nextKey : List (K × V) → List (K × W) → Option K
  | [], [] => none
  | step :: _, [] => some step.1
  | [], other :: _ => some other.1
  | step :: _, other :: _ => some (min step.1 other.1)

def pass (k : K) (current : V) : List (K × V) → V × List (K × V)
  | [] => (current, [])
  | step :: steps => if step.1 = k then (step.2, steps) else (current, step :: steps)

section Pass

variable (k : K) (current : V) (steps : List (K × V))

theorem pass_suffix : (pass k current steps).2 <:+ steps := by
  cases steps with
  | nil => exact suffix_rfl
  | cons step steps =>
    rw [pass]
    split
    · exact suffix_cons _ _
    · exact suffix_rfl

theorem lastValue_pass : lastValue (pass k current steps).1 (pass k current steps).2 = lastValue current steps := by
  cases steps with
  | nil => rfl
  | cons step steps =>
    rw [pass]
    split <;> rfl

theorem pass_value : (pass k current steps).1 = current ∨ ∃ step ∈ steps, step.2 = (pass k current steps).1 := by
  cases steps with
  | nil => exact .inl rfl
  | cons step steps =>
    rw [pass]
    split
    · exact .inr ⟨step, mem_cons_self, rfl⟩
    · exact .inl rfl

variable {k current steps}

theorem pass_later (increasing : Increasing steps) (first : ∀ step ∈ steps, k ≤ step.1) :
    ∀ step ∈ (pass k current steps).2, k < step.1 := by
  cases steps with
  | nil => exact fun _ member => absurd member not_mem_nil
  | cons step steps =>
    have later := (pairwise_cons.mp increasing).1
    rw [pass]
    split
    · rename_i same
      exact fun other member => same ▸ later other member
    · rename_i apart
      have ahead := lt_of_le_of_ne (first step mem_cons_self) (symm apart)
      intro other member
      rcases mem_cons.mp member with rfl | member
      · exact ahead
      · exact ahead.trans (later other member)

theorem valueAt_pass {x : K} (reached : k ≤ x) :
    valueAt (pass k current steps).1 (pass k current steps).2 x = valueAt current steps x := by
  cases steps with
  | nil => rfl
  | cons step steps =>
    rw [pass]
    split
    · rename_i same
      rw [valueAt, if_pos (same ▸ reached)]
    · rfl

end Pass

variable {k : K} {steps : List (K × V)} {others : List (K × W)}

theorem Increasing.head_le {step : K × V} (increasing : Increasing (step :: steps)) (low : k ≤ step.1) :
    ∀ other ∈ step :: steps, k ≤ other.1 := by
  intro other member
  rcases mem_cons.mp member with rfl | member
  · exact low
  · exact low.trans ((pairwise_cons.mp increasing).1 other member).le

theorem nextKey_le (increasing : Increasing steps) (increasing' : Increasing others)
    (next : nextKey steps others = some k) : (∀ step ∈ steps, k ≤ step.1) ∧ ∀ other ∈ others, k ≤ other.1 := by
  match steps, others, next with
  | [], other :: others, rfl => exact ⟨fun _ member => absurd member not_mem_nil, increasing'.head_le le_rfl⟩
  | step :: steps, [], rfl => exact ⟨increasing.head_le le_rfl, fun _ member => absurd member not_mem_nil⟩
  | step :: steps, other :: others, rfl =>
    exact ⟨increasing.head_le (min_le_left _ _), increasing'.head_le (min_le_right _ _)⟩

theorem nextKey_eq (next : nextKey steps others = some k) :
    (∃ v rest, steps = (k, v) :: rest) ∨ ∃ w rest, others = (k, w) :: rest := by
  match steps, others, next with
  | [], other :: others, rfl => exact .inr ⟨other.2, others, rfl⟩
  | step :: steps, [], rfl => exact .inl ⟨step.2, steps, rfl⟩
  | step :: steps, other :: others, rfl =>
    rcases le_total step.1 other.1 with low | low
    · rw [min_eq_left low]
      exact .inl ⟨step.2, steps, rfl⟩
    · rw [min_eq_right low]
      exact .inr ⟨other.2, others, rfl⟩

theorem pass_shorter (next : nextKey steps others = some k) (current : V) (current' : W) :
    (pass k current steps).2.length + (pass k current' others).2.length < steps.length + others.length := by
  have left := (pass_suffix k current steps).length_le
  have right := (pass_suffix k current' others).length_le
  rcases nextKey_eq next with ⟨v, rest, rfl⟩ | ⟨w, rest, rfl⟩
  · have taken : (pass k current ((k, v) :: rest)).2 = rest := by rw [pass, if_pos rfl]
    rw [taken, length_cons]
    omega
  · have taken : (pass k current' ((k, w) :: rest)).2 = rest := by rw [pass, if_pos rfl]
    rw [taken, length_cons]
    omega

def combine (g : V → W → U) (current : V) (current' : W) (steps : List (K × V)) (others : List (K × W)) :
    List (K × U) :=
  match _ : nextKey steps others with
  | none => []
  | some k =>
    (k, g (pass k current steps).1 (pass k current' others).1) ::
      combine g (pass k current steps).1 (pass k current' others).1 (pass k current steps).2
        (pass k current' others).2
termination_by steps.length + others.length
decreasing_by exact pass_shorter ‹_› _ _

section Combine

variable {g : V → W → U} {current : V} {current' : W}

theorem nextKey_none (next : nextKey steps others = none) : steps = [] ∧ others = [] := by
  match steps, others, next with
  | [], [], _ => exact ⟨rfl, rfl⟩
  | _ :: _, [], next => cases next
  | _ :: _, _ :: _, next => cases next

theorem combine_next (next : nextKey steps others = some k) : combine g current current' steps others =
      (k, g (pass k current steps).1 (pass k current' others).1) ::
        combine g (pass k current steps).1 (pass k current' others).1 (pass k current steps).2
          (pass k current' others).2 := by
  rw [combine]
  split
  · rename_i none
    rw [next] at none
    cases none
  · rename_i same
    rw [next] at same
    cases same
    rfl

theorem combine_nil : combine g current current' ([] : List (K × V)) ([] : List (K × W)) = [] := by
  rw [combine]
  rfl

theorem combine_induction {motive : V → W → List (K × V) → List (K × W) → Prop}
    (ended : ∀ current current', motive current current' [] [])
    (steps' : ∀ current current' steps others k, nextKey steps others = some k →
      motive (pass k current steps).1 (pass k current' others).1 (pass k current steps).2
        (pass k current' others).2 → motive current current' steps others)
    (current : V) (current' : W) (steps : List (K × V)) (others : List (K × W)) :
    motive current current' steps others := by
  induction size : steps.length + others.length using Nat.strongRecOn generalizing current current' steps others with
  | _ total ih =>
    cases next : nextKey steps others with
    | none =>
      rcases nextKey_none next with ⟨rfl, rfl⟩
      exact ended current current'
    | some k =>
      have less := pass_shorter next current current'
      rw [size] at less
      exact steps' current current' steps others k next (ih _ less _ _ _ _ rfl)

section

variable (g current current')

theorem combine_left_only (steps : List (K × V)) :
    combine g current current' steps [] = steps.map (fun step => (step.1, g step.2 current')) := by
  induction steps generalizing current with
  | nil => exact combine_nil
  | cons step steps ih =>
    have next : nextKey (step :: steps) ([] : List (K × W)) = some step.1 := rfl
    have taken : pass step.1 current (step :: steps) = (step.2, steps) := if_pos rfl
    rw [combine_next next, taken]
    exact congrArg _ (ih step.2)

theorem combine_right_only (others : List (K × W)) :
    combine g current current' [] others = others.map (fun other => (other.1, g current other.2)) := by
  induction others generalizing current' with
  | nil => exact combine_nil
  | cons other others ih =>
    have next : nextKey ([] : List (K × V)) (other :: others) = some other.1 := rfl
    have taken : pass other.1 current' (other :: others) = (other.2, others) := if_pos rfl
    rw [combine_next next, taken]
    exact congrArg _ (ih other.2)

theorem valueAt_combine (increasing : Increasing steps) (increasing' : Increasing others) (x : K) :
    valueAt (g current current') (combine g current current' steps others) x =
      g (valueAt current steps x) (valueAt current' others x) := by
  induction current, current', steps, others using combine_induction with
  | ended current current' =>
    rw [combine_nil]
    rfl
  | steps' current current' steps others k next ih =>
    have first := nextKey_le increasing increasing' next
    rw [combine_next next, valueAt]
    by_cases reached : k ≤ x
    · rw [if_pos reached, ih (increasing.sublist (pass_suffix _ _ _).sublist)
        (increasing'.sublist (pass_suffix _ _ _).sublist), valueAt_pass reached, valueAt_pass reached]
    · have ahead := not_le.mp reached
      rw [if_neg reached, valueAt_before (fun step member => ahead.trans_le (first.1 step member)),
        valueAt_before (fun step member => ahead.trans_le (first.2 step member))]

theorem lastValue_combine (steps : List (K × V)) (others : List (K × W)) :
    lastValue (g current current') (combine g current current' steps others) =
      g (lastValue current steps) (lastValue current' others) := by
  induction current, current', steps, others using combine_induction with
  | ended current current' =>
    rw [combine_nil]
    rfl
  | steps' current current' steps others k next ih =>
    rw [combine_next next, lastValue_cons, ih, lastValue_pass, lastValue_pass]

end

theorem mem_combine {result : K × U} (member : result ∈ combine g current current' steps others) :
    ((∃ step ∈ steps, step.1 = result.1) ∨ ∃ other ∈ others, other.1 = result.1) ∧
      ∃ v w, result.2 = g v w ∧ (v = current ∨ ∃ step ∈ steps, step.2 = v) ∧
        (w = current' ∨ ∃ other ∈ others, other.2 = w) := by
  induction current, current', steps, others using combine_induction with
  | ended current current' =>
    rw [combine_nil] at member
    cases member
  | steps' current current' steps others k next ih =>
    rw [combine_next next] at member
    rcases mem_cons.mp member with rfl | later
    · refine ⟨?_, _, _, rfl, pass_value _ _ _, pass_value _ _ _⟩
      rcases nextKey_eq next with ⟨v, rest, rfl⟩ | ⟨w, rest, rfl⟩
      · exact .inl ⟨_, mem_cons_self, rfl⟩
      · exact .inr ⟨_, mem_cons_self, rfl⟩
    · have left := (pass_suffix k current steps).subset
      have right := (pass_suffix k current' others).subset
      rcases ih later with ⟨place, v, w, value, from', from''⟩
      refine ⟨?_, v, w, value, ?_, ?_⟩
      · rcases place with ⟨step, inside, same⟩ | ⟨other, inside, same⟩
        · exact .inl ⟨step, left inside, same⟩
        · exact .inr ⟨other, right inside, same⟩
      · rcases from' with rfl | ⟨step, inside, same⟩
        · exact pass_value _ _ _
        · exact .inr ⟨step, left inside, same⟩
      · rcases from'' with rfl | ⟨other, inside, same⟩
        · exact pass_value _ _ _
        · exact .inr ⟨other, right inside, same⟩

theorem combine_increasing (g : V → W → U) (current : V) (current' : W) (increasing : Increasing steps)
    (increasing' : Increasing others) : Increasing (combine g current current' steps others) := by
  induction current, current', steps, others using combine_induction with
  | ended current current' =>
    rw [combine_nil]
    exact List.Pairwise.nil
  | steps' current current' steps others k next ih =>
    have first := nextKey_le increasing increasing' next
    rw [combine_next next]
    refine pairwise_cons.mpr ⟨?_, ih (increasing.sublist (pass_suffix _ _ _).sublist)
      (increasing'.sublist (pass_suffix _ _ _).sublist)⟩
    intro result member
    rcases (mem_combine member).1 with ⟨step, inside, same⟩ | ⟨other, inside, same⟩
    · rw [← same]
      exact pass_later increasing first.1 step inside
    · rw [← same]
      exact pass_later increasing' first.2 other inside

end Combine

/-- The steps of a set that begins and ends in turn. -/
def alternate (inside : Bool) : List K → List (K × Bool)
  | [] => []
  | k :: rest => (k, !inside) :: alternate (!inside) rest

section Alternate

omit [LinearOrder K]

theorem alternate_keys (inside : Bool) (toggles : List K) : (alternate inside toggles).map Prod.fst = toggles := by
  induction toggles generalizing inside with
  | nil => rfl
  | cons k rest ih => rw [alternate, map_cons, ih]

theorem alternate_of_changing {inside : Bool} {steps : List (K × Bool)} (changing : Changing inside steps) :
    alternate inside (steps.map Prod.fst) = steps := by
  induction steps generalizing inside with
  | nil => rfl
  | cons step steps ih =>
    have opposite : (!inside) = step.2 := (Bool.eq_not_of_ne changing.1).symm
    rw [map_cons, alternate, opposite, ih changing.2]

theorem lastValue_alternate (inside : Bool) (toggles : List K) :
    lastValue inside (alternate inside toggles) = xor inside toggles.length.bodd := by
  induction toggles generalizing inside with
  | nil =>
    rw [length_nil, Nat.bodd_zero, Bool.xor_false]
    rfl
  | cons k rest ih =>
    rw [alternate, lastValue_cons, ih, length_cons, Nat.bodd_succ, Bool.not_xor, Bool.xor_not]

def emit (before after : Bool) (x : K) (rest : List K) : List K :=
  if after = before then rest else x :: rest

end Alternate

theorem alternate_increasing (inside : Bool) {toggles : List K} :
    Increasing (alternate inside toggles) ↔ toggles.Pairwise (· < ·) := by
  have keys := pairwise_map (f := Prod.fst) (R := (· < ·)) (l := alternate inside toggles)
  rw [alternate_keys] at keys
  exact keys.symm

def covers (toggles : List K) (x : K) : Bool := valueAt false (alternate false toggles) x

theorem covers_nil (x : K) : covers [] x = false := rfl

theorem covers_pair (low high : K) (rest : List K) (x : K) :
    covers (low :: high :: rest) x = if low ≤ x then if high ≤ x then covers rest x else true else false := rfl

def mergeToggles (f : Bool → Bool → Bool) (a b : Bool) (s t : List K) : List K :=
  (compress (f a b) (combine f a b (alternate a s) (alternate b t))).map Prod.fst

variable {f : Bool → Bool → Bool} {a b : Bool} {x y : K} {s t : List K}

theorem mergeToggles_next {a' b' : Bool} {s' t' : List K} (next : nextKey (alternate a s) (alternate b t) = some x)
    (left : pass x a (alternate a s) = (a', alternate a' s'))
    (right : pass x b (alternate b t) = (b', alternate b' t')) :
    mergeToggles f a b s t = emit (f a b) (f a' b') x (mergeToggles f a' b' s' t') := by
  rw [mergeToggles, combine_next next, left, right, compress, emit]
  split
  · rename_i same
    change f a' b' = f a b at same
    rw [mergeToggles, same]
  · rfl

theorem mergeToggles_less (less : x < y) : mergeToggles f a b (x :: s) (y :: t) =
    emit (f a b) (f (!a) b) x (mergeToggles f (!a) b s (y :: t)) :=
  mergeToggles_next (congrArg some (min_eq_left less.le)) (if_pos rfl) (if_neg less.ne')

theorem mergeToggles_greater (greater : y < x) : mergeToggles f a b (x :: s) (y :: t) =
    emit (f a b) (f a (!b)) y (mergeToggles f a (!b) (x :: s) t) :=
  mergeToggles_next (congrArg some (min_eq_right greater.le)) (if_neg greater.ne') (if_pos rfl)

theorem mergeToggles_equal : mergeToggles f a b (x :: s) (x :: t) =
    emit (f a b) (f (!a) (!b)) x (mergeToggles f (!a) (!b) s t) :=
  mergeToggles_next (congrArg some (min_self x)) (if_pos rfl) (if_pos rfl)

theorem mergeToggles_left : mergeToggles f a b (x :: s) [] =
    emit (f a b) (f (!a) b) x (mergeToggles f (!a) b s []) := mergeToggles_next rfl (if_pos rfl) rfl

theorem mergeToggles_right : mergeToggles f a b [] (y :: t) =
    emit (f a b) (f a (!b)) y (mergeToggles f a (!b) [] t) := mergeToggles_next rfl rfl (if_pos rfl)

theorem mergeToggles_nil : mergeToggles f a b ([] : List K) [] = [] := by
  rw [mergeToggles, alternate, alternate, combine_nil]
  rfl

theorem mergeToggles_left_only {keep : Bool} (rule : ∀ a, f a false = (keep && a)) (a : Bool) (s : List K) :
    mergeToggles f a false s [] = if keep then s else [] := by
  induction s generalizing a with
  | nil => rw [mergeToggles_nil, ite_self]
  | cons x s ih =>
    rw [mergeToggles_left, ih, rule, rule]
    cases keep <;> cases a <;> rfl

theorem mergeToggles_right_only {keep : Bool} (rule : ∀ b, f false b = (keep && b)) (b : Bool) (t : List K) :
    mergeToggles f false b [] t = if keep then t else [] := by
  induction t generalizing b with
  | nil => rw [mergeToggles_nil, ite_self]
  | cons y t ih =>
    rw [mergeToggles_right, ih, rule, rule]
    cases keep <;> cases b <;> rfl

theorem alternate_mergeToggles : alternate (f a b) (mergeToggles f a b s t) =
    compress (f a b) (combine f a b (alternate a s) (alternate b t)) :=
  alternate_of_changing (compress_changing _ _)

theorem covers_mergeToggles (outside : f false false = false) (increasing : s.Pairwise (· < ·))
    (increasing' : t.Pairwise (· < ·)) (x : K) :
    covers (mergeToggles f false false s t) x = f (covers s x) (covers t x) := by
  have left := (alternate_increasing false).mpr increasing
  have right := (alternate_increasing false).mpr increasing'
  have values := valueAt_combine f false false left right x
  rw [← valueAt_compress (combine_increasing f false false left right), ← alternate_mergeToggles, outside] at values
  exact values

theorem mergeToggles_increasing (increasing : s.Pairwise (· < ·)) (increasing' : t.Pairwise (· < ·)) :
    (mergeToggles f a b s t).Pairwise (· < ·) := by
  have combined := combine_increasing f a b ((alternate_increasing a).mpr increasing)
    ((alternate_increasing b).mpr increasing')
  exact pairwise_map.mpr (combined.sublist (compress_sublist _ _))

theorem mem_mergeToggles {x : K} (member : x ∈ mergeToggles f a b s t) : x ∈ s ∨ x ∈ t := by
  rcases mem_map.mp member with ⟨step, inside, rfl⟩
  have keys (toggles : List K) (inside : Bool) {key : K} (found : ∃ step ∈ alternate inside toggles, step.1 = key) :
      key ∈ toggles := by
    rw [← alternate_keys inside toggles]
    exact mem_map.mpr found
  exact (mem_combine ((compress_sublist _ _).subset inside)).1.imp (keys s a) (keys t b)

theorem mergeToggles_even (outside : f false false = false) (even : s.length.bodd = false)
    (even' : t.length.bodd = false) : (mergeToggles f false false s t).length.bodd = false := by
  have last := lastValue_alternate (f false false) (mergeToggles f false false s t)
  rw [alternate_mergeToggles, lastValue_compress, lastValue_combine, lastValue_alternate, lastValue_alternate,
    even, even', Bool.xor_false, outside, Bool.false_xor] at last
  exact last.symm

section Unique

variable {start : V} {step other : K × V} {steps others : List (K × V)}

theorem valueAt_head (increasing : Increasing (step :: steps)) : valueAt start (step :: steps) step.1 = step.2 := by
  rw [valueAt, if_pos le_rfl]
  exact valueAt_before (pairwise_cons.mp increasing).1

theorem valueAt_tail (increasing : Increasing (step :: steps)) (start : V) (x : K) :
    valueAt step.2 steps x = if step.1 ≤ x then valueAt start (step :: steps) x else step.2 := by
  split_ifs with reached
  · rw [valueAt, if_pos reached]
  · apply valueAt_before
    intro later member
    exact (not_le.mp reached).trans ((pairwise_cons.mp increasing).1 later member)

/-- Two step functions that agree change at the same places. -/
theorem steps_unique (increasing : Increasing steps) (increasing' : Increasing others) (changing : Changing start steps)
    (changing' : Changing start others) (same : ∀ x, valueAt start steps x = valueAt start others x) :
    steps = others := by
  induction steps generalizing start others with
  | nil =>
    cases others with
    | nil => rfl
    | cons other others => exact absurd ((same other.1).trans (valueAt_head increasing')).symm changing'.1
  | cons step steps ih =>
    cases others with
    | nil => exact absurd ((valueAt_head increasing).symm.trans (same step.1)) changing.1
    | cons other others =>
      have first := (valueAt_head increasing).symm.trans (same step.1)
      have second := (same other.1).trans (valueAt_head increasing')
      rcases lt_trichotomy step.1 other.1 with before | equal | after
      · rw [valueAt, if_neg (not_le.mpr before)] at first
        exact absurd first changing.1
      · rw [equal, valueAt_head increasing'] at first
        obtain rfl : step = other := Prod.ext equal first
        refine congrArg (step :: ·) (ih (pairwise_cons.mp increasing).2 (pairwise_cons.mp increasing').2 changing.2
          changing'.2 ?_)
        intro x
        rw [valueAt_tail increasing start, valueAt_tail increasing' start, same]
      · rw [valueAt, if_neg (not_le.mpr after)] at second
        exact absurd second.symm changing'.1

end Unique

theorem alternate_changing {K : Type*} (inside : Bool) (toggles : List K) : Changing inside (alternate inside toggles) := by
  induction toggles generalizing inside with
  | nil => trivial
  | cons k rest ih => exact ⟨Bool.not_ne_self inside, ih (!inside)⟩

theorem toggles_unique (increasing : s.Pairwise (· < ·)) (increasing' : t.Pairwise (· < ·))
    (same : ∀ x, covers s x = covers t x) : s = t := by
  have alternating := steps_unique ((alternate_increasing false).mpr increasing)
    ((alternate_increasing false).mpr increasing') (alternate_changing false s) (alternate_changing false t) same
  rw [← alternate_keys false s, alternating, alternate_keys]

end Odyssey.Containers
