import Odyssey.Text.CodecUTF8Items

namespace Odyssey.Text

open Systems TextCodecUTF8 List Option Bool

/-- The input that is not decoded yet. A partial sequence that is kept has the rest of the source in it. -/
def Progress.remaining (progress : Progress) : List UInt8 :=
  if progress.upConvert = true ∨ progress.partialSequence = []
  then progress.partialSequence ++ progress.source else progress.partialSequence

/-- The items up to where a loop was left are written, and the rest is as if the loop had not been run. An
    error may be noticed before it is written. -/
def Follows (flush : Bool) (input : List UInt8) (progress : Progress) : Prop :=
  ∃ found, itemsOf flush input =
      (found ++ (itemsOf flush progress.remaining).1, (itemsOf flush progress.remaining).2) ∧
    progress.units = unitsOf found ∧ (none ∈ found → progress.sawError = true) ∧
    (progress.sawError = true → none ∈ found ∨
      progress.upConvert = true ∧ ∃ taken, nextItem progress.remaining = some (none, taken))

namespace Follows

variable {flush : Bool} {input : List UInt8} {progress : Progress}

theorem stays (same : progress.remaining = input) (nothing : progress.units = [])
    (quiet : progress.sawError = false) : Follows flush input progress := by
  refine ⟨[], ?_, nothing, fun member => absurd member not_mem_nil, ?_⟩
  · rw [same]
    rfl
  · intro saw
    rw [quiet] at saw
    cases saw

theorem stays_noticed (same : progress.remaining = input) (nothing : progress.units = [])
    (leaves : progress.upConvert = true) {taken : Nat} (error : nextItem input = some (none, taken)) :
    Follows flush input progress := by
  refine ⟨[], ?_, nothing, fun member => absurd member not_mem_nil, ?_⟩
  · rw [same]
    rfl
  · intro _
    exact .inr ⟨leaves, taken, same ▸ error⟩

theorem after {item : Option Nat} {taken : Nat} (found : nextItem input = some (item, taken)) {width : Width}
    {units : List UInt16} (written : width.write item = some units)
    (follows : Follows flush (input.drop taken) progress) : Follows flush input (progress.after units item.isNone) := by
  rcases follows with ⟨items, same, text, noticed, seen⟩
  refine ⟨item :: items, ?_, ?_, ?_, ?_⟩
  · rw [itemsOf_item found, same]
    rfl
  · show units ++ progress.units = _
    rw [unitsOf_cons, write_eq written, text]
  · intro member
    show (item.isNone || progress.sawError) = true
    rcases mem_cons.mp member with rfl | later
    · rfl
    · rw [noticed later, Bool.or_true]
  · intro saw
    rcases or_eq_true_iff.mp saw with first | later
    · rw [isNone_iff_eq_none.mp first]
      exact .inl mem_cons_self
    · rcases seen later with inside | ahead
      · exact .inl (mem_cons_of_mem _ inside)
      · exact .inr ahead

theorem after_ascii {copied : List UInt8} (ascii : copied.all isASCII = true) (follows : Follows flush input progress) :
    Follows flush (copied ++ input) (progress.after (copied.map (·.toUInt16)) false) := by
  induction copied with
  | nil => exact follows
  | cons byte copied ih =>
    rw [all_cons, and_eq_true_iff] at ascii
    have found : nextItem (byte :: (copied ++ input)) = some (some byte.toNat, 1) := by
      rw [nextItem, if_pos ascii.1]
    have written : Width.utf16.write (some byte.toNat) = some [byte.toUInt16] := by
      rw [← write_ascii]
      rfl
    have stepped := after found written (ih ascii.2)
    exact stepped

theorem trans {later : Progress} (follows : Follows flush input progress)
    (stays : progress.upConvert = false) (goesOn : Follows flush progress.remaining later) :
    Follows flush input (later.after progress.units progress.sawError) := by
  rcases follows with ⟨items, same, text, noticed, seen⟩
  rcases goesOn with ⟨more, same', text', noticed', seen'⟩
  refine ⟨items ++ more, ?_, ?_, ?_, ?_⟩
  · rw [same, same', append_assoc]
    rfl
  · show progress.units ++ later.units = _
    rw [text, text', unitsOf_append]
  · intro member
    show (progress.sawError || later.sawError) = true
    rcases mem_append.mp member with before | after
    · rw [noticed before, Bool.true_or]
    · rw [noticed' after, Bool.or_true]
  · intro saw
    rcases or_eq_true_iff.mp saw with before | after
    · rcases seen before with inside | ahead
      · exact .inl (mem_append_left _ inside)
      · rw [stays] at ahead
        cases ahead.1
    · rcases seen' after with inside | ahead
      · exact .inl (mem_append_right _ inside)
      · exact .inr ahead

end Follows

/-- The loops are done: what is left is a sequence that is not complete, and nothing when there is no more
    input. -/
structure Settled (flush : Bool) (progress : Progress) : Prop where
  upConvert : progress.upConvert = false
  waits : nextItem progress.partialSequence = none
  source : progress.partialSequence = [] → progress.source = []
  flushed : flush = true → progress.partialSequence = []

theorem Settled.remaining {flush : Bool} {progress : Progress} (settled : Settled flush progress) :
    itemsOf flush progress.remaining = ([], progress.partialSequence) := by
  by_cases empty : progress.partialSequence = []
  · have nothing : progress.remaining = [] := by
      rw [Progress.remaining, if_pos (.inr empty), empty, settled.source empty]
      rfl
    rw [nothing, itemsOf_nil, empty]
  · have kept : progress.remaining = progress.partialSequence := by
      apply if_neg
      rw [settled.upConvert]
      simp [empty]
    have more : flush = false := by
      rw [eq_false_iff]
      exact fun flushes => empty (settled.flushed flushes)
    rw [kept, itemsOf_incomplete empty settled.waits, more]
    rfl

/-- A character is read from the partial sequence while more bytes are in it, and they are not the ones it
    began with: the size is reduced as if they were. -/
def losesFirst (first : UInt8) (rest source : List UInt8) : Bool :=
  let count := nonASCIISequenceLength first
  let filled := first :: rest ++ source.take (missing (first :: rest))
  !isASCII first && count ≠ 0 && missing (first :: rest) ≤ source.length &&
    (decodeNonASCIISequence filled count).1.isSome && filled.take (filled.length - count) ≠ filled.drop count

def loses (partialSequence source : List UInt8) : Bool :=
  match partialSequence with
  | [] => false
  | first :: rest =>
    losesFirst first rest source ||
      match _ : handleFirst .utf16 false false first rest source with
      | .leave _ => false
      | .goOn _ _ next nextSource => loses next nextSource
termination_by partialSequence.length + source.length
decreasing_by exact handleFirst_shorter ‹_›

theorem loses_cons (first : UInt8) (rest source : List UInt8) :
    loses (first :: rest) source = (losesFirst first rest source ||
      match handleFirst .utf16 false false first rest source with
      | .leave _ => false
      | .goOn _ _ next nextSource => loses next nextSource) := by
  rw [loses]
  split <;> simp_all

section PartialSequence

variable {width : Width} {flush : Bool} {first : UInt8} {rest source : List UInt8}

theorem filled_append : first :: rest ++ source.take (missing (first :: rest)) ++
    source.drop (missing (first :: rest)) = first :: rest ++ source := by
  rw [append_assoc, take_append_drop]

def Correct (flush : Bool) (input : List UInt8) : Pass → Prop
  | .leave progress => progress.remaining = input ∧ progress.units = [] ∧ progress.sawError = false
  | .goOn units sawError next nextSource => ∀ progress, Follows flush (next ++ nextSource) progress →
      Follows flush input (progress.after units sawError)

variable {next nextSource : List UInt8} {units : List UInt16}

theorem partialSequenceError_correct {kept keptSource : List UInt8} {taken : Nat}
    (found : nextItem (kept ++ keptSource) = some (none, taken))
    (after : (kept ++ keptSource).drop taken = next ++ nextSource) :
    Correct flush (kept ++ keptSource) (partialSequenceError width false kept keptSource
      (.goOn · true next nextSource)) := by
  unfold partialSequenceError
  cases written : width.write none with
  | none => exact ⟨if_pos (.inl rfl), rfl, rfl⟩
  | some units =>
    intro progress follows
    rw [← after] at follows
    exact follows.after found written

theorem incomplete_correct {input : List UInt8} (nonempty : input ≠ []) (waits : nextItem input = none)
    (written : width.write none = some units) {progress : Progress} (follows : Follows true [] progress) :
    Follows true input (progress.after units true) := by
  rcases follows with ⟨found, same, text, noticed, seen⟩
  rw [itemsOf_nil] at same
  rcases Prod.mk.inj same with ⟨nothing, kept⟩
  rcases append_eq_nil_iff.mp nothing.symm with ⟨rfl, empty⟩
  refine ⟨[none], ?_, ?_, fun _ => rfl, fun _ => .inl mem_cons_self⟩
  · rw [itemsOf_incomplete nonempty waits]
    show _ = ([none] ++ (itemsOf true progress.remaining).1, (itemsOf true progress.remaining).2)
    rw [empty, ← kept]
    rfl
  · show units ++ progress.units = _
    rw [text, unitsOf_cons, write_eq written]

theorem filled_item (ascii : ¬ isASCII first = true) (valid : ¬ nonASCIISequenceLength first = 0)
    (enough : ¬ missing (first :: rest) > source.length) {filled : List UInt8}
    (fill : first :: rest ++ source.take (missing (first :: rest)) = filled) :
    nextItem (first :: rest ++ source) = some (decodeNonASCIISequence filled (nonASCIISequenceLength first)) ∧
      nonASCIISequenceLength first ≤ filled.length := by
  have size : missing (first :: rest) = nonASCIISequenceLength first - (first :: rest).length := rfl
  have known := (nonASCIISequenceLength_cases first).resolve_left valid
  have whole := mt missing_gt_iff.mpr enough
  have long : nonASCIISequenceLength first ≤ filled.length := by
    rw [← fill, length_append, length_take]
    omega
  refine ⟨?_, long⟩
  rw [← decodeNonASCIISequence_append _ (source.drop (missing (first :: rest))) known long, ← fill, filled_append,
    cons_append, nextItem, if_neg ascii]
  rw [if_neg valid]
  exact if_neg whole

theorem handleFirst_correct (width : Width) (flush : Bool) (keeps : losesFirst first rest source = false) :
    Correct flush (first :: rest ++ source) (handleFirst width flush false first rest source) := by
  fun_cases handleFirst width flush false first rest source with
  | case1 ascii =>
    intro progress follows
    have single : [first].all isASCII = true := by
      rw [all_cons, ascii]
      rfl
    exact follows.after_ascii single
  | case2 ascii count invalid =>
    have found : nextItem (first :: rest ++ source) = some (none, 1) := by
      rw [cons_append, nextItem, if_neg ascii]
      exact if_pos invalid
    exact partialSequenceError_correct found rfl
  | case3 => exact ⟨if_neg (by simp), rfl, rfl⟩
  | case4 ascii count valid few flushes =>
    have waits : nextItem (first :: rest ++ source) = none :=
      nextItem_eq_none.mpr ⟨Bool.eq_false_iff.mpr ascii, valid, missing_gt_iff.mp few⟩
    have ended : flush = true := by simpa using flushes
    subst ended
    unfold partialSequenceError
    cases written : width.write none with
    | none => exact ⟨if_pos (.inl rfl), rfl, rfl⟩
    | some units =>
      intro progress follows
      exact incomplete_correct (cons_ne_nil _ _) waits written follows
  | case5 ascii count valid enough filled later length decoded =>
    rcases filled_item ascii valid enough rfl with ⟨found, long⟩
    have taken := decodeNonASCIISequence_taken filled ((nonASCIISequenceLength_cases first).resolve_left valid)
    rw [decoded] at found taken
    rw [← filled_append] at found ⊢
    exact partialSequenceError_correct found (drop_append_of_le_length (Nat.le_trans taken.1 long))
  | case6 => exact ⟨(if_pos (.inl rfl)).trans filled_append, rfl, rfl⟩
  | case7 ascii count valid enough filled later character length decoded units written =>
    rcases filled_item ascii valid enough rfl with ⟨found, long⟩
    have taken := decodeNonASCIISequence_taken filled ((nonASCIISequenceLength_cases first).resolve_left valid)
    rw [decoded] at found taken
    intro progress follows
    have all : length = count := taken.2 (some_ne_none _)
    have same : filled.take (filled.length - count) = filled.drop length := by
      change (!isASCII first && count ≠ 0 && missing (first :: rest) ≤ source.length &&
        (decodeNonASCIISequence filled count).1.isSome &&
        filled.take (filled.length - count) ≠ filled.drop count) = false at keeps
      simpa [ascii, valid, Nat.le_of_not_lt enough, decoded, all] using keeps
    rw [same, ← drop_append_of_le_length (Nat.le_trans taken.1 long)] at follows
    rw [← filled_append] at found ⊢
    exact follows.after found written

theorem handleFirst_next {sawError : Bool}
    (goesOn : handleFirst width flush false first rest source = .goOn units sawError next nextSource) :
    next = [] ∨ ∃ units' sawError', handleFirst .utf16 false false first rest source =
      .goOn units' sawError' next nextSource := by
  unfold handleFirst at *
  split at goesOn
  · cases goesOn
    exact .inr ⟨_, _, if_pos ‹_›⟩
  · rw [if_neg ‹_›]
    simp only at goesOn ⊢
    split at goesOn
    · rcases partialSequenceError_goOn goesOn with ⟨_, same⟩
      cases same
      exact .inr ⟨_, _, if_pos ‹_›⟩
    · rw [if_neg ‹_›]
      split at goesOn
      · split at goesOn
        · cases goesOn
        · rcases partialSequenceError_goOn goesOn with ⟨_, same⟩
          cases same
          exact .inl rfl
      · rw [if_neg ‹_›]
        right
        split at goesOn
        · rcases partialSequenceError_goOn goesOn with ⟨_, same⟩
          cases same
          exact ⟨_, _, rfl⟩
        · split at goesOn
          · cases goesOn
          · cases goesOn
            exact ⟨_, _, rfl⟩

theorem loses_next (keeps : loses (first :: rest) source = false) {sawError : Bool}
    (goesOn : handleFirst width flush false first rest source = .goOn units sawError next nextSource) :
    loses next nextSource = false := by
  rcases handleFirst_next goesOn with rfl | ⟨_, _, same⟩
  · rw [loses]
  · rw [loses_cons, same] at keeps
    exact (or_eq_false_iff.mp keeps).2

theorem handlePartialSequence_follows (width : Width) (flush : Bool) {partialSequence : List UInt8}
    (keeps : loses partialSequence source = false) :
    Follows flush (partialSequence ++ source) (handlePartialSequence width flush false partialSequence source) := by
  revert keeps
  have correct (first : UInt8) (rest source : List UInt8) (keeps : loses (first :: rest) source = false) :
      Correct flush (first :: rest ++ source) (handleFirst width flush false first rest source) := by
    rw [loses_cons] at keeps
    exact handleFirst_correct width flush (or_eq_false_iff.mp keeps).1
  fun_induction handlePartialSequence width flush false partialSequence source with
  | case1 => exact fun _ => .stays (if_pos (.inr rfl)) rfl rfl
  | case2 source first rest progress passed =>
    intro keeps
    have once := correct first rest source keeps
    rw [passed] at once
    exact .stays once.1 once.2.1 once.2.2
  | case3 source first rest units sawError next nextSource passed ih =>
    intro keeps
    have once := correct first rest source keeps
    rw [passed] at once
    exact once _ (ih (loses_next keeps passed))

end PartialSequence

theorem decodeFirst_correct (width : Width) (word : MachineWord) (flush : Bool) (endAddress : Nat)
    (first : UInt8) (rest : List UInt8) :
    match decodeFirst width word false endAddress first rest with
    | .leave progress => Follows flush (first :: rest) progress
    | .goOn units sawError _ nextSource => ∀ progress, Follows flush nextSource progress →
        Follows flush (first :: rest) (progress.after units sawError) := by
  have item {decoded : Option Nat × Nat} (ascii : ¬ isASCII first = true)
      (enough : ¬ nonASCIISequenceLength first > (first :: rest).length)
      (made : (if nonASCIISequenceLength first = 0 then (none, 1)
        else decodeNonASCIISequence (first :: rest) (nonASCIISequenceLength first)) = decoded) :
      nextItem (first :: rest) = some decoded := by
    rw [nextItem, if_neg ascii, ← made]
    simp only [if_neg enough]
    split <;> rfl
  fun_cases decodeFirst width word false endAddress first rest with
  | case1 ascii copied units made | case2 ascii copied units next others stops made =>
    rcases fastPath_spec made with ⟨whole, all⟩
    rw [← whole]
    exact fun progress follows => follows.after_ascii all
  | case3 ascii copied units next others more made =>
    rcases fastPath_spec made with ⟨whole, all⟩
    intro progress follows
    have longer : (copied ++ [next]).all isASCII = true := by
      rw [all_append, all]
      simpa using more
    have stepped := follows.after_ascii longer
    rw [map_append, append_assoc, singleton_append, whole] at stepped
    exact stepped
  | case4 => exact .stays (if_neg (by simp)) rfl rfl
  | case5 ascii count enough length _ stops => cases stops
  | case6 ascii count enough length stays _ unable made =>
    exact .stays_noticed (if_pos (.inl rfl)) rfl rfl (item ascii enough made)
  | case7 ascii count enough length _ units written made =>
    exact fun progress follows => follows.after (item ascii enough made) written
  | case8 => exact .stays (if_pos (.inl rfl)) rfl rfl
  | case9 ascii count enough length character units written made =>
    intro progress follows
    have counts : count ≠ 0 := (decoded_spec made).2 (some_ne_none _)
    have taken := (decodeNonASCIISequence_taken (first :: rest)
      ((nonASCIISequenceLength_cases first).resolve_left counts)).2
    have found := item ascii enough made
    rw [if_neg counts] at made
    rw [made] at taken
    have all : length = count := taken (some_ne_none _)
    rw [← all] at follows
    exact follows.after found written

theorem decodeSource_follows (width : Width) (word : MachineWord) (flush : Bool) (endAddress : Nat)
    (source : List UInt8) : Follows flush source (decodeSource width word false endAddress source) := by
  fun_induction decodeSource width word false endAddress source with
  | case1 => exact .stays (if_pos (.inr rfl)) rfl rfl
  | case2 first rest progress passed =>
    have correct := decodeFirst_correct width word flush endAddress first rest
    rw [passed] at correct
    exact correct
  | case3 first rest units sawError next nextSource passed ih =>
    have correct := decodeFirst_correct width word flush endAddress first rest
    rw [passed] at correct
    exact correct _ ih

end Odyssey.Text
