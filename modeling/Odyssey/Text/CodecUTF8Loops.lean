import Odyssey.Text.CodecUTF8Calls

namespace Odyssey.Text

open TextCodecUTF8 List Bool

variable {first : UInt8} {rest source : List UInt8} {progress : Progress}

theorem missing_of_waits (waits : nextItem (first :: rest) = none) : 0 < missing (first :: rest) ∧
      (first :: rest).length + missing (first :: rest) = nonASCIISequenceLength first := by
  have longer := (nextItem_eq_none.mp waits).2.2
  show 0 < nonASCIISequenceLength first - (first :: rest).length ∧ (first :: rest).length +
    (nonASCIISequenceLength first - (first :: rest).length) = nonASCIISequenceLength first
  omega

theorem waits_append (waits : nextItem (first :: rest) = none)
    (few : missing (first :: rest) > source.length) : nextItem (first :: rest ++ source) = none := by
  rcases nextItem_eq_none.mp waits with ⟨ascii, counts, _⟩
  exact nextItem_eq_none.mpr ⟨ascii, counts, missing_gt_iff.mp few⟩

theorem loses_of_waits {partialSequence : List UInt8} (waits : nextItem partialSequence = none) :
    loses partialSequence [] = false := by
  cases partialSequence with
  | nil => rw [loses]
  | cons first rest =>
    have more := (missing_of_waits waits).1
    rcases nextItem_eq_none.mp waits with ⟨ascii, counts, longer⟩
    have few : missing (first :: rest) > ([] : List UInt8).length := more
    have stays : handleFirst .utf16 false false first rest [] =
        .leave { source := [], partialSequence := first :: rest ++ [] } := by
      unfold handleFirst
      rw [ascii]
      rw [if_neg counts, if_pos few]
      rfl
    have keeps : losesFirst first rest [] = false := by
      have none : decide (missing (first :: rest) ≤ ([] : List UInt8).length) = false :=
        decide_eq_false (Nat.not_le.mpr few)
      simp only [losesFirst, none, Bool.and_false, Bool.false_and]
    rw [loses_cons, keeps, stays]
    rfl

theorem handleFirst_filled (waits : nextItem (first :: rest) = none)
    (enough : ¬ missing (first :: rest) > source.length) :
    losesFirst first (rest ++ source.take (missing (first :: rest))) (source.drop (missing (first :: rest))) =
        losesFirst first rest source ∧
      handleFirst .utf16 false false first (rest ++ source.take (missing (first :: rest)))
        (source.drop (missing (first :: rest))) = handleFirst .utf16 false false first rest source := by
  have sizes := missing_of_waits waits
  have filled : missing (first :: (rest ++ source.take (missing (first :: rest)))) = 0 := by
    show nonASCIISequenceLength first - (first :: (rest ++ source.take (missing (first :: rest)))).length = 0
    simp only [length_cons, length_append, length_take] at sizes ⊢
    omega
  constructor
  · simp [losesFirst, filled, Nat.le_of_not_lt enough]
  · rcases nextItem_eq_none.mp waits with ⟨ascii, counts, _⟩
    simp only [handleFirst, filled, take_zero, append_nil, cons_append, drop_zero,
      if_neg enough, Nat.not_lt_zero, if_false, ascii, false_eq_true, if_neg counts]

/-- What the narrow variant makes of a partial sequence: it keeps it with all of the source, it leaves it to
    the wide variant, with the missing bytes or without, or it writes one character. -/
inductive Narrow (flush : Bool) (first : UInt8) (rest source : List UInt8) : Progress → Prop
  | keeps (more : flush = false) (few : missing (first :: rest) > source.length) :
      Narrow flush first rest source { source := source, partialSequence := first :: rest ++ source }
  | leaves (few : missing (first :: rest) > source.length) : Narrow flush first rest source
      { source := source, partialSequence := first :: rest, upConvert := true }
  | leavesFilled (enough : ¬ missing (first :: rest) > source.length) : Narrow flush first rest source
      { source := source.drop (missing (first :: rest))
        partialSequence := first :: (rest ++ source.take (missing (first :: rest)))
        upConvert := true }
  | writes (enough : ¬ missing (first :: rest) > source.length) (unit : UInt16) :
      Narrow flush first rest source
        { units := [unit], source := source.drop (missing (first :: rest)), partialSequence := [] }

theorem handlePartialSequence_narrow (flush : Bool) (source : List UInt8) (waits : nextItem (first :: rest) = none) :
    Narrow flush first rest source (handlePartialSequence .latin1 flush false (first :: rest) source) := by
  rcases nextItem_eq_none.mp waits with ⟨ascii, counts, longer⟩
  have sizes := missing_of_waits waits
  rw [handlePartialSequence_cons]
  unfold handleFirst
  rw [ascii, if_neg Bool.false_ne_true]
  simp only
  rw [if_neg counts]
  by_cases few : missing (first :: rest) > source.length
  · rw [if_pos few]
    cases flush with
    | false => exact .keeps rfl few
    | true => exact .leaves few
  · rw [if_neg few]
    have exact' : (first :: rest ++ source.take (missing (first :: rest))).length -
        nonASCIISequenceLength first = 0 := by
      simp only [length_append, length_take] at sizes ⊢
      omega
    rw [exact', take_zero]
    cases decodeNonASCIISequence (first :: rest ++ source.take (missing (first :: rest)))
        (nonASCIISequenceLength first) with
    | mk character length =>
      cases character with
      | none => exact .leavesFilled few
      | some character =>
        simp only [Width.write]
        by_cases large : character > 0xFF
        · simp only [if_pos large]
          exact .leavesFilled few
        · simp only [if_neg large]
          rw [handlePartialSequence]
          exact .writes few _

theorem Narrow.loses {flush : Bool} (narrow : Narrow flush first rest source progress)
    (waits : nextItem (first :: rest) = none) (keeps : loses (first :: rest) source = false)
    (leaves : progress.upConvert = true) : loses progress.partialSequence progress.source = false := by
  cases narrow with
  | keeps => cases leaves
  | leaves few => exact keeps
  | leavesFilled enough =>
    rcases handleFirst_filled waits enough with ⟨first', next⟩
    rw [loses_cons] at keeps ⊢
    rw [first', next]
    exact keeps
  | writes => cases leaves

theorem handleFirst_wide {flush : Bool} (left : handleFirst .utf16 flush false first rest source = .leave progress) :
    flush = false ∧ progress.upConvert = false ∧ nextItem progress.partialSequence = none := by
  revert left
  fun_cases handleFirst .utf16 flush false first rest source with
  | case3 ascii count valid few more =>
    rintro ⟨⟩
    refine ⟨by simpa using more, rfl, ?_⟩
    exact nextItem_eq_none.mpr ⟨Bool.eq_false_iff.mpr ascii, valid, missing_gt_iff.mp few⟩
  | case6 ascii count valid enough filled later character length decoded unable => cases unable
  | _ =>
    intro goesOn
    cases goesOn

theorem handlePartialSequence_wide (flush : Bool) (partialSequence source : List UInt8) :
    let progress := handlePartialSequence .utf16 flush false partialSequence source
    progress.upConvert = false ∧ nextItem progress.partialSequence = none ∧
      (flush = true → progress.partialSequence = []) := by
  fun_induction handlePartialSequence .utf16 flush false partialSequence source with
  | case1 => exact ⟨rfl, rfl, fun _ => rfl⟩
  | case2 source first rest progress passed =>
    rcases handleFirst_wide passed with ⟨more, stays, waits⟩
    refine ⟨stays, waits, ?_⟩
    intro flushes
    rw [more] at flushes
    cases flushes
  | case3 source first rest units sawError next nextSource passed ih => exact ih

theorem decodeFirst_left {width : Width} {word : MachineWord} {endAddress : Nat}
    (left : decodeFirst width word false endAddress first rest = .leave progress) :
    nextItem progress.partialSequence = none ∧ (progress.upConvert = false → progress.source = []) ∧
      (progress.upConvert = true → progress.partialSequence = [] ∧ width = .latin1) := by
  have wide (item : Option Nat) (unable : width.write item = none) : width = .latin1 := by
    cases width with
    | latin1 => rfl
    | utf16 => cases item <;> cases unable
  revert left
  fun_cases decodeFirst width word false endAddress first rest with
  | case4 ascii count few =>
    rintro ⟨⟩
    refine ⟨?_, fun _ => rfl, by simp⟩
    exact nextItem_eq_none.mpr ⟨Bool.eq_false_iff.mpr ascii, Nat.ne_zero_of_lt few, few⟩
  | case5 ascii count enough length _ stops => cases stops
  | case6 ascii count enough length _ _ unable | case8 ascii count enough length _ character unable =>
    rintro ⟨⟩
    exact ⟨rfl, by simp, fun _ => ⟨rfl, wide _ unable⟩⟩
  | _ =>
    intro goesOn
    cases goesOn

theorem decodeSource_left (width : Width) (word : MachineWord) (endAddress : Nat) (source : List UInt8) :
    let progress := decodeSource width word false endAddress source
    nextItem progress.partialSequence = none ∧ (progress.upConvert = false → progress.source = []) ∧
      (progress.upConvert = true → progress.partialSequence = [] ∧ width = .latin1) := by
  fun_induction decodeSource width word false endAddress source with
  | case1 => exact ⟨rfl, fun _ => rfl, by simp⟩
  | case2 first rest progress passed => exact decodeFirst_left passed
  | case3 first rest units sawError next nextSource passed ih => exact ih

section Loops

variable {word : MachineWord} {flush : Bool} {endAddress : Nat} {partialSequence source : List UInt8}

def Ready : Width → List UInt8 → Prop
  | .latin1, partialSequence => nextItem partialSequence = none
  | .utf16, _ => True

theorem ready_of_waits (width : Width) (waits : nextItem partialSequence = none) : Ready width partialSequence := by
  cases width with
  | latin1 => exact waits
  | utf16 => trivial

def Left (flush : Bool) (passed : Progress × Bool) : Prop :=
  nextItem passed.1.partialSequence = none ∧ (passed.2 = false → passed.1.source = []) ∧
    (passed.2 = true → passed.1.partialSequence ≠ [] ∧ flush = false)

variable {width : Width}

theorem decodeSource_pass (stays : (decodeSource width word false endAddress source).upConvert = false)
    (units : List UInt16) (sawError : Bool) :
    Left flush ((decodeSource width word false endAddress source).after units sawError, false) := by
  have left := decodeSource_left width word endAddress source
  exact ⟨left.1, fun _ => left.2.1 stays, nofun⟩

theorem decodePass_left (ready : Ready width partialSequence)
    (stays : (decodePass width word flush false endAddress partialSequence source).1.upConvert = false) :
    Left flush (decodePass width word flush false endAddress partialSequence source) := by
  unfold decodePass at *
  cases partialSequence with
  | nil => exact decodeSource_pass stays [] false
  | cons first rest =>
    simp only [reduceCtorEq, if_false] at stays ⊢
    cases width with
    | latin1 =>
      have narrow := handlePartialSequence_narrow flush source ready
      generalize handlePartialSequence .latin1 flush false (first :: rest) source = handled at *
      cases narrow with
      | keeps more few => exact ⟨waits_append ready few, nofun, fun _ => ⟨cons_ne_nil _ _, more⟩⟩
      | leaves few => cases stays
      | leavesFilled enough => cases stays
      | writes enough unit => exact decodeSource_pass stays _ _
    | utf16 =>
      rcases handlePartialSequence_wide flush (first :: rest) source with ⟨wide, waits, flushed⟩
      rw [wide, if_neg Bool.false_ne_true] at stays ⊢
      split_ifs at stays with kept
      · rw [if_pos kept]
        refine ⟨waits, nofun, fun _ => ⟨kept, ?_⟩⟩
        rw [eq_false_iff]
        exact fun flushes => kept (flushed flushes)
      · rw [if_neg ‹_›]
        exact decodeSource_pass stays _ _

theorem decodeSource_keeps (input : List UInt8) (units : List UInt16) (sawError : Bool)
    (leaves : ((decodeSource width word false endAddress input).after units sawError).upConvert = true) :
    loses ((decodeSource width word false endAddress input).after units sawError).partialSequence
      ((decodeSource width word false endAddress input).after units sawError).source = false := by
  have empty := ((decodeSource_left width word endAddress input).2.2 leaves).1
  show loses (decodeSource width word false endAddress input).partialSequence _ = false
  rw [empty, loses]

theorem decodeLoop_settled (ready : Ready width partialSequence)
    (stays : (decodeLoop width word flush false endAddress partialSequence source).upConvert = false) :
    Settled flush (decodeLoop width word flush false endAddress partialSequence source) := by
  revert ready stays
  fun_induction decodeLoop width word flush false endAddress partialSequence source with
  | case1 partialSequence source passed goesOn ih =>
    intro ready stays
    have waits := (decodePass_left ready goesOn.2.1).1
    exact { ih (ready_of_waits width waits) stays with }
  | case2 partialSequence source passed stops =>
    intro ready stays
    rcases decodePass_left ready stays with ⟨waits, ended, left⟩
    refine ⟨stays, waits, ?_, ?_⟩
    · intro none
      apply ended
      rw [eq_false_iff]
      intro leaves
      exact (left leaves).1 none
    · intro flushes
      by_contra kept
      have goesOn : passed.2 = false := by
        rw [eq_false_iff]
        intro leaves
        have more := (left leaves).2
        rw [flushes] at more
        cases more
      exact stops ⟨goesOn, stays, flushes, kept⟩

variable (word flush endAddress)

theorem decodePass_wide (partialSequence source : List UInt8) :
    (decodePass .utf16 word flush false endAddress partialSequence source).1.upConvert = false := by
  have onlyWide (input : List UInt8) : (decodeSource .utf16 word false endAddress input).upConvert = false := by
    rw [eq_false_iff]
    intro leaves
    cases ((decodeSource_left .utf16 word endAddress input).2.2 leaves).2
  have stays := (handlePartialSequence_wide flush partialSequence source).1
  unfold decodePass
  split
  · exact onlyWide source
  · simp only [stays, false_eq_true, if_false]
    split
    · exact stays
    · exact onlyWide _

theorem decodePass_follows (ready : Ready width partialSequence) (keeps : loses partialSequence source = false) :
    let progress := (decodePass width word flush false endAddress partialSequence source).1
    Follows flush (partialSequence ++ source) progress ∧
      (progress.upConvert = true → loses progress.partialSequence progress.source = false) := by
  unfold decodePass
  cases partialSequence with
  | nil => exact ⟨decodeSource_follows width word flush endAddress source, decodeSource_keeps source [] false⟩
  | cons first rest =>
    simp only [reduceCtorEq, if_false]
    have follows := handlePartialSequence_follows width flush keeps
    cases width with
    | latin1 =>
      have narrow := handlePartialSequence_narrow flush source ready
      have leaves := narrow.loses ready keeps
      generalize handlePartialSequence .latin1 flush false (first :: rest) source = handled at *
      cases narrow with
      | keeps more few => exact ⟨follows, nofun⟩
      | leaves few => exact ⟨follows, leaves⟩
      | leavesFilled enough => exact ⟨follows, leaves⟩
      | writes enough unit =>
        refine ⟨follows.trans rfl ?_, decodeSource_keeps _ _ _⟩
        exact decodeSource_follows .latin1 word flush endAddress _
    | utf16 =>
      have stays := (handlePartialSequence_wide flush (first :: rest) source).1
      rw [stays, if_neg Bool.false_ne_true]
      by_cases kept : (handlePartialSequence .utf16 flush false (first :: rest) source).partialSequence ≠ []
      · rw [if_pos kept]
        refine ⟨follows, fun leaves => ?_⟩
        rw [stays] at leaves
        cases leaves
      · rw [if_neg kept]
        refine ⟨follows.trans stays ?_, decodeSource_keeps _ _ _⟩
        rw [Progress.remaining, if_pos (.inr (not_not.mp kept)), not_not.mp kept]
        exact decodeSource_follows .utf16 word flush endAddress _

theorem decodeLoop_wide (partialSequence source : List UInt8) :
    (decodeLoop .utf16 word flush false endAddress partialSequence source).upConvert = false := by
  fun_induction decodeLoop .utf16 word flush false endAddress partialSequence source with
  | case1 partialSequence source passed goesOn ih => exact ih
  | case2 partialSequence source => exact decodePass_wide word flush endAddress partialSequence source

theorem decodeLoop_follows (ready : Ready width partialSequence) (keeps : loses partialSequence source = false) :
    let progress := decodeLoop width word flush false endAddress partialSequence source
    Follows flush (partialSequence ++ source) progress ∧
      (progress.upConvert = true → loses progress.partialSequence progress.source = false) := by
  revert ready keeps
  fun_induction decodeLoop width word flush false endAddress partialSequence source with
  | case1 partialSequence source passed goesOn ih =>
    intro ready keeps
    have follows := (decodePass_follows word flush endAddress ready keeps).1
    rcases decodePass_left ready goesOn.2.1 with ⟨waits, ended, _⟩
    have empty : passed.1.source = [] := ended goesOn.1
    rw [empty] at ih
    rcases ih (ready_of_waits width waits) (loses_of_waits waits) with ⟨later, leaves⟩
    rw [append_nil] at later
    have remaining : passed.1.remaining = passed.1.partialSequence := by
      rw [Progress.remaining, if_neg (by simp [goesOn.2.1, goesOn.2.2.2])]
    rw [empty]
    exact ⟨follows.trans goesOn.2.1 (remaining.symm ▸ later), leaves⟩
  | case2 partialSequence source => exact decodePass_follows word flush endAddress

end Loops

theorem Follows.settled {flush : Bool} {input : List UInt8} {progress : Progress}
    (follows : Follows flush input progress) (settled : Settled flush progress) :
    progress.units = unitsOf (itemsOf flush input).1 ∧ progress.partialSequence = (itemsOf flush input).2 ∧
      progress.sawError = decide (none ∈ (itemsOf flush input).1) := by
  rcases follows with ⟨found, same, text, noticed, seen⟩
  rw [settled.remaining, append_nil] at same
  rw [same]
  refine ⟨text, rfl, ?_⟩
  rw [Bool.eq_iff_iff, decide_eq_true_eq]
  refine ⟨?_, noticed⟩
  intro saw
  rcases seen saw with inside | ahead
  · exact inside
  · rw [settled.upConvert] at ahead
    cases ahead.1

/-- What a call returns and keeps, if no bytes are lost: the items of what was kept and what came, each in
    its units. -/
theorem decode_eq (word : MachineWord) (endAddress : Nat) {codec : TextCodecUTF8}
    (waits : nextItem codec.partialSequence = none) {bytes : List UInt8}
    (keeps : loses codec.partialSequence bytes = false) (flush sawError : Bool) :
    let decoded := codec.decode word endAddress bytes flush false sawError
    let expected := itemsOf flush (codec.partialSequence ++ bytes)
    decoded.result = unitsOf expected.1 ∧ decoded.codec.partialSequence = expected.2 ∧
      decoded.sawError = (sawError || decide (none ∈ expected.1)) := by
  have ready : Ready .latin1 codec.partialSequence := waits
  rcases decodeLoop_follows word flush endAddress ready keeps with ⟨follows, leaves⟩
  have stays (stays : (decodeLoop .latin1 word flush false endAddress codec.partialSequence bytes).upConvert =
    false) := decodeLoop_settled ready stays
  unfold decode
  generalize decodeLoop .latin1 word flush false endAddress codec.partialSequence bytes = narrow at *
  simp only
  cases up : narrow.upConvert with
  | false =>
    rcases follows.settled (stays up) with ⟨text, kept, saw⟩
    simp only [Bool.not_false, if_true]
    exact ⟨text, kept, by rw [saw]⟩
  | true =>
    have wide : Ready .utf16 narrow.partialSequence := trivial
    have goesOn := (decodeLoop_follows word flush endAddress wide (leaves up)).1
    rcases goesOn.settled (decodeLoop_settled wide (decodeLoop_wide _ _ _ _ _)) with ⟨text', kept', saw'⟩
    rcases follows with ⟨found, same, text, noticed, seen⟩
    have rest : narrow.remaining = narrow.partialSequence ++ narrow.source := if_pos (.inl up)
    rw [rest] at same seen
    simp only [Bool.not_true, false_eq_true, if_false]
    rw [same, unitsOf_append, ← text, ← text', ← kept']
    refine ⟨rfl, rfl, ?_⟩
    rw [saw', Bool.or_assoc]
    congr 1
    rw [Bool.eq_iff_iff, or_eq_true, decide_eq_true_eq, decide_eq_true_eq, mem_append]
    constructor
    · rintro (saw | later)
      · rcases seen saw with inside | ⟨_, taken, error⟩
        · exact .inl inside
        · rw [itemsOf_item error]
          exact .inr mem_cons_self
      · exact .inr later
    · rintro (inside | later)
      · exact .inl (noticed inside)
      · exact .inr later

end Odyssey.Text
