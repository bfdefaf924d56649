import Odyssey.Systems.Run
import Odyssey.Text.CodecUTF8Loops

namespace Odyssey.Text

open Systems TextCodecUTF8 List

theorem write_length {width : Width} {item : Option Nat} {units : List UInt16}
    (written : width.write item = some units) : units.length ≤ 2 ∧ (item = none → units.length = 1) := by
  rw [← write_eq written]
  cases item with
  | none => exact ⟨Nat.le_succ 1, fun _ => rfl⟩
  | some character =>
    refine ⟨?_, nofun⟩
    show (appendCharacter character).length ≤ 2
    unfold appendCharacter
    split
    · exact Nat.le_succ 1
    · exact Nat.le_refl 2

def Pass.size : Pass → Nat
  | .leave progress => progress.units.length + progress.source.length
  | .goOn units _ next source => units.length + next.length + source.length

theorem partialSequenceError_size {width : Width} {kept keptSource next nextSource : List UInt8} {bound : Nat}
    (inside : keptSource.length ≤ bound) (less : 1 + next.length + nextSource.length ≤ bound) :
    (partialSequenceError width false kept keptSource (.goOn · true next nextSource)).size ≤ bound := by
  unfold partialSequenceError
  cases written : width.write none with
  | none =>
    show 0 + keptSource.length ≤ bound
    omega
  | some units =>
    have one := (write_length written).2 rfl
    show units.length + next.length + nextSource.length ≤ bound
    omega

section Written

variable (width : Width) (word : MachineWord) (flush : Bool) (endAddress : Nat)

theorem handleFirst_size (first : UInt8) (rest source : List UInt8) :
    (handleFirst width flush false first rest source).size ≤ (first :: rest).length + source.length := by
  have unread : source.length ≤ (first :: rest).length + source.length := Nat.le_add_left _ _
  fun_cases handleFirst width flush false first rest source with
  | case1 ascii =>
    show 1 + rest.length + source.length ≤ rest.length + 1 + source.length
    omega
  | case2 =>
    apply partialSequenceError_size unread
    simp only [length_cons]
    omega
  | case3 =>
    show 0 + source.length ≤ _
    omega
  | case4 =>
    apply partialSequenceError_size unread
    simp only [length_cons, length_nil]
    omega
  | case5 ascii count valid enough filled later length decoded =>
    have total : filled.length + later.length = _ := filled_length
    have long : count ≤ filled.length := (filled_item ascii valid enough rfl).2
    have positive := decodeNonASCIISequence_length filled count
    rw [decoded] at positive
    apply partialSequenceError_size
    · omega
    · rw [length_drop]
      omega
  | case6 ascii count valid enough filled later character length decoded unable =>
    have total : filled.length + later.length = _ := filled_length
    show 0 + later.length ≤ _
    omega
  | case7 ascii count valid enough filled later character length decoded units written =>
    have total : filled.length + later.length = _ := filled_length
    have long : count ≤ filled.length := (filled_item ascii valid enough rfl).2
    have known := (nonASCIISequenceLength_cases first).resolve_left valid
    have two := (write_length written).1
    show units.length + (filled.take (filled.length - count)).length + later.length ≤ _
    rw [length_take]
    omega

theorem handlePartialSequence_size (partialSequence source : List UInt8) :
    (handlePartialSequence width flush false partialSequence source).units.length +
        (handlePartialSequence width flush false partialSequence source).source.length ≤
      partialSequence.length + source.length := by
  fun_induction handlePartialSequence width flush false partialSequence source with
  | case1 => exact Nat.le_refl _
  | case2 source first rest progress passed =>
    have once := handleFirst_size width flush first rest source
    rw [passed] at once
    exact once
  | case3 source first rest units sawError next nextSource passed ih =>
    have once := handleFirst_size width flush first rest source
    rw [passed] at once
    simp only [Pass.size] at once
    simp only [Progress.after, length_append]
    omega

def Progress.size (progress : Progress) : Nat :=
  progress.units.length + progress.partialSequence.length + progress.source.length

def Pass.sourceSize : Pass → Nat
  | .leave progress => progress.size
  | .goOn units _ _ source => units.length + source.length

theorem decodeFirst_size (first : UInt8) (rest : List UInt8) :
    (decodeFirst width word false endAddress first rest).sourceSize ≤ (first :: rest).length := by
  fun_cases decodeFirst width word false endAddress first rest with
  | case1 ascii copied units made | case2 ascii copied units next others stops made =>
    have whole := congrArg length (fastPath_spec made).1
    rw [length_append] at whole
    simp only [Pass.sourceSize, units, length_map]
    omega
  | case3 ascii copied units next others more made =>
    have whole := congrArg length (fastPath_spec made).1
    simp only [Pass.sourceSize, units, length_append, length_map, length_cons, length_nil] at whole ⊢
    omega
  | case4 => simp [Pass.sourceSize, Progress.size]
  | case5 ascii count enough length _ stops => cases stops
  | case6 | case8 =>
    show 0 + 0 + (first :: rest).length ≤ _
    omega
  | case7 ascii count enough length _ units written made =>
    have positive := (decoded_spec made).1
    have one := (write_length written).2 rfl
    simp only [Pass.sourceSize, length_drop, length_cons]
    omega
  | case9 ascii count enough length character units written made =>
    have counts := (decoded_spec made).2 (Option.some_ne_none _)
    have known := (nonASCIISequenceLength_cases first).resolve_left counts
    have two := (write_length written).1
    simp only [Pass.sourceSize, length_drop]
    omega

theorem decodeSource_size (source : List UInt8) :
    (decodeSource width word false endAddress source).size ≤ source.length := by
  fun_induction decodeSource width word false endAddress source with
  | case1 => exact Nat.zero_le _
  | case2 first rest progress passed =>
    have once := decodeFirst_size width word endAddress first rest
    rw [passed] at once
    exact once
  | case3 first rest units sawError next nextSource passed ih =>
    have once := decodeFirst_size width word endAddress first rest
    rw [passed] at once
    simp only [Pass.sourceSize, Progress.size, Progress.after, length_append] at once ih ⊢
    omega

theorem decodePass_size (partialSequence source : List UInt8) :
    let passed := decodePass width word flush false endAddress partialSequence source
    passed.1.units.length + passed.1.source.length ≤ partialSequence.length + source.length ∧
      (passed.2 = false → passed.1.size ≤ partialSequence.length + source.length) := by
  have direct := decodeSource_size width word endAddress source
  have handled := handlePartialSequence_size width flush partialSequence source
  have later := decodeSource_size width word endAddress
    (handlePartialSequence width flush false partialSequence source).source
  unfold decodePass
  simp only [Progress.size] at direct later ⊢
  split
  · simp only
    omega
  · split
    · refine ⟨?_, nofun⟩
      simp only [length_nil]
      omega
    · split
      · exact ⟨handled, nofun⟩
      · simp only [Progress.after, length_append]
        omega

theorem decodeLoop_size (partialSequence source : List UInt8) :
    let progress := decodeLoop width word flush false endAddress partialSequence source
    progress.units.length + progress.source.length ≤ partialSequence.length + source.length := by
  fun_induction decodeLoop width word flush false endAddress partialSequence source with
  | case1 partialSequence source passed goesOn ih =>
    have here : passed.1.size ≤ _ := (decodePass_size width word flush endAddress partialSequence source).2 goesOn.1
    simp only [Progress.size, Progress.after, length_append] at here ih ⊢
    omega
  | case2 partialSequence source => exact (decodePass_size width word flush endAddress partialSequence source).1

variable {partialSequence : List UInt8}

theorem decodePass_narrow_size (waits : nextItem partialSequence = none) (source : List UInt8) :
    let progress := (decodePass .latin1 word flush false endAddress partialSequence source).1
    progress.units.length + progress.source.length ≤ source.length := by
  unfold decodePass
  cases partialSequence with
  | nil =>
    have direct := decodeSource_size .latin1 word endAddress source
    simp only [Progress.size, if_true] at direct ⊢
    omega
  | cons first rest =>
    simp only [reduceCtorEq]
    have more := (missing_of_waits waits).1
    have narrow := handlePartialSequence_narrow flush source waits
    generalize handlePartialSequence .latin1 flush false (first :: rest) source = handled at narrow ⊢
    cases narrow with
    | keeps | leaves | leavesFilled => simp
    | writes enough unit =>
      have later := decodeSource_size .latin1 word endAddress (source.drop (missing (first :: rest)))
      simp only [Progress.size, Progress.after, Bool.false_eq_true, if_false, ne_eq, not_true_eq_false,
        length_append, length_drop, length_cons, length_nil] at later ⊢
      omega

theorem decodeLoop_narrow_size (waits : nextItem partialSequence = none) (source : List UInt8) :
    let progress := decodeLoop .latin1 word flush false endAddress partialSequence source
    progress.units.length + progress.source.length ≤ source.length := by
  revert waits
  fun_induction decodeLoop .latin1 word flush false endAddress partialSequence source with
  | case1 partialSequence source passed goesOn ih =>
    intro waits
    have once : passed.1.units.length + passed.1.source.length ≤ source.length :=
      decodePass_narrow_size word flush endAddress waits source
    have ready : Ready .latin1 partialSequence := waits
    have later := ih (decodePass_left ready goesOn.2.1).1
    simp only [Progress.after, length_append] at later ⊢
    omega
  | case2 partialSequence source => exact fun waits => decodePass_narrow_size word flush endAddress waits source

variable {codec : TextCodecUTF8} (waits : nextItem codec.partialSequence = none) (bytes : List UInt8)
  (sawError : Bool)
include waits

theorem decode_buffers :
    ∀ buffer ∈ (codec.decode word endAddress bytes flush false sawError).buffers, buffer.2 ≤ buffer.1 := by
  have narrow := decodeLoop_narrow_size word flush endAddress waits bytes
  have wide := decodeLoop_size .utf16 word flush endAddress
    (decodeLoop .latin1 word flush false endAddress codec.partialSequence bytes).partialSequence
    (decodeLoop .latin1 word flush false endAddress codec.partialSequence bytes).source
  unfold decode
  simp only at narrow wide ⊢
  split
  · simp only [mem_singleton, forall_eq]
    omega
  · simp only [mem_cons, not_mem_nil, or_false, forall_eq_or_imp, forall_eq, length_append]
    omega

theorem decode_waits :
    nextItem (codec.decode word endAddress bytes flush false sawError).codec.partialSequence = none := by
  have ready : Ready .latin1 codec.partialSequence := waits
  unfold decode
  simp only
  cases up : (decodeLoop .latin1 word flush false endAddress codec.partialSequence bytes).upConvert with
  | false => exact (decodeLoop_settled ready up).waits
  | true =>
    have wide : Ready .utf16
        (decodeLoop .latin1 word flush false endAddress codec.partialSequence bytes).partialSequence := trivial
    exact (decodeLoop_settled wide (decodeLoop_wide _ _ _ _ _)).waits

end Written

theorem length_of_waits {partialSequence : List UInt8} (waits : nextItem partialSequence = none) :
    partialSequence.length ≤ 3 := by
  cases partialSequence with
  | nil => exact Nat.zero_le _
  | cons first rest =>
    have longer := (nextItem_eq_none.mp waits).2.2
    have known := nonASCIISequenceLength_cases first
    omega

structure Transcript where
  units : List UInt16 := []
  codec : TextCodecUTF8 := {}
  sawError : Bool := false

def Transcript.call (word : MachineWord) (flush : Bool) (current : Transcript) (chunk : Nat × List UInt8) :
    Transcript :=
  let decoded := current.codec.decode word chunk.1 chunk.2 flush false current.sawError
  { units := current.units ++ decoded.result, codec := decoded.codec, sawError := decoded.sawError }

def Keeps (word : MachineWord) (chunks : List (Nat × List UInt8)) : Prop :=
  StepsMeet (fun current chunk => some (Transcript.call word false current chunk))
    (fun current chunk => loses current.codec.partialSequence chunk.2 = false) {} chunks

theorem itemsOf_append (flush : Bool) (bytes more : List UInt8) : itemsOf flush (bytes ++ more) =
      ((itemsOf false bytes).1 ++ (itemsOf flush ((itemsOf false bytes).2 ++ more)).1,
        (itemsOf flush ((itemsOf false bytes).2 ++ more)).2) := by
  have settled := (Consumer.settle_append [] bytes more).trans
    (settle_items (itemReader.settle [] bytes).1 ((itemReader.settle [] bytes).2 ++ more))
  simp only [itemsOf, settled, Bool.false_eq_true, false_and, if_false]
  split
  · rw [append_assoc]
  · rfl

structure Reads (flush : Bool) (bytes : List UInt8) (current : Transcript) : Prop where
  units : current.units = unitsOf (itemsOf flush bytes).1
  kept : current.codec.partialSequence = (itemsOf flush bytes).2
  sawError : current.sawError = decide (none ∈ (itemsOf flush bytes).1)

theorem Reads.start : Reads false [] {} := by
  constructor
  · rw [itemsOf_nil]
    rfl
  · rw [itemsOf_nil]
  · rw [itemsOf_nil]
    rfl

section Calls

variable {current : Transcript} (word : MachineWord) (waits : nextItem current.codec.partialSequence = none)
include waits

theorem Transcript.call_waits (flush : Bool) (chunk : Nat × List UInt8) :
    nextItem (current.call word flush chunk).codec.partialSequence = none :=
  decode_waits word flush chunk.1 waits chunk.2 current.sawError

theorem calls_wait (chunks : List (Nat × List UInt8)) :
    nextItem (chunks.foldl (Transcript.call word false) current).codec.partialSequence = none := by
  induction chunks generalizing current with
  | nil => exact waits
  | cons chunk chunks ih => exact ih (Transcript.call_waits word waits false chunk)

variable {bytes : List UInt8} (reads : Reads false bytes current)
include reads

theorem Reads.call (chunk : Nat × List UInt8) (keeps : loses current.codec.partialSequence chunk.2 = false)
    (flush : Bool) : Reads flush (bytes ++ chunk.2) (current.call word flush chunk) := by
  rcases decode_eq word chunk.1 waits keeps flush current.sawError with ⟨text, kept, saw⟩
  rw [reads.kept] at text kept saw
  rcases reads with ⟨units, _, sawError⟩
  constructor
  · rw [itemsOf_append, unitsOf_append, ← units, ← text]
    rfl
  · rw [itemsOf_append]
    exact kept
  · rw [itemsOf_append]
    simp only [mem_append, Bool.decide_or]
    rw [← sawError]
    exact saw

theorem calls_read (front : List (Nat × List UInt8)) (last : Nat × List UInt8)
    (keeps : StepsMeet (fun current chunk => some (Transcript.call word false current chunk))
      (fun current chunk => loses current.codec.partialSequence chunk.2 = false) current (front ++ [last])) :
    Reads true (bytes ++ (front ++ [last]).flatMap (·.2))
      ((front.foldl (Transcript.call word false) current).call word true last) := by
  induction front generalizing current bytes with
  | nil =>
    have read := reads.call word waits last keeps.1 true
    simp only [nil_append, flatMap_cons, flatMap_nil, append_nil]
    exact read
  | cons chunk front ih =>
    have read := ih (Transcript.call_waits word waits false chunk) (reads.call word waits chunk keeps.1 false)
      (keeps.2 _ rfl)
    rw [append_assoc] at read
    exact read

end Calls

/-- Between calls at most three bytes are kept, no call writes past its buffers, and if no byte is lost the
    calls give what one call gives. -/
theorem decode_independent_of_chunks (word : MachineWord) (front : List (Nat × List UInt8))
    (last : Nat × List UInt8) (endAddress : Nat) :
    let current := front.foldl (Transcript.call word false) {}
    let final := current.call word true last
    let whole := Transcript.call word true {} (endAddress, (front ++ [last]).flatMap (·.2))
    current.codec.partialSequence.length ≤ 3 ∧
      (∀ flush, ∀ buffer ∈
        (current.codec.decode word last.1 last.2 flush false current.sawError).buffers, buffer.2 ≤ buffer.1) ∧
      (Keeps word (front ++ [last]) → final.units = whole.units ∧ final.sawError = whole.sawError) := by
  have waits : nextItem (front.foldl (Transcript.call word false) {}).codec.partialSequence = none :=
    calls_wait word rfl front
  refine ⟨length_of_waits waits, fun flush => decode_buffers word flush last.1 waits last.2 _, ?_⟩
  intro keeps
  have parts := calls_read word rfl Reads.start front last keeps
  have start : loses [] ((front ++ [last]).flatMap (·.2)) = false := by rw [loses]
  have whole := Reads.start.call word rfl (endAddress, _) start true
  exact ⟨parts.units.trans whole.units.symm, parts.sawError.trans whole.sawError.symm⟩

theorem decode_letter_in_two_chunks :
    let final := (([(2, [0x41, 0xC3])] : List (Nat × List UInt8)).foldl (Transcript.call .bits64 false) {}).call
      .bits64 true (1, [0xA9])
    let whole := Transcript.call .bits64 true {} (3, [0x41, 0xC3, 0xA9])
    Keeps .bits64 [(2, [0x41, 0xC3]), (1, [0xA9])] ∧ final.units = whole.units ∧
      final.sawError = whole.sawError := by
  have keeps : Keeps .bits64 [(2, [0x41, 0xC3]), (1, [0xA9])] := by
    apply stepsMeet_of_check (fun _ _ => of_decide_eq_true)
    decide +kernel
  exact ⟨keeps, (decode_independent_of_chunks .bits64 [(2, [0x41, 0xC3])] (1, [0xA9]) 3).2.2 keeps⟩

/-- The lead of a sequence of four bytes is followed by a letter of two bytes and an ASCII letter. If a chunk
    ends within the first letter, the first byte of it is read again in place of the second letter. -/
theorem decode_loses_letter :
    let final := (([(2, [0xF0, 0xC3])] : List (Nat × List UInt8)).foldl (Transcript.call .bits64 false) {}).call
      .bits64 true (2, [0xA9, 0x41])
    let whole := Transcript.call .bits64 true {} (4, [0xF0, 0xC3, 0xA9, 0x41])
    final.units = [0xFFFD, 0x00E9, 0xFFFD] ∧ whole.units = [0xFFFD, 0x00E9, 0x0041] := by
  decide +kernel

end Odyssey.Text
