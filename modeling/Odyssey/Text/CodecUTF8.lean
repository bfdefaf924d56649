import Mathlib.Algebra.Group.Nat.Defs
import Mathlib.Data.List.Basic

namespace Odyssey.Text

open List Nat

inductive MachineWord where
  | bits32
  | bits64

def MachineWord.bytes : MachineWord → Nat
  | .bits32 => 4
  | .bits64 => 8

def isASCII (byte : UInt8) : Bool := byte < 0x80

/-- The table of lengths; a byte that begins no sequence has none. -/
def nonASCIISequenceLength (firstByte : UInt8) : Nat :=
  if firstByte < 0xC2 then 0
  else if firstByte < 0xE0 then 2
  else if firstByte < 0xF0 then 3
  else if firstByte < 0xF5 then 4
  else 0

def outside (low high byte : UInt8) : Bool := byte < low || byte > high

/-- The character, or none and the length of what is wrong. -/
def decodeNonASCIISequence (sequence : List UInt8) (length : Nat) : Option Nat × Nat :=
  let byte (i : Nat) := sequence.getD i 0
  if length = 2 then
    if outside 0x80 0xBF (byte 1) then (none, 1)
    else (some ((byte 0).toNat * 2^6 + (byte 1).toNat - 0x00003080), 2)
  else if length = 3 then
    if byte 0 = 0xE0 && outside 0xA0 0xBF (byte 1) then (none, 1)
    else if byte 0 = 0xED && outside 0x80 0x9F (byte 1) then (none, 1)
    else if byte 0 ≠ 0xE0 && byte 0 ≠ 0xED && outside 0x80 0xBF (byte 1) then (none, 1)
    else if outside 0x80 0xBF (byte 2) then (none, 2)
    else (some ((byte 0).toNat * 2^12 + (byte 1).toNat * 2^6 + (byte 2).toNat - 0x000E2080), 3)
  else
    if byte 0 = 0xF0 && outside 0x90 0xBF (byte 1) then (none, 1)
    else if byte 0 = 0xF4 && outside 0x80 0x8F (byte 1) then (none, 1)
    else if byte 0 ≠ 0xF0 && byte 0 ≠ 0xF4 && outside 0x80 0xBF (byte 1) then (none, 1)
    else if outside 0x80 0xBF (byte 2) then (none, 2)
    else if outside 0x80 0xBF (byte 3) then (none, 3)
    else (some ((byte 0).toNat * 2^18 + (byte 1).toNat * 2^12 + (byte 2).toNat * 2^6 + (byte 3).toNat -
      0x03C82080), 4)

def replacementCharacter : UInt16 := 0xFFFD

def appendCharacter (character : Nat) : List UInt16 :=
  if character ≤ 0xFFFF then [UInt16.ofNat character]
  else [UInt16.ofNat (character / 2^10 + 0xD7C0), UInt16.ofNat (character % 2^10 + 0xDC00)]

inductive Width where
  | latin1
  | utf16

/-- What is written for a character, or for an error. The narrow buffer cannot hold all of it. -/
def Width.write : Width → Option Nat → Option (List UInt16)
  | .latin1, none => none
  | .latin1, some character => if character > 0xFF then none else some [UInt16.ofNat character]
  | .utf16, none => some [replacementCharacter]
  | .utf16, some character => some (appendCharacter character)

/-- Where a loop stands when it is left: what it has written, the rest of the input, the partial sequence,
    whether there was an error, and whether the wide buffer is needed. -/
structure Progress where
  units : List UInt16 := []
  source : List UInt8
  partialSequence : List UInt8
  sawError : Bool := false
  upConvert : Bool := false

def Progress.after (units : List UInt16) (sawError : Bool) (progress : Progress) : Progress :=
  { progress with units := units ++ progress.units, sawError := sawError || progress.sawError }

/-- One pass of a loop: it is left, or goes on with less. -/
inductive Pass where
  | leave (progress : Progress)
  | goOn (units : List UInt16) (sawError : Bool) (partialSequence source : List UInt8)

def Pass.source : Pass → List UInt8
  | .leave progress => progress.source
  | .goOn _ _ _ source => source

namespace TextCodecUTF8

def missing (partialSequence : List UInt8) : Nat :=
  nonASCIISequenceLength (partialSequence.headD 0) - partialSequence.length

/-- An error in the partial sequence is left to the wide variant by the narrow one. -/
def partialSequenceError (width : Width) (stopOnError : Bool) (partialSequence source : List UInt8)
    (next : List UInt16 → Pass) : Pass :=
  match width.write none with
  | none => .leave { source := source, partialSequence := partialSequence, upConvert := true }
  | some units =>
    if stopOnError then .leave { source := source, partialSequence := partialSequence, sawError := true }
    else next units

/-- One pass of the loop of `handlePartialSequence`. After a character the size is reduced, and the bytes
    stay where they are. -/
def handleFirst (width : Width) (flush stopOnError : Bool) (first : UInt8) (rest source : List UInt8) :
    Pass :=
  if isASCII first then .goOn [first.toUInt16] false rest source
  else
    let count := nonASCIISequenceLength first
    if count = 0 then
      partialSequenceError width stopOnError (first :: rest) source
        (.goOn · true rest source)
    else if missing (first :: rest) > source.length then
      if !flush then .leave { source := source, partialSequence := first :: rest ++ source }
      else partialSequenceError width stopOnError (first :: rest) source (fun units => .goOn units true [] [])
    else
      let filled := first :: rest ++ source.take (missing (first :: rest))
      let source := source.drop (missing (first :: rest))
      match decodeNonASCIISequence filled count with
      | (none, length) =>
        partialSequenceError width stopOnError filled source
          (fun units => .goOn units true (filled.drop length) source)
      | (some character, _) =>
        match width.write (some character) with
        | none => .leave { source := source, partialSequence := filled, upConvert := true }
        | some units => .goOn units false (filled.take (filled.length - count)) source

theorem decodeNonASCIISequence_length (sequence : List UInt8) (length : Nat) :
    0 < (decodeNonASCIISequence sequence length).2 := by
  unfold decodeNonASCIISequence
  simp only
  repeat' split
  all_goals exact succ_pos _

variable {width : Width} {stopOnError sawError : Bool} {units : List UInt16}
  {source rest next nextSource : List UInt8} {first : UInt8} {word : MachineWord} {endAddress : Nat}

theorem partialSequenceError_goOn {kept keptSource partialSequence : List UInt8} {next : List UInt16 → Pass}
    (goesOn : partialSequenceError width stopOnError kept keptSource next = .goOn units sawError partialSequence source) :
    ∃ written, next written = .goOn units sawError partialSequence source := by
  unfold partialSequenceError at goesOn
  split at goesOn
  · cases goesOn
  · split at goesOn
    · cases goesOn
    · exact ⟨_, goesOn⟩

theorem filled_length : (first :: rest ++ source.take (missing (first :: rest))).length +
    (source.drop (missing (first :: rest))).length = (first :: rest).length + source.length := by
  rw [length_append, length_take, length_drop]
  omega

theorem handleFirst_shorter {flush : Bool}
    (goesOn : handleFirst width flush stopOnError first rest source = .goOn units sawError next nextSource) :
    next.length + nextSource.length < (first :: rest).length + source.length := by
  revert goesOn
  fun_cases handleFirst width flush stopOnError first rest source with
  | case1 ascii =>
    rintro ⟨⟩
    simp
  | case2 ascii count invalid =>
    intro goesOn
    rcases partialSequenceError_goOn goesOn with ⟨_, ⟨⟩⟩
    simp
  | case4 ascii count valid few flushes =>
    intro goesOn
    rcases partialSequenceError_goOn goesOn with ⟨_, ⟨⟩⟩
    simp only [length_nil, length_cons]
    omega
  | case5 ascii count valid enough filled later length decoded =>
    have total : filled.length + later.length = _ := filled_length
    have nonempty : 0 < filled.length := succ_pos _
    have positive := decodeNonASCIISequence_length filled count
    rw [decoded] at positive
    intro goesOn
    rcases partialSequenceError_goOn goesOn with ⟨_, same⟩
    obtain ⟨_, _, rfl, rfl⟩ := Pass.goOn.inj same
    rw [length_drop]
    omega
  | case7 ascii count valid enough filled later character length decoded units written =>
    have total : filled.length + later.length = _ := filled_length
    have nonempty : 0 < filled.length := succ_pos _
    intro goesOn
    obtain ⟨_, _, rfl, rfl⟩ := Pass.goOn.inj goesOn
    rw [length_take]
    omega
  | _ =>
    intro left
    cases left

def handlePartialSequence (width : Width) (flush stopOnError : Bool) (partialSequence source : List UInt8) :
    Progress :=
  match partialSequence with
  | [] => { source := source, partialSequence := [] }
  | first :: rest =>
    match _ : handleFirst width flush stopOnError first rest source with
    | .leave progress => progress
    | .goOn units sawError next nextSource =>
      (handlePartialSequence width flush stopOnError next nextSource).after units sawError
termination_by partialSequence.length + source.length
decreasing_by exact handleFirst_shorter ‹_›

/-- The fast path: whole words up to the last aligned address before the end. -/
def copyASCIIWords (word : MachineWord) (endAddress : Nat) (source : List UInt8) : List UInt8 × List UInt8 :=
  let alignedEnd := endAddress / word.bytes * word.bytes
  if endAddress - source.length < alignedEnd ∧ (source.take word.bytes).all isASCII then
    let (copied, rest) := copyASCIIWords word endAddress (source.drop word.bytes)
    (source.take word.bytes ++ copied, rest)
  else ([], source)
termination_by source.length
decreasing_by
  rename_i copies
  have positive : 0 < word.bytes := by cases word <;> decide
  have aligned := Nat.div_mul_le_self endAddress word.bytes
  rw [List.length_drop]
  omega

def decodeFirst (width : Width) (word : MachineWord) (stopOnError : Bool) (endAddress : Nat) (first : UInt8)
    (rest : List UInt8) : Pass :=
  if isASCII first then
    let (copied, remaining) := if (endAddress - (first :: rest).length) % word.bytes = 0
      then copyASCIIWords word endAddress (first :: rest) else ([], first :: rest)
    let units := copied.map (·.toUInt16)
    match remaining with
    | [] => .goOn units false [] []
    | next :: others =>
      if !isASCII next then .goOn units false [] (next :: others)
      else .goOn (units ++ [next.toUInt16]) false [] others
  else
    let count := nonASCIISequenceLength first
    if count > (first :: rest).length then .leave { source := [], partialSequence := first :: rest }
    else
      let (character, length) := if count = 0 then (none, 1) else decodeNonASCIISequence (first :: rest) count
      let stays : Progress := { source := first :: rest, partialSequence := [] }
      match character with
      | none =>
        if stopOnError then .leave { stays with sawError := true }
        else
          match width.write none with
          | none => .leave { stays with sawError := true, upConvert := true }
          | some units => .goOn units true [] ((first :: rest).drop length)
      | some character =>
        match width.write (some character) with
        | none => .leave { stays with upConvert := true }
        | some units => .goOn units false [] ((first :: rest).drop count)

theorem copyASCIIWords_spec (word : MachineWord) (endAddress : Nat) (source : List UInt8) :
    (copyASCIIWords word endAddress source).1 ++ (copyASCIIWords word endAddress source).2 = source ∧
      (copyASCIIWords word endAddress source).1.all isASCII = true := by
  fun_induction copyASCIIWords word endAddress source with
  | case1 source alignedEnd copies copied rest made ih =>
    rw [made] at ih
    constructor
    · rw [append_assoc, ih.1, take_append_drop]
    · rw [all_append, copies.2, ih.2]
      rfl
  | case2 => exact ⟨rfl, rfl⟩

theorem fastPath_spec {copied remaining : List UInt8}
    (made : (if (endAddress - (first :: rest).length) % word.bytes = 0
      then copyASCIIWords word endAddress (first :: rest) else ([], first :: rest)) = (copied, remaining)) :
    copied ++ remaining = first :: rest ∧ copied.all isASCII = true := by
  split at made
  · have copies := copyASCIIWords_spec word endAddress (first :: rest)
    rw [made] at copies
    exact copies
  · cases made
    exact ⟨rfl, rfl⟩

theorem decoded_spec {character : Option Nat} {length : Nat}
    (decoded : (if nonASCIISequenceLength first = 0 then (none, 1)
      else decodeNonASCIISequence (first :: rest) (nonASCIISequenceLength first)) = (character, length)) :
    0 < length ∧ (character ≠ none → nonASCIISequenceLength first ≠ 0) := by
  split at decoded
  · cases decoded
    exact ⟨Nat.one_pos, fun found => absurd rfl found⟩
  · have positive := decodeNonASCIISequence_length (first :: rest) (nonASCIISequenceLength first)
    rw [decoded] at positive
    exact ⟨positive, fun _ => ‹_›⟩

theorem decodeFirst_shorter
    (goesOn : decodeFirst width word stopOnError endAddress first rest = .goOn units sawError next nextSource) :
    nextSource.length < (first :: rest).length := by
  revert goesOn
  fun_cases decodeFirst width word stopOnError endAddress first rest with
  | case1 =>
    intro goesOn
    cases (Pass.goOn.inj goesOn).2.2.2
    exact succ_pos _
  | case2 ascii copied _ other others notASCII made =>
    intro goesOn
    cases (Pass.goOn.inj goesOn).2.2.2
    have whole := (fastPath_spec made).1
    cases copied with
    | nil =>
      cases whole
      rw [ascii] at notASCII
      cases notASCII
    | cons _ _ =>
      have total := congrArg length whole
      rw [length_append, length_cons] at total
      omega
  | case3 ascii copied _ other others _ made =>
    intro goesOn
    cases (Pass.goOn.inj goesOn).2.2.2
    have total := congrArg length (fastPath_spec made).1
    rw [length_append, length_cons] at total
    omega
  | case7 ascii count enough length _ units _ decoded =>
    rintro ⟨⟩
    have positive := (decoded_spec decoded).1
    rw [length_drop, length_cons]
    omega
  | case9 ascii count enough length character units _ decoded =>
    rintro ⟨⟩
    have counts : count ≠ 0 := (decoded_spec decoded).2 (Option.some_ne_none _)
    rw [length_drop]
    omega
  | _ =>
    intro left
    cases left

def decodeSource (width : Width) (word : MachineWord) (stopOnError : Bool) (endAddress : Nat)
    (source : List UInt8) : Progress :=
  match source with
  | [] => { source := [], partialSequence := [] }
  | first :: rest =>
    match _ : decodeFirst width word stopOnError endAddress first rest with
    | .leave progress => progress
    | .goOn units sawError _ nextSource =>
      (decodeSource width word stopOnError endAddress nextSource).after units sawError
termination_by source.length
decreasing_by exact decodeFirst_shorter ‹_›

/-- The body of the outer loop, and whether it leaves the loop. What was written for the partial sequence is
    dropped if the wide buffer is needed. -/
def decodePass (width : Width) (word : MachineWord) (flush stopOnError : Bool) (endAddress : Nat)
    (partialSequence source : List UInt8) : Progress × Bool :=
  if partialSequence = [] then (decodeSource width word stopOnError endAddress source, false)
  else
    let handled := handlePartialSequence width flush stopOnError partialSequence source
    if handled.upConvert then ({ handled with units := [] }, true)
    else if handled.partialSequence ≠ [] then (handled, true)
    else
      ((decodeSource width word stopOnError endAddress handled.source).after handled.units handled.sawError,
        false)

theorem handlePartialSequence_cons {flush : Bool} : handlePartialSequence width flush stopOnError (first :: rest) source =
    match handleFirst width flush stopOnError first rest source with
    | .leave progress => progress
    | .goOn units sawError next nextSource =>
      (handlePartialSequence width flush stopOnError next nextSource).after units sawError := by
  rw [handlePartialSequence]
  split <;> simp_all

theorem partialSequenceError_source {kept keptSource : List UInt8} {length : Nat}
    (inside : keptSource.length ≤ length) (less : nextSource.length ≤ length) :
    (partialSequenceError width stopOnError kept keptSource
      (.goOn · true next nextSource)).source.length ≤ length := by
  unfold partialSequenceError
  split
  · exact inside
  · split
    · exact inside
    · exact less

theorem handleFirst_source (width : Width) (flush stopOnError : Bool) (first : UInt8) (rest source : List UInt8) :
    (handleFirst width flush stopOnError first rest source).source.length ≤ source.length := by
  have dropped (n : Nat) : (source.drop n).length ≤ source.length := by
    rw [length_drop]
    exact sub_le _ _
  fun_cases handleFirst width flush stopOnError first rest source with
  | case1 | case3 => exact Nat.le_refl _
  | case2 => exact partialSequenceError_source (Nat.le_refl _) (Nat.le_refl _)
  | case4 => exact partialSequenceError_source (Nat.le_refl _) (zero_le _)
  | case5 => exact partialSequenceError_source (dropped _) (dropped _)
  | case6 | case7 => exact dropped _

theorem handlePartialSequence_source (width : Width) (flush stopOnError : Bool) (partialSequence source : List UInt8) :
    (handlePartialSequence width flush stopOnError partialSequence source).source.length ≤ source.length := by
  fun_induction handlePartialSequence width flush stopOnError partialSequence source with
  | case1 => exact Nat.le_refl _
  | case2 source first rest progress passed =>
    have once := handleFirst_source width flush stopOnError first rest source
    rw [passed] at once
    exact once
  | case3 source first rest units sawError next nextSource passed ih =>
    have once := handleFirst_source width flush stopOnError first rest source
    rw [passed] at once
    exact Nat.le_trans ih once

theorem decodeFirst_pending {progress : Progress}
    (left : decodeFirst width word stopOnError endAddress first rest = .leave progress) :
    progress.partialSequence = [] ∨ progress.source = [] := by
  revert left
  fun_cases decodeFirst width word stopOnError endAddress first rest with
  | case4 =>
    rintro ⟨⟩
    exact Or.inr rfl
  | case5 | case6 | case8 =>
    rintro ⟨⟩
    exact Or.inl rfl
  | _ =>
    intro goesOn
    cases goesOn

theorem decodeSource_pending (pending : (decodeSource width word stopOnError endAddress source).partialSequence ≠ []) :
    (decodeSource width word stopOnError endAddress source).source = [] ∧ source ≠ [] := by
  revert pending
  fun_induction decodeSource width word stopOnError endAddress source with
  | case1 => exact fun pending => absurd rfl pending
  | case2 first rest progress passed =>
    intro pending
    exact ⟨(decodeFirst_pending passed).resolve_left pending, cons_ne_nil _ _⟩
  | case3 first rest units sawError next nextSource passed ih =>
    exact fun pending => ⟨(ih pending).1, cons_ne_nil _ _⟩

theorem decodePass_shorter {flush : Bool} {partialSequence : List UInt8}
    (goesOn : (decodePass width word flush stopOnError endAddress partialSequence source).2 = false)
    (pending : (decodePass width word flush stopOnError endAddress partialSequence source).1.partialSequence ≠ []) :
    (decodePass width word flush stopOnError endAddress partialSequence source).1.source.length < source.length := by
  have shorter {input : List UInt8} (inside : input.length ≤ source.length)
      (pending : (decodeSource width word stopOnError endAddress input).partialSequence ≠ []) :
      (decodeSource width word stopOnError endAddress input).source.length < source.length := by
    rcases decodeSource_pending pending with ⟨ended, nonempty⟩
    rw [ended]
    exact Nat.lt_of_lt_of_le (length_pos_of_ne_nil nonempty) inside
  unfold decodePass at goesOn pending ⊢
  split at goesOn
  · rw [if_pos ‹_›] at pending ⊢
    exact shorter (Nat.le_refl _) pending
  · rw [if_neg ‹_›] at pending ⊢
    simp only at goesOn pending ⊢
    split at goesOn
    · cases goesOn
    · rw [if_neg ‹_›] at pending ⊢
      split at goesOn
      · cases goesOn
      · rw [if_neg ‹_›] at pending ⊢
        exact shorter (handlePartialSequence_source _ _ _ _ _) pending

def decodeLoop (width : Width) (word : MachineWord) (flush stopOnError : Bool) (endAddress : Nat)
    (partialSequence source : List UInt8) : Progress :=
  let passed := decodePass width word flush stopOnError endAddress partialSequence source
  if passed.2 = false ∧ passed.1.upConvert = false ∧ flush = true ∧ passed.1.partialSequence ≠ [] then
    (decodeLoop width word flush stopOnError endAddress passed.1.partialSequence passed.1.source).after
      passed.1.units passed.1.sawError
  else passed.1
termination_by source.length
decreasing_by
  rename_i goesOn
  exact decodePass_shorter goesOn.1 goesOn.2.2.2

end TextCodecUTF8

/-- The codec is what it has left of the input. -/
structure TextCodecUTF8 where
  partialSequence : List UInt8 := []

/-- What a call returns and leaves behind. The buffers are given with their sizes and the number of units
    that were written to them. -/
structure Decoded where
  result : List UInt16
  codec : TextCodecUTF8
  sawError : Bool
  buffers : List (Nat × Nat)

open TextCodecUTF8 in
def TextCodecUTF8.decode (word : MachineWord) (endAddress : Nat) (codec : TextCodecUTF8) (bytes : List UInt8)
    (flush stopOnError sawError : Bool) : Decoded :=
  let narrow := decodeLoop .latin1 word flush stopOnError endAddress codec.partialSequence bytes
  let buffer := (codec.partialSequence.length + bytes.length, narrow.units.length)
  if !narrow.upConvert then
    { result := narrow.units
      codec := { partialSequence := narrow.partialSequence }
      sawError := sawError || narrow.sawError
      buffers := [buffer] }
  else
    let wide := decodeLoop .utf16 word flush stopOnError endAddress narrow.partialSequence narrow.source
    let result := narrow.units ++ wide.units
    { result := result
      codec := { partialSequence := wide.partialSequence }
      sawError := sawError || narrow.sawError || wide.sawError
      buffers := [buffer, (narrow.partialSequence.length + bytes.length, result.length)] }

end Odyssey.Text
