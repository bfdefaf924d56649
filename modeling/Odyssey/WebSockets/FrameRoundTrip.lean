import Odyssey.WebSockets.Frame

namespace Odyssey.WebSockets

open Bytes List Nat

namespace WebSocketFrame

theorem forall_byte {property : UInt8 → Prop} (each : ∀ n < 256, property (UInt8.ofNat n)) (byte : UInt8) :
    property byte := by
  have instanceAt := each byte.toNat byte.toNat_lt
  rwa [UInt8.ofNat_toNat] at instanceAt

theorem firstByte_fields (final compress : Bool) {opCode : UInt8} (small : opCode < 16) :
    let firstByte := (if final then finalBit else 0) ||| (if compress then compressBit else 0) ||| opCode
    (firstByte &&& opCodeMask) = opCode ∧ decide ((firstByte &&& finalBit) ≠ 0) = final ∧
      decide ((firstByte &&& compressBit) ≠ 0) = compress ∧ (firstByte &&& reserved2Bit) = 0 ∧
      (firstByte &&& reserved3Bit) = 0 := by
  revert opCode
  cases final <;> cases compress <;> (apply forall_byte; decide +kernel)

theorem firstByte_again (byte : UInt8) (clear2 : (byte &&& reserved2Bit) = 0) (clear3 : (byte &&& reserved3Bit) = 0) :
    (if (byte &&& finalBit) ≠ 0 then finalBit else 0) |||
      (if (byte &&& compressBit) ≠ 0 then compressBit else 0) ||| (byte &&& opCodeMask) = byte := by
  revert byte
  apply forall_byte
  decide +kernel

variable {length7 payloadLength width frameEnd : Nat} {data maskingKey data' : List UInt8}
  {size : SizeType} {frame : WebSocketFrame}

theorem secondByte_fields (masked : Bool) (small : length7 < 128) :
    let secondByte := (if masked then maskBit else 0) ||| UInt8.ofNat length7
    decide ((secondByte &&& maskBit) ≠ 0) = masked ∧ (secondByte &&& payloadLengthMask).toNat = length7 := by
  revert length7
  cases masked <;> decide +kernel

theorem secondByte_again (byte : UInt8) (unmasked : (byte &&& maskBit) = 0) :
    UInt8.ofNat (byte &&& payloadLengthMask).toNat = byte ∧ (byte &&& payloadLengthMask).toNat < 128 := by
  revert byte
  apply forall_byte
  decide +kernel

theorem applyMask_length (maskingKey payload : List UInt8) :
    (applyMask maskingKey payload).length = payload.length := by
  simp [applyMask]

theorem applyMask_applyMask (maskingKey payload : List UInt8) :
    applyMask maskingKey (applyMask maskingKey payload) = payload := by
  apply ext_getElem
  · simp [applyMask]
  · intro i _ _
    simp only [applyMask, getElem_mapIdx, UInt8.xor_assoc, UInt8.xor_self, UInt8.xor_zero]

theorem lengthFields_extended (large : ¬ payloadLength ≤ maxPayloadLengthWithoutExtendedLengthField) :
    ∃ length7 width, lengthFields payloadLength = (length7, highBytes width payloadLength) ∧
      length7 > maxPayloadLengthWithoutExtendedLengthField ∧ length7 < 128 ∧
      (if length7 = payloadLengthWithTwoByteExtendedLengthField then 2 else 8) = width ∧
      (width = 8 → ¬ payloadLength ≤ 0xFFFF) ∧ (payloadLength < 2^64 → payloadLength < 256 ^ width) := by
  unfold lengthFields
  rw [if_neg large]
  by_cases medium : payloadLength ≤ 0xFFFF
  · rw [if_pos medium]
    exact ⟨_, 2, rfl, by decide, by decide, rfl, nofun, fun _ => lt_succ_of_le medium⟩
  · rw [if_neg medium]
    exact ⟨_, 8, rfl, by decide, by decide, rfl, fun _ => medium, id⟩

theorem lengthFields_fst_lt (payloadLength : Nat) : (lengthFields payloadLength).1 < 128 := by
  by_cases small : payloadLength ≤ maxPayloadLengthWithoutExtendedLengthField
  · rw [lengthFields, if_pos small]
    exact lt_of_le_of_lt small (by decide)
  · obtain ⟨length7, _, fields, _, less, _⟩ := lengthFields_extended small
    rw [fields]
    exact less

theorem parsePayloadLength_lengthFields (bound : payloadLength < 2^64) (rest : List UInt8) :
    parsePayloadLength (lengthFields payloadLength).1 ((lengthFields payloadLength).2 ++ rest) =
      .ok (payloadLength, (lengthFields payloadLength).2.length) := by
  by_cases small : payloadLength ≤ maxPayloadLengthWithoutExtendedLengthField
  · rw [lengthFields, if_pos small, parsePayloadLength, if_neg (not_lt.mpr small)]
    rfl
  · obtain ⟨length7, width, fields, extended, _, isWidth, minimal, fits⟩ := lengthFields_extended small
    have value : shiftedValue (highBytes width payloadLength) = payloadLength := by
      rw [shiftedValue_eq, highBytes, reverse_reverse, byteValue_lowBytes, Nat.mod_eq_of_lt (fits bound)]
    have taken : (highBytes width payloadLength ++ rest).take width = highBytes width payloadLength :=
      take_left' (highBytes_length width payloadLength)
    have enough : ¬ (highBytes width payloadLength ++ rest).length < width := by
      rw [length_append, highBytes_length]
      omega
    simp only [fields, parsePayloadLength, if_pos extended, isWidth, if_neg enough, taken, value, highBytes_length]
    rw [if_neg (by simp [small]), if_neg (by simpa using minimal)]

theorem parsePayloadLength_short (payloadLength : Nat) {part : List UInt8}
    (short : part.length < (lengthFields payloadLength).2.length) :
    parsePayloadLength (lengthFields payloadLength).1 part = .error .FrameIncomplete := by
  by_cases small : payloadLength ≤ maxPayloadLengthWithoutExtendedLengthField
  · rw [lengthFields, if_pos small] at short
    exact absurd short (not_lt_zero _)
  · obtain ⟨length7, width, fields, extended, _, isWidth, _⟩ := lengthFields_extended small
    rw [fields, highBytes_length] at short
    simp only [fields, parsePayloadLength, if_pos extended, isWidth, if_pos short]

theorem parsePayloadLength_cases (extended : length7 > maxPayloadLengthWithoutExtendedLengthField)
    (isWidth : (if length7 = payloadLengthWithTwoByteExtendedLengthField then 2 else 8) = width) (data : List UInt8) :
    parsePayloadLength length7 data = .error .FrameIncomplete ∨
    parsePayloadLength length7 data = .error (.FrameError notMinimal) ∨
    parsePayloadLength length7 data = .ok (shiftedValue (data.take width), width) ∧ width ≤ data.length ∧
      (width = 2 → shiftedValue (data.take width) > maxPayloadLengthWithoutExtendedLengthField) ∧
      (width = 8 → shiftedValue (data.take width) > 0xFFFF) := by
  simp only [parsePayloadLength, if_pos extended, isWidth]
  by_cases few : data.length < width
  · exact Or.inl (if_pos few)
  · right
    rw [if_neg few]
    split
    · exact Or.inl rfl
    · split
      · exact Or.inl rfl
      · rename_i two eight
        simp only [Bool.and_eq_true, decide_eq_true_eq, not_and, not_le] at two eight
        exact Or.inr ⟨rfl, Nat.le_of_not_lt few, two, eight⟩

theorem parsePayloadLength_inv (small : length7 < 128)
    (accepted : parsePayloadLength length7 data = .ok (payloadLength, width)) :
    lengthFields payloadLength = (length7, data.take width) := by
  by_cases extended : length7 > maxPayloadLengthWithoutExtendedLengthField
  · rcases parsePayloadLength_cases extended rfl data with same | same | ⟨same, enough, two, eight⟩ <;>
      rw [same] at accepted <;> cases accepted
    generalize isWidth : (if length7 = payloadLengthWithTwoByteExtendedLengthField then 2 else 8) = width at *
    have back := highBytes_shiftedValue (data.take width)
    have bound := shiftedValue_bound (data.take width)
    rw [length_take_of_le enough] at back bound
    unfold lengthFields
    by_cases twoBytes : length7 = payloadLengthWithTwoByteExtendedLengthField
    · rw [if_pos twoBytes] at isWidth
      subst isWidth
      rw [if_neg (not_le.mpr (two rfl)), if_pos (by omega), back, twoBytes]
    · rw [if_neg twoBytes] at isWidth
      subst isWidth
      have large := eight rfl
      have last : length7 = payloadLengthWithEightByteExtendedLengthField := by
        unfold maxPayloadLengthWithoutExtendedLengthField at extended
        unfold payloadLengthWithTwoByteExtendedLengthField at twoBytes
        unfold payloadLengthWithEightByteExtendedLengthField
        omega
      have more : ¬ shiftedValue (data.take 8) ≤ maxPayloadLengthWithoutExtendedLengthField := by
        omega
      rw [if_neg more, if_neg (not_le.mpr large), back, last]
  · rw [parsePayloadLength, if_neg extended] at accepted
    cases accepted
    rw [lengthFields, if_pos (by omega), take_zero]

def keyLength (masked : Bool) : Nat := if masked then maskingKeyWidthInBytes else 0

def announced (firstByte : UInt8) (masked : Bool) (payload : List UInt8) : WebSocketFrame where
  opCode := firstByte &&& opCodeMask
  final := (firstByte &&& finalBit) ≠ 0
  compress := (firstByte &&& compressBit) ≠ 0
  reserved2 := (firstByte &&& reserved2Bit) ≠ 0
  reserved3 := (firstByte &&& reserved3Bit) ≠ 0
  masked := masked
  payload := payload

def readPayload (masked : Bool) (rest : List UInt8) (payloadLength : Nat) : List UInt8 :=
  let inPlace := (rest.drop (keyLength masked)).take payloadLength
  if masked then applyMask (rest.take (keyLength masked)) inPlace else inPlace

theorem readPayload_length (masked : Bool) {rest : List UInt8}
    (enough : keyLength masked + payloadLength ≤ rest.length) :
    (readPayload masked rest payloadLength).length = payloadLength := by
  have inPlace : ((rest.drop (keyLength masked)).take payloadLength).length = payloadLength := by
    rw [length_take, length_drop]
    omega
  unfold readPayload
  split
  · rw [applyMask_length, inPlace]
  · exact inPlace

theorem parseFrame_header (size : SizeType) (firstByte secondByte : UInt8) (extended rest : List UInt8)
    {masked : Bool} (isMasked : decide ((secondByte &&& maskBit) ≠ 0) = masked)
    (lengths : parsePayloadLength (secondByte &&& payloadLengthMask).toNat (extended ++ rest) =
      .ok (payloadLength, extended.length)) :
    parseFrame size (firstByte :: secondByte :: extended ++ rest) =
      if payloadLength > maxPayloadLength ∨ payloadLength + keyLength masked > size.max then
        (.FrameError s!"WebSocket frame length too large: {payloadLength} bytes",
          firstByte :: secondByte :: extended ++ rest)
      else if rest.length < keyLength masked + payloadLength then
        (.FrameIncomplete, firstByte :: secondByte :: extended ++ rest)
      else let payload := readPayload masked rest payloadLength
        (.FrameOK (announced firstByte masked payload)
          (2 + extended.length + keyLength masked + payloadLength),
        firstByte :: secondByte :: extended ++ rest.take (keyLength masked) ++ payload ++
          rest.drop (keyLength masked + payloadLength)) := by
  simp only [parseFrame, cons_append, lengths, isMasked, drop_left, take_left, Bool.or_eq_true, decide_eq_true_eq]
  rfl

def firstByte (frame : WebSocketFrame) : UInt8 :=
  (if frame.final then finalBit else 0) ||| (if frame.compress then compressBit else 0) ||| frame.opCode

def secondByte (frame : WebSocketFrame) : UInt8 :=
  (if frame.masked then maskBit else 0) ||| UInt8.ofNat (lengthFields frame.payload.length).1

theorem announced_firstByte (small : frame.opCode < 16) (clear : frame.reserved2 = false ∧ frame.reserved3 = false) :
    announced frame.firstByte frame.masked frame.payload = frame := by
  obtain ⟨code, final, compress, two, three⟩ := firstByte_fields frame.final frame.compress small
  unfold announced firstByte
  rw [code, final, compress, two, three]
  cases frame
  cases clear.1
  cases clear.2
  rfl

theorem secondByte_spec (frame : WebSocketFrame) : decide ((frame.secondByte &&& maskBit) ≠ 0) = frame.masked ∧
      (frame.secondByte &&& payloadLengthMask).toNat = (lengthFields frame.payload.length).1 :=
  secondByte_fields frame.masked (lengthFields_fst_lt frame.payload.length)

section Made

variable (keyed : maskingKey.length = maskingKeyWidthInBytes)
include keyed

variable (frame : WebSocketFrame)

theorem appendFramePayload_length :
    (appendFramePayload maskingKey frame).length = keyLength frame.masked + frame.payload.length := by
  unfold appendFramePayload keyLength
  split
  · rw [length_append, applyMask_length, keyed]
  · omega

theorem readPayload_append (rest : List UInt8) :
    readPayload frame.masked (appendFramePayload maskingKey frame ++ rest) frame.payload.length = frame.payload := by
  cases masked : frame.masked with
  | false => simp [readPayload, keyLength, appendFramePayload, masked]
  | true =>
    simp only [readPayload, keyLength, appendFramePayload, masked, if_true]
    rw [append_assoc, take_left' keyed, drop_left' keyed,
      take_left' (applyMask_length maskingKey frame.payload), applyMask_applyMask]

theorem makeFrameData_length : (makeFrameData maskingKey frame).length =
      2 + (lengthFields frame.payload.length).2.length + keyLength frame.masked + frame.payload.length := by
  simp only [makeFrameData, length_append, appendFramePayload_length keyed]
  simp only [length_cons, length_nil]
  omega

end Made

theorem makeFrameData_append (maskingKey : List UInt8) (frame : WebSocketFrame) (rest : List UInt8) :
    makeFrameData maskingKey frame ++ rest = frame.firstByte :: frame.secondByte ::
      (lengthFields frame.payload.length).2 ++ (appendFramePayload maskingKey frame ++ rest) := by
  simp [makeFrameData, firstByte, secondByte]

section Parse

variable (keyed : maskingKey.length = maskingKeyWidthInBytes)
  (memory : (makeFrameData maskingKey frame).length ≤ min size.max maxPayloadLength)
include keyed memory

theorem makeFrameData_fits : frame.payload.length < 2^64 ∧ ¬ (frame.payload.length > maxPayloadLength ∨
    frame.payload.length + keyLength frame.masked > size.max) := by
  have limit : maxPayloadLength < 2^64 := by decide
  rw [makeFrameData_length keyed] at memory
  omega

theorem parseFrame_makeFrameData (small : frame.opCode < 16)
    (clear : frame.reserved2 = false ∧ frame.reserved3 = false) (rest : List UInt8) :
    ∃ data, parseFrame size (makeFrameData maskingKey frame ++ rest) =
      (.FrameOK frame (makeFrameData maskingKey frame).length, data) := by
  have tail := appendFramePayload_length keyed frame
  obtain ⟨bound, notTooLarge⟩ := makeFrameData_fits keyed memory
  obtain ⟨masked, length7⟩ := secondByte_spec frame
  have lengths := parsePayloadLength_lengthFields bound (appendFramePayload maskingKey frame ++ rest)
  have enough : ¬ (appendFramePayload maskingKey frame ++ rest).length <
      keyLength frame.masked + frame.payload.length := by
    rw [length_append]
    omega
  rw [← length7] at lengths
  rw [makeFrameData_append, parseFrame_header size _ _ _ _ masked lengths, if_neg notTooLarge, if_neg enough,
    makeFrameData_length keyed]
  simp only [readPayload_append keyed, announced_firstByte small clear]
  exact ⟨_, rfl⟩

theorem parseFrame_part {part : List UInt8} (begins : part <+: makeFrameData maskingKey frame)
    (strict : part ≠ makeFrameData maskingKey frame) : parseFrame size part = (.FrameIncomplete, part) := by
  have total := makeFrameData_length keyed frame
  obtain ⟨bound, notTooLarge⟩ := makeFrameData_fits keyed memory
  obtain ⟨masked, length7⟩ := secondByte_spec frame
  have shorter : part.length < (makeFrameData maskingKey frame).length := by
    rcases lt_or_ge part.length (makeFrameData maskingKey frame).length with less | more
    · exact less
    · exact absurd (begins.eq_of_length_le more) strict
  rcases begins with ⟨rest, whole⟩
  have shape := makeFrameData_append maskingKey frame []
  rw [append_nil] at shape
  rw [shape] at whole
  match part, whole, shorter with
  | [], _, _ => rfl
  | [_], _, _ => rfl
  | firstByte :: secondByte :: remaining, whole, shorter =>
    simp only [cons_append, cons.injEq] at whole
    rcases whole with ⟨rfl, rfl, body⟩
    by_cases header : remaining.length < (lengthFields frame.payload.length).2.length
    · have lengths := parsePayloadLength_short frame.payload.length header
      rw [← length7] at lengths
      simp only [parseFrame, lengths]
    · have begins : (lengthFields frame.payload.length).2 <+: remaining :=
        prefix_of_prefix_length_le ⟨_, rfl⟩ ⟨_, body⟩ (Nat.le_of_not_lt header)
      rcases begins with ⟨tailPart, rfl⟩
      have lengths := parsePayloadLength_lengthFields bound tailPart
      have few : tailPart.length < keyLength frame.masked + frame.payload.length := by
        simp only [length_cons, length_append] at shorter
        omega
      rw [← length7] at lengths
      have parsed := parseFrame_header size frame.firstByte _ _ tailPart masked lengths
      rw [if_neg notTooLarge, if_pos few] at parsed
      exact parsed

end Parse

theorem parsePayloadLength_result (length7 : Nat) (data : List UInt8) : match parsePayloadLength length7 data with
    | .error result => result = .FrameIncomplete ∨ result = .FrameError notMinimal
    | .ok (_, width) => width ≤ data.length := by
  by_cases extended : length7 > maxPayloadLengthWithoutExtendedLengthField
  · rcases parsePayloadLength_cases extended rfl data with same | same | ⟨same, enough, _⟩ <;> rw [same]
    · exact Or.inl rfl
    · exact Or.inr rfl
    · exact enough
  · rw [parsePayloadLength, if_neg extended]
    exact zero_le _

theorem parsePayloadLength_append (complete : parsePayloadLength length7 data ≠ .error .FrameIncomplete)
    (more : List UInt8) : parsePayloadLength length7 (data ++ more) = parsePayloadLength length7 data := by
  by_cases extended : length7 > maxPayloadLengthWithoutExtendedLengthField
  · simp only [parsePayloadLength, if_pos extended] at *
    generalize (if length7 = payloadLengthWithTwoByteExtendedLengthField then 2 else 8) = size at *
    by_cases few : data.length < size
    · rw [if_pos few] at complete
      exact absurd rfl complete
    · have enough : ¬ (data ++ more).length < size := by
        rw [length_append]
        omega
      rw [if_neg few, if_neg enough, take_append_of_le_length (Nat.le_of_not_lt few)]
  · rw [parsePayloadLength, parsePayloadLength, if_neg extended, if_neg extended]

theorem parseFrame_append (complete : (parseFrame size data).1 ≠ .FrameIncomplete) (more : List UInt8) :
    parseFrame size (data ++ more) = ((parseFrame size data).1, (parseFrame size data).2 ++ more) := by
  match data with
  | [] => exact absurd rfl complete
  | [_] => exact absurd rfl complete
  | firstByte :: secondByte :: body =>
    have same : parsePayloadLength (secondByte &&& payloadLengthMask).toNat (body ++ more) =
        parsePayloadLength (secondByte &&& payloadLengthMask).toNat body := by
      apply parsePayloadLength_append
      intro short
      simp only [parseFrame, short] at complete
      exact complete rfl
    simp only [cons_append, parseFrame, same] at complete ⊢
    have inside := parsePayloadLength_result (secondByte &&& payloadLengthMask).toNat body
    cases lengths : parsePayloadLength (secondByte &&& payloadLengthMask).toNat body with
    | error result => rfl
    | ok parsed =>
      rcases parsed with ⟨payloadLength, width⟩
      simp only [lengths] at complete inside ⊢
      generalize (if decide ((secondByte &&& maskBit) ≠ 0) = true then maskingKeyWidthInBytes else 0) = keyLength at *
      rw [drop_append_of_le_length inside, take_append_of_le_length inside]
      by_cases large : (decide (payloadLength > maxPayloadLength) ||
          decide (payloadLength + keyLength > size.max)) = true
      · rw [if_pos large, if_pos large]
        rfl
      · rw [if_neg large] at complete ⊢
        by_cases few : (body.drop width).length < keyLength + payloadLength
        · rw [if_pos few] at complete
          exact absurd rfl complete
        · have enough : ¬ (body.drop width ++ more).length < keyLength + payloadLength := by
            rw [length_append]
            omega
          rw [if_neg large, if_neg few, if_neg enough]
          rw [take_append_of_le_length (by omega), drop_append_of_le_length (by omega),
            take_append_of_le_length (by rw [length_drop]; omega), drop_append_of_le_length (by omega)]
          simp

section Frame

variable (accepted : parseFrame size data = (.FrameOK frame frameEnd, data'))
include accepted

theorem parseFrame_inv : ∃ firstByte secondByte extended rest payloadLength masked,
      data = firstByte :: secondByte :: extended ++ rest ∧
      parsePayloadLength (secondByte &&& payloadLengthMask).toNat (extended ++ rest) =
        .ok (payloadLength, extended.length) ∧ decide ((secondByte &&& maskBit) ≠ 0) = masked ∧
      keyLength masked + payloadLength ≤ rest.length ∧
      frame = announced firstByte masked (readPayload masked rest payloadLength) ∧
      frameEnd = 2 + extended.length + keyLength masked + payloadLength ∧
      data' = firstByte :: secondByte :: extended ++ rest.take (keyLength masked) ++
        readPayload masked rest payloadLength ++ rest.drop (keyLength masked + payloadLength) := by
  match data with
  | [] => cases accepted
  | [_] => cases accepted
  | firstByte :: secondByte :: body =>
    have inside := parsePayloadLength_result (secondByte &&& payloadLengthMask).toNat body
    cases lengths : parsePayloadLength (secondByte &&& payloadLengthMask).toNat body with
    | error result =>
      simp only [parseFrame, lengths, Prod.mk.injEq] at accepted inside
      rcases inside with rfl | rfl <;> cases accepted.1
    | ok parsed =>
      rcases parsed with ⟨payloadLength, width⟩
      rw [lengths] at inside
      have size' : (body.take width).length = width := length_take_of_le inside
      have cut : body.take width ++ body.drop width = body := take_append_drop width body
      generalize body.take width = extended at *
      generalize body.drop width = rest at *
      subst cut size'
      have parsed := parseFrame_header size firstByte secondByte extended rest rfl lengths
      generalize isMasked : decide ((secondByte &&& maskBit) ≠ 0) = masked at parsed
      rw [cons_append, cons_append, accepted] at parsed
      split at parsed
      · cases (Prod.mk.inj parsed).1
      · split_ifs at parsed with few
        · cases (Prod.mk.inj parsed).1
        · rcases Prod.mk.inj parsed with ⟨taken, buffer⟩
          cases taken
          exact ⟨firstByte, secondByte, extended, rest, payloadLength, masked, rfl, lengths, isMasked,
            Nat.le_of_not_lt few, rfl, rfl, buffer⟩

theorem parseFrame_consumed : data'.drop frameEnd = data.drop frameEnd ∧ 2 ≤ frameEnd ∧ frameEnd ≤ data.length := by
  rcases parseFrame_inv accepted with ⟨firstByte, secondByte, extended, rest, payloadLength, masked, rfl, _, _,
    enough, rfl, rfl, rfl⟩
  have size' := readPayload_length masked enough
  have before : (firstByte :: secondByte :: extended ++ rest.take (keyLength masked) ++
      readPayload masked rest payloadLength).length = 2 + extended.length + keyLength masked + payloadLength := by
    simp only [length_append, length_cons, length_take]
    omega
  refine ⟨?_, by omega, ?_⟩
  · have place : 2 + extended.length + keyLength masked + payloadLength =
        (firstByte :: secondByte :: extended).length + (keyLength masked + payloadLength) := by
      simp only [length_cons]
      omega
    rw [drop_left' before, place, drop_length_add_append]
  · simp only [length_append, length_cons]
    omega

theorem makeFrameData_parseFrame (unmasked : frame.masked = false)
    (clear : frame.reserved2 = false ∧ frame.reserved3 = false) (maskingKey : List UInt8) :
    makeFrameData maskingKey frame = data.take frameEnd := by
  rcases parseFrame_inv accepted with ⟨firstByte, secondByte, extended, rest, payloadLength, _, rfl, lengths,
    isMasked, enough, rfl, rfl, _⟩
  cases unmasked
  have first := firstByte_again firstByte (by simpa [announced] using clear.1) (by simpa [announced] using clear.2)
  rcases secondByte_again secondByte (by simpa using isMasked) with ⟨second, small⟩
  have fields := parsePayloadLength_inv small lengths
  have size' := readPayload_length false enough
  simp only [makeFrameData, announced, size', fields, take_left, Bool.false_eq_true,
    if_false, UInt8.zero_or, second, decide_eq_true_eq, first]
  rw [show keyLength false = 0 from rfl, add_zero, add_assoc, add_comm 2]
  show firstByte :: secondByte :: (extended ++ rest.take payloadLength) =
    firstByte :: secondByte :: (extended ++ rest).take (extended.length + payloadLength)
  rw [take_length_add_append]

end Frame

/-- What is made is read back whatever follows, and what is accepted is made again from the bytes it took. -/
theorem frame_codec_round_trip (size : SizeType) :
    (∀ (opCode : UInt8) (final compress masked : Bool) (payload maskingKey : List UInt8), opCode < 16 →
      maskingKey.length = maskingKeyWidthInBytes →
      let frame := create opCode final compress masked payload
      let bytes := makeFrameData maskingKey frame
      bytes.length ≤ min size.max maxPayloadLength →
      (∀ rest, (parseFrame size (bytes ++ rest)).1 = .FrameOK frame bytes.length) ∧
      ∀ part, part <+: bytes → part ≠ bytes → parseFrame size part = (.FrameIncomplete, part)) ∧
    ∀ (data data' maskingKey : List UInt8) (frame : WebSocketFrame) (frameEnd : Nat),
      parseFrame size data = (.FrameOK frame frameEnd, data') → frame.masked = false →
      frame.reserved2 = false → frame.reserved3 = false →
      makeFrameData maskingKey frame = data.take frameEnd := by
  constructor
  · intro opCode final compress masked payload maskingKey small width frame bytes memory
    constructor
    · intro rest
      have clear : frame.reserved2 = false ∧ frame.reserved3 = false := ⟨rfl, rfl⟩
      rcases parseFrame_makeFrameData width memory small clear rest with ⟨data, parsed⟩
      rw [parsed]
    · intro part begins strict
      exact parseFrame_part width memory begins strict
  · intro data data' maskingKey frame frameEnd accepted unmasked clear2 clear3
    exact makeFrameData_parseFrame accepted unmasked ⟨clear2, clear3⟩ maskingKey

/-- The masked text frame of one letter, and the unmasked one. -/
theorem frame_codec_letter : (parseFrame .bits32 ([0x81, 0x81, 1, 2, 3, 4, 0x60] ++ [7])).1 =
        .FrameOK (create 1 true false true [0x61]) 7 ∧
      parseFrame .bits32 [0x81, 0x81, 1, 2] = (.FrameIncomplete, [0x81, 0x81, 1, 2]) ∧
      makeFrameData [] (create 1 true false false [0x61]) = [0x81, 1, 0x61, 7].take 3 := by
  have masked := (frame_codec_round_trip .bits32).1 1 true false true [0x61] [1, 2, 3, 4] (by decide) rfl
    (by decide)
  have unmasked := (frame_codec_round_trip .bits32).2 [0x81, 1, 0x61, 7] [0x81, 1, 0x61, 7] []
    (create 1 true false false [0x61]) 3 (by decide +kernel) rfl rfl rfl
  exact ⟨masked.1 [7], masked.2 [0x81, 0x81, 1, 2] (by decide) (by decide), unmasked⟩

end WebSocketFrame

end Odyssey.WebSockets
