import Odyssey.URLs.Characters

namespace Odyssey.URLs

open List

def percentDecode : List Nat → List Nat × Bool
  | [] => ([], false)
  | byte :: first :: second :: rest =>
    if byte = '%'.toNat && isASCIIHexDigit first && isASCIIHexDigit second then
      ((toASCIIHexValue first * 16 + toASCIIHexValue second) :: (percentDecode rest).1, true)
    else
      let (decoded, violation) := percentDecode (first :: second :: rest)
      (byte :: decoded, violation)
  | byte :: rest =>
    let (decoded, violation) := percentDecode rest
    (byte :: decoded, violation)

def isTrailByte (byte : Nat) : Bool := 0x80 ≤ byte && byte ≤ 0xBF

/-- The bounds of the second byte; two of the first bytes have no lower one. -/
def isLegalSecondByte (first second : Nat) : Bool :=
  second ≤ 0xBF &&
    if first = 0xE0 then second ≥ 0xA0
    else if first = 0xED then second ≤ 0x9F
    else if first = 0xF0 then second ≥ 0x90
    else if first = 0xF4 then second ≤ 0x8F
    else second ≥ 0x80

def utf16Units (codePoint : Nat) : Option (List Nat) :=
  if codePoint < 0x10000 then
    if isLeadSurrogate codePoint || isTrailSurrogate codePoint then none else some [codePoint]
  else if codePoint ≤ 0x10FFFF then
    some [0xD800 + (codePoint - 0x10000) / 0x400, 0xDC00 + (codePoint - 0x10000) % 0x400]
  else none

/-- `String::fromUTF8`, with the strict conversion. -/
def fromUTF8 : List Nat → Option (List Nat)
  | [] => some []
  | first :: rest =>
    if first < 0x80 then (fromUTF8 rest).map (first :: ·)
    else if first < 0xC2 || first > 0xF4 then none
    else if first < 0xE0 then
      match rest with
      | second :: rest =>
        if isLegalSecondByte first second then
          (utf16Units (first * 0x40 + second - 0x3080)).bind (fun units => (fromUTF8 rest).map (units ++ ·))
        else none
      | _ => none
    else if first < 0xF0 then
      match rest with
      | second :: third :: rest =>
        if isTrailByte third && isLegalSecondByte first second then
          (utf16Units (first * 0x1000 + second * 0x40 + third - 0xE2080)).bind
            (fun units => (fromUTF8 rest).map (units ++ ·))
        else none
      | _ => none
    else
      match rest with
      | second :: third :: fourth :: rest =>
        if isTrailByte fourth && isTrailByte third && isLegalSecondByte first second then
          (utf16Units (first * 0x40000 + second * 0x1000 + third * 0x40 + fourth - 0x3C82080)).bind
            (fun units => (fromUTF8 rest).map (units ++ ·))
        else none
      | _ => none

/-- `String::utf8`, with the strict conversion. An unpaired surrogate fails a `RELEASE_ASSERT`, so that the
    program stops and nothing is returned. -/
def utf8 : List Nat → Option (List Nat)
  | [] => some []
  | lead :: rest =>
    if isLeadSurrogate lead then
      match rest with
      | trail :: rest =>
        if isTrailSurrogate trail then
          (utf8 rest).map (utf8Bytes ((lead - 0xD800) * 0x400 + (trail - 0xDC00) + 0x10000) ++ ·)
        else none
      | [] => none
    else if isTrailSurrogate lead then none
    else (utf8 rest).map (utf8Bytes lead ++ ·)

abbrev URLEncodedForm := List (List Nat × List Nat)

/-- The converted text is never null, so that there is a result whenever there is a text. A string that is
    null because the bytes are no UTF-8 is an empty one. -/
def formURLDecode (input : List Nat) : Option (List Nat) :=
  (utf8 input).map (fun bytes => (fromUTF8 (percentDecode bytes).1).getD [])

def replacePlus (input : List Nat) : List Nat := input.map (fun unit => if unit = '+'.toNat then 0x20 else unit)

def parsePair (bytes : List Nat) : Option (List Nat × List Nat) :=
  match bytes.dropWhile (· ≠ '='.toNat) with
  | [] => (formURLDecode (replacePlus bytes)).map (·, [])
  | _ :: value => do
    let name ← formURLDecode (replacePlus (bytes.takeWhile (· ≠ '='.toNat)))
    let value ← formURLDecode (replacePlus value)
    some (name, value)

def parseURLEncodedForm (input : List Nat) : Option URLEncodedForm :=
  ((input.splitOn '&'.toNat).filter (· ≠ [])).mapM parsePair

section

variable (charIsSigned : Bool)

/-- A byte as a `char`, and whether it stands for itself. -/
def isFormCharacter (byte : Nat) : Bool :=
  let byte : Int := if charIsSigned && 0x80 ≤ byte then byte - 0x100 else byte
  byte == 0x2A || byte == 0x2D || byte == 0x2E || (byte ≥ 0x30 && byte ≤ 0x39) || (byte ≥ 0x41 && byte ≤ 0x5A) ||
    byte == 0x5F || (byte ≥ 0x61 && byte ≤ 0x7A)

def serializeByte (byte : Nat) : List Nat :=
  if byte = 0x20 then [0x2B] else if isFormCharacter charIsSigned byte then [byte] else percentEncoded byte

def serializeURLEncodedForm (input output : List Nat) : Option (List Nat) :=
  (utf8 input).map (fun bytes => output ++ bytes.flatMap (serializeByte charIsSigned))

def serializeTuple (output : List Nat) (tuple : List Nat × List Nat) : Option (List Nat) := do
  let output := if output.isEmpty then output else output ++ ['&'.toNat]
  let output ← serializeURLEncodedForm charIsSigned tuple.1 output
  serializeURLEncodedForm charIsSigned tuple.2 (output ++ ['='.toNat])

def serialize (tuples : URLEncodedForm) : Option (List Nat) :=
  tuples.foldlM (serializeTuple charIsSigned) []

end

def isSerialized (unit : Nat) : Bool := isASCIIAlpha unit || isASCIIDigit unit || unit ∈ text "*-._%+"

variable {charIsSigned : Bool}

theorem serializeByte_cases : ∀ byte < 0x100, (∀ unit ∈ serializeByte charIsSigned byte, isSerialized unit = true) ∧
    (replacePlus (serializeByte charIsSigned byte) = [byte] ∧ byte ≠ '%'.toNat ∨
      replacePlus (serializeByte charIsSigned byte) = percentEncoded byte) := by
  cases charIsSigned <;> decide +kernel

theorem hexDigit_value : ∀ nibble < 0x10,
    isASCIIHexDigit (asciiHexDigit nibble) = true ∧ toASCIIHexValue (asciiHexDigit nibble) = nibble := by
  decide

theorem percentDecode_plain {byte : Nat} (plain : byte ≠ '%'.toNat) (rest : List Nat) :
    (percentDecode (byte :: rest)).1 = byte :: (percentDecode rest).1 := by
  match rest with
  | [] | [_] => rfl
  | _ :: _ :: _ => rw [percentDecode, if_neg (by simp_all)]

theorem percentDecode_encoded {byte : Nat} (isByte : byte < 0x100) (rest : List Nat) :
    (percentDecode (percentEncoded byte ++ rest)).1 = byte :: (percentDecode rest).1 := by
  have high := hexDigit_value (byte / 16) (by omega)
  have low := hexDigit_value (byte % 16) (by omega)
  simp [percentEncoded, percentDecode, high, low]
  omega

theorem percentDecode_serialized {bytes : List Nat} (areBytes : ∀ byte ∈ bytes, byte < 0x100) :
    (percentDecode (replacePlus (bytes.flatMap (serializeByte charIsSigned)))).1 = bytes := by
  induction bytes with
  | nil => rfl
  | cons byte bytes ih =>
    rw [forall_mem_cons] at areBytes
    rw [flatMap_cons, replacePlus, map_append]
    rcases (serializeByte_cases byte areBytes.1).2 with ⟨same, plain⟩ | same
    all_goals rw [replacePlus] at same
    · rw [same, singleton_append, percentDecode_plain plain, ← replacePlus, ih areBytes.2]
    · rw [same, percentDecode_encoded areBytes.1, ← replacePlus, ih areBytes.2]

theorem utf8_single {unit : Nat} (single : unit < 0xD800 ∨ 0xDFFF < unit) (rest : List Nat) :
    utf8 (unit :: rest) = (utf8 rest).map (utf8Bytes unit ++ ·) := by
  rw [utf8.eq_def]
  dsimp only
  rw [if_neg (by simp [isLeadSurrogate]; omega), if_neg (by simp [isTrailSurrogate]; omega)]

theorem utf8_ascii {input : List Nat} (ascii : ∀ unit ∈ input, unit < 0x80) : utf8 input = some input := by
  induction input with
  | nil => rfl
  | cons unit input ih =>
    rw [forall_mem_cons] at ascii
    rw [utf8_single (by omega), ih ascii.2, utf8Bytes, if_pos (by omega)]
    rfl

/-- The code units and the bytes of a text. -/
def utf16 (c : Char) : List Nat :=
  if c.toNat < 0x10000 then [c.toNat]
  else [0xD800 + (c.toNat - 0x10000) / 0x400, 0xDC00 + (c.toNat - 0x10000) % 0x400]

section

variable (characters : List Char)

def codeUnits : List Nat := characters.flatMap utf16

def bytesOf : List Nat := characters.flatMap (utf8Bytes ·.toNat)

theorem scalar_range (c : Char) : c.toNat < 0xD800 ∨ 0xDFFF < c.toNat ∧ c.toNat < 0x110000 := c.valid

theorem bytesOf_bytes : ∀ byte ∈ bytesOf characters, byte < 0x100 := by
  intro byte member
  obtain ⟨c, _, own⟩ := mem_flatMap.mp member
  have range := scalar_range c
  unfold utf8Bytes at own
  split_ifs at own <;> simp at own <;> omega

theorem utf8_codeUnits : utf8 (codeUnits characters) = some (bytesOf characters) := by
  induction characters with
  | nil => rfl
  | cons c characters ih =>
    have range := scalar_range c
    unfold codeUnits bytesOf at ih ⊢
    rw [flatMap_cons, utf16]
    split_ifs
    · rw [singleton_append, utf8_single (by omega), ih]
      rfl
    · have pair : (0xD800 + (c.toNat - 0x10000) / 0x400 - 0xD800) * 0x400 +
          (0xDC00 + (c.toNat - 0x10000) % 0x400 - 0xDC00) + 0x10000 = c.toNat := by omega
      rw [cons_append, singleton_append, utf8.eq_def]
      dsimp only
      rw [if_pos (by simp [isLeadSurrogate]; omega), if_pos (by simp [isTrailSurrogate]; omega), pair, ih]
      rfl

theorem utf16Units_char (c : Char) : utf16Units c.toNat = some (utf16 c) := by
  have range := scalar_range c
  unfold utf16Units utf16
  split_ifs <;> simp_all [isLeadSurrogate, isTrailSurrogate] <;> omega

theorem isLegalSecondByte_iff (first second : Nat) : isLegalSecondByte first second = true ↔ second ≤ 0xBF ∧
    if first = 0xE0 then second ≥ 0xA0 else if first = 0xED then second ≤ 0x9F
    else if first = 0xF0 then second ≥ 0x90 else if first = 0xF4 then second ≤ 0x8F else second ≥ 0x80 := by
  unfold isLegalSecondByte
  split_ifs <;> simp

theorem fromUTF8_bytesOf : fromUTF8 (bytesOf characters) = some (codeUnits characters) := by
  induction characters with
  | nil => rfl
  | cons c characters ih =>
    have range := scalar_range c
    have units := utf16Units_char c
    unfold codeUnits bytesOf at ih ⊢
    rw [flatMap_cons, flatMap_cons, utf8Bytes]
    split_ifs
    all_goals
      simp only [cons_append, nil_append]
      rw [fromUTF8.eq_def]
      dsimp only
    · rw [if_pos (by omega), ih, utf16, if_pos (by omega)]
      rfl
    · have value : (0xC0 + c.toNat / 0x40) * 0x40 + (0x80 + c.toNat % 0x40) - 0x3080 = c.toNat := by omega
      rw [if_neg (by omega), if_neg (by simp; omega), if_pos (by omega), if_pos, value, units, ih]
      · rfl
      · rw [isLegalSecondByte_iff]
        split_ifs <;> omega
    · have value : (0xE0 + c.toNat / 0x1000) * 0x1000 + (0x80 + c.toNat / 0x40 % 0x40) * 0x40 +
          (0x80 + c.toNat % 0x40) - 0xE2080 = c.toNat := by omega
      rw [if_neg (by omega), if_neg (by simp; omega), if_neg (by omega), if_pos (by omega), if_pos, value, units, ih]
      · rfl
      · rw [Bool.and_eq_true, isLegalSecondByte_iff]
        refine ⟨by simp [isTrailByte]; omega, ?_⟩
        split_ifs <;> omega
    · have value : (0xF0 + c.toNat / 0x40000) * 0x40000 + (0x80 + c.toNat / 0x1000 % 0x40) * 0x1000 +
          (0x80 + c.toNat / 0x40 % 0x40) * 0x40 + (0x80 + c.toNat % 0x40) - 0x3C82080 = c.toNat := by omega
      rw [if_neg (by omega), if_neg (by simp; omega), if_neg (by omega), if_neg (by omega), if_pos, value, units, ih]
      · rfl
      · rw [Bool.and_eq_true, isLegalSecondByte_iff]
        refine ⟨by simp [isTrailByte]; omega, ?_⟩
        split_ifs <;> omega

end

theorem isSerialized_range {unit : Nat} (own : isSerialized unit = true) :
    unit < 0x80 ∧ unit ≠ '&'.toNat ∧ unit ≠ '='.toNat := by
  simp [isSerialized, isASCIIAlpha, isASCIIUpper, isASCIILower, isASCIIDigit, text] at own ⊢
  omega

/-- A string and a pair as they are written. -/
def written (charIsSigned : Bool) (characters : List Char) : List Nat :=
  (bytesOf characters).flatMap (serializeByte charIsSigned)

def writtenPair (charIsSigned : Bool) (pair : List Char × List Char) : List Nat :=
  written charIsSigned pair.1 ++ '='.toNat :: written charIsSigned pair.2

variable {characters : List Char} {pair : List Char × List Char} {unit : Nat}

theorem mem_written (member : unit ∈ written charIsSigned characters) : isSerialized unit = true := by
  obtain ⟨byte, inside, own⟩ := mem_flatMap.mp member
  exact (serializeByte_cases byte (bytesOf_bytes characters byte inside)).1 unit own

theorem mem_writtenPair (member : unit ∈ writtenPair charIsSigned pair) :
    isSerialized unit = true ∨ unit = '='.toNat := by
  rcases mem_append.mp member with name | value
  · exact .inl (mem_written name)
  · exact (mem_cons.mp value).symm.imp mem_written id

theorem formURLDecode_written (characters : List Char) :
    formURLDecode (replacePlus (written charIsSigned characters)) = some (codeUnits characters) := by
  rw [formURLDecode, utf8_ascii, Option.map_some, written, percentDecode_serialized (bytesOf_bytes characters),
    fromUTF8_bytesOf]
  · rfl
  · intro unit member
    obtain ⟨own, inside, rfl⟩ := mem_map.mp member
    have range := isSerialized_range (mem_written inside)
    split_ifs <;> omega

theorem parsePair_written (pair : List Char × List Char) :
    parsePair (writtenPair charIsSigned pair) = some (Prod.map codeUnits codeUnits pair) := by
  have name : ∀ unit ∈ written charIsSigned pair.1, decide (unit ≠ '='.toNat) = true := by
    intro unit member
    simpa using (isSerialized_range (mem_written member)).2.2
  rw [parsePair, writtenPair, dropWhile_append_of_pos name, takeWhile_append_of_pos name]
  simp [formURLDecode_written, Prod.map]

variable (form : List (List Char × List Char))

def codes : URLEncodedForm := form.map (Prod.map codeUnits codeUnits)

theorem parsePairs_written : (form.map (writtenPair charIsSigned)).mapM parsePair = some (codes form) := by
  induction form with
  | nil => rfl
  | cons pair form ih => simp [mapM_cons, parsePair_written, ih, codes]

/-- The pairs after the first one as they are written. -/
def writtenRest (charIsSigned : Bool) (form : List (List Char × List Char)) : List Nat :=
  form.flatMap (fun pair => '&'.toNat :: writtenPair charIsSigned pair)

theorem serialize_rest {output : List Nat} (after : output ≠ []) :
    (codes form).foldlM (serializeTuple charIsSigned) output = some (output ++ writtenRest charIsSigned form) := by
  induction form generalizing output with
  | nil => simp [codes, writtenRest]
  | cons pair form ih =>
    have first : serializeTuple charIsSigned output (Prod.map codeUnits codeUnits pair) =
        some (output ++ '&'.toNat :: writtenPair charIsSigned pair) := by
      simp [serializeTuple, serializeURLEncodedForm, after, utf8_codeUnits, writtenPair, written]
    rw [codes, map_cons, foldlM_cons, first, writtenRest, flatMap_cons, ← append_assoc]
    exact ih (by simp)

theorem not_mem_writtenPair (pair : List Char × List Char) : '&'.toNat ∉ writtenPair charIsSigned pair := by
  intro member
  rcases mem_writtenPair member with own | same
  · exact (isSerialized_range own).2.1 rfl
  · cases same

theorem splitOn_written (pair : List Char × List Char) :
    (writtenPair charIsSigned pair ++ writtenRest charIsSigned form).splitOn '&'.toNat =
      (pair :: form).map (writtenPair charIsSigned) := by
  induction form generalizing pair with
  | nil => simpa [writtenRest] using splitOn_eq_singleton (not_mem_writtenPair pair)
  | cons next form ih =>
    rw [writtenRest, flatMap_cons, cons_append, splitOn_append_cons_self_of_not_mem (not_mem_writtenPair pair),
      ← writtenRest, ih, ← map_cons]

theorem form_round_trip (charIsSigned : Bool) (form : List (List Char × List Char)) :
    ∃ output, serialize charIsSigned (codes form) = some output ∧ parseURLEncodedForm output = some (codes form) ∧
      ∀ unit ∈ output, isSerialized unit = true ∨ unit ∈ text "&=" := by
  cases form with
  | nil => exact ⟨[], rfl, rfl, by simp⟩
  | cons pair form =>
    refine ⟨writtenPair charIsSigned pair ++ writtenRest charIsSigned form, ?_, ?_, ?_⟩
    · have first : serializeTuple charIsSigned [] (Prod.map codeUnits codeUnits pair) =
          some (writtenPair charIsSigned pair) := by
        simp [serializeTuple, serializeURLEncodedForm, utf8_codeUnits, writtenPair, written]
      rw [serialize, codes, map_cons, foldlM_cons, first]
      exact serialize_rest form (by simp [writtenPair])
    · rw [parseURLEncodedForm, splitOn_written, filter_eq_self.mpr]
      · exact parsePairs_written (pair :: form)
      · simp only [forall_mem_map]
        simp [writtenPair]
    · intro unit member
      simp only [writtenRest, mem_append, mem_flatMap, mem_cons] at member
      rcases member with own | ⟨_, _, rfl | own⟩
      · exact (mem_writtenPair own).imp_right (by rintro rfl; decide)
      · exact .inr (by decide)
      · exact (mem_writtenPair own).imp_right (by rintro rfl; decide)

end Odyssey.URLs
