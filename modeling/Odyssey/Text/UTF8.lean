import Mathlib.Data.Nat.Find
import Mathlib.Data.List.Basic

namespace Odyssey.Text.UTF8

open List Nat UInt8

open String (utf8EncodeChar)

def Begins (part : List UInt8) : Prop := ∃ character, part <+: utf8EncodeChar character

/-- The first part of an input: the encoding of a character, or, if none begins the input, the longest part
    that is a single byte or that begins an encoding. -/
inductive FirstPart (input : List UInt8) : Option Char → List UInt8 → Prop
  | character {character : Char} (starts : utf8EncodeChar character <+: input) :
      FirstPart input (some character) (utf8EncodeChar character)
  | illFormed {part : List UInt8} (starts : part <+: input) (nonempty : part ≠ [])
      (unconvertible : ∀ character, ¬ utf8EncodeChar character <+: input)
      (subpart : part.length = 1 ∨ Begins part)
      (maximal : ∀ longer, longer <+: input → Begins longer → longer.length ≤ part.length) :
      FirstPart input none part

/-- The decoding of an input, part by part. A part that is not the encoding of a character is an error. -/
inductive Decodes : List UInt8 → List (Option Char) → Prop
  | nil : Decodes [] []
  | cons {part rest : List UInt8} {item : Option Char} {items : List (Option Char)}
      (first : FirstPart (part ++ rest) item part) (others : Decodes rest items) :
      Decodes (part ++ rest) (item :: items)

theorem encode_ne_nil (character : Char) : utf8EncodeChar character ≠ [] := by
  rw [ne_eq, ← length_eq_zero_iff, String.length_utf8EncodeChar]
  exact Nat.pos_iff_ne_zero.mp character.utf8Size_pos

variable {input part bytes rest : List UInt8} {item : Option Char} {value : Nat} {first byte : UInt8}

theorem encode_unique {one other : Char} (first : utf8EncodeChar one <+: input)
    (second : utf8EncodeChar other <+: input) : one = other := by
  rcases first with ⟨rest, whole⟩
  rcases second with ⟨rest', whole'⟩
  have decoded : ((utf8EncodeChar one).toByteArray ++ rest.toByteArray).utf8DecodeChar? 0 = some one :=
    ByteArray.utf8DecodeChar?_utf8EncodeChar_append
  rw [← toByteArray_append, whole, ← whole', toByteArray_append,
    ByteArray.utf8DecodeChar?_utf8EncodeChar_append] at decoded
  exact (Option.some.inj decoded).symm

theorem FirstPart.ne_nil (first : FirstPart input item part) : part ≠ [] := by
  cases first with
  | character => exact encode_ne_nil _
  | illFormed _ nonempty => exact nonempty

theorem FirstPart.unique {other : List UInt8} {item' : Option Char} (first : FirstPart input item part)
    (second : FirstPart input item' other) : item = item' ∧ part = other := by
  cases first with
  | character starts =>
    cases second with
    | character starts' =>
      cases encode_unique starts starts'
      exact ⟨rfl, rfl⟩
    | illFormed _ _ unconvertible => exact absurd starts (unconvertible _)
  | illFormed starts nonempty unconvertible subpart maximal =>
    cases second with
    | character starts' => exact absurd starts' (unconvertible _)
    | illFormed starts' nonempty' _ subpart' maximal' =>
      have longer {short long : List UInt8} (nonempty : short ≠ []) (begins : long <+: input)
          (maximal : ∀ longer, longer <+: input → Begins longer → longer.length ≤ short.length)
          (subpart : long.length = 1 ∨ Begins long) : long.length ≤ short.length := by
        rcases subpart with single | known
        · rw [single]
          exact length_pos_of_ne_nil nonempty
        · exact maximal long begins known
      have same : part.length = other.length := le_antisymm
        (longer nonempty' starts maximal' subpart) (longer nonempty starts' maximal subpart')
      refine ⟨rfl, ?_⟩
      exact (prefix_of_prefix_length_le starts starts' (le_of_eq same)).eq_of_length same

theorem Decodes.unique {items others : List (Option Char)} (first : Decodes input items)
    (second : Decodes input others) : items = others := by
  induction first generalizing others with
  | nil =>
    generalize empty : ([] : List UInt8) = input at second
    cases second with
    | nil => rfl
    | cons first _ => exact absurd (append_eq_nil_iff.mp empty.symm).1 first.ne_nil
  | @cons part rest item items first _ ih =>
    generalize whole : part ++ rest = input at first second
    cases second with
    | nil => exact absurd (append_eq_nil_iff.mp whole).1 first.ne_nil
    | cons first' others' =>
      rcases first.unique first' with ⟨rfl, rfl⟩
      rw [ih (append_cancel_left whole ▸ others')]

theorem Decodes.of_nil (decodes : Decodes input []) : input = [] := by
  cases decodes
  rfl

open Classical in
theorem firstPart_exists (nonempty : input ≠ []) : ∃ item part, FirstPart input item part := by
  by_cases convertible : ∃ character, utf8EncodeChar character <+: input
  · rcases convertible with ⟨character, starts⟩
    exact ⟨_, _, .character starts⟩
  · have positive := length_pos_of_ne_nil nonempty
    -- The longest part is sought among the prefixes by their lengths.
    let fits (length : Nat) : Prop := length = 1 ∨ Begins (input.take length)
    have spec : fits (findGreatest fits input.length) := findGreatest_spec (succ_le_of_lt positive) (Or.inl rfl)
    have bounded : findGreatest fits input.length ≤ input.length := findGreatest_le _
    have size : (input.take (findGreatest fits input.length)).length =
        findGreatest fits input.length := length_take_of_le bounded
    have least : 1 ≤ findGreatest fits input.length := le_findGreatest (succ_le_of_lt positive) (Or.inl rfl)
    refine ⟨none, input.take (findGreatest fits input.length), .illFormed ( take_prefix _ _) ?_ ?_ ?_ ?_⟩
    · apply ne_nil_of_length_pos
      rw [size]
      exact least
    · exact fun character starts => convertible ⟨character, starts⟩
    · rw [size]
      exact spec
    · intro longer starts begins
      rw [size]
      apply le_findGreatest starts.length_le
      right
      rw [← prefix_iff_eq_take.mp starts]
      exact begins

theorem FirstPart.then {items : List (Option Char)} (first : FirstPart input item part)
    (others : Decodes (input.drop part.length) items) : Decodes input (item :: items) := by
  have starts : part <+: input := by
    cases first with
    | character starts => exact starts
    | illFormed starts => exact starts
  have whole : part ++ input.drop part.length = input := by
    rw [prefix_iff_eq_append.mp starts]
  rw [← whole] at first ⊢
  exact .cons first others

theorem decodes_exists (input : List UInt8) : ∃ items, Decodes input items := by
  induction size : input.length using Nat.strongRecOn generalizing input with
  | _ length ih =>
    cases input with
    | nil => exact ⟨[], .nil⟩
    | cons byte rest =>
      rcases firstPart_exists (cons_ne_nil byte rest) with ⟨item, part, first⟩
      have less : ((byte :: rest).drop part.length).length < length := by
        have positive := length_pos_of_ne_nil first.ne_nil
        rw [← size, length_drop, length_cons]
        omega
      rcases ih _ less _ rfl with ⟨items, others⟩
      exact ⟨item :: items, first.then others⟩

def Trail (byte : UInt8) : Prop := 0x80 ≤ byte.toNat ∧ byte.toNat ≤ 0xBF

structure Second (first second : UInt8) : Prop where
  trail : Trail second
  afterE0 : first.toNat = 0xE0 → 0xA0 ≤ second.toNat
  afterED : first.toNat = 0xED → second.toNat ≤ 0x9F
  afterF0 : first.toNat = 0xF0 → 0x90 ≤ second.toNat
  afterF4 : first.toNat = 0xF4 → second.toNat ≤ 0x8F

/-- The table of well-formed sequences, with their values. -/
inductive WellFormed : List UInt8 → Nat → Prop
  | one {a : UInt8} (lead : a.toNat ≤ 0x7F) : WellFormed [a] a.toNat
  | two {a b : UInt8} (low : 0xC2 ≤ a.toNat) (high : a.toNat ≤ 0xDF) (second : Trail b) :
      WellFormed [a, b] ((a.toNat - 0xC0) * 64 + (b.toNat - 0x80))
  | three {a b c : UInt8} (low : 0xE0 ≤ a.toNat) (high : a.toNat ≤ 0xEF) (second : Second a b)
      (third : Trail c) :
      WellFormed [a, b, c] ((a.toNat - 0xE0) * 4096 + (b.toNat - 0x80) * 64 + (c.toNat - 0x80))
  | four {a b c d : UInt8} (low : 0xF0 ≤ a.toNat) (high : a.toNat ≤ 0xF4) (second : Second a b)
      (third : Trail c) (fourth : Trail d) :
      WellFormed [a, b, c, d] ((a.toNat - 0xF0) * 262144 + (b.toNat - 0x80) * 4096 +
        (c.toNat - 0x80) * 64 + (d.toNat - 0x80))

theorem WellFormed.of_eq {other : Nat} (wellFormed : WellFormed bytes value) (same : value = other) :
    WellFormed bytes other := same ▸ wellFormed

theorem encode_wellFormed (character : Char) : WellFormed (utf8EncodeChar character) character.toNat := by
  have bounds : character.toNat < 0xD800 ∨ 0xDFFF < character.toNat ∧ character.toNat < 0x110000 := character.valid
  have value : character.val.toNat = character.toNat := rfl
  have byte {n : Nat} (small : n < 256) : (ofNat n).toNat = n := toNat_ofNat_of_lt' small
  have trail (n : Nat) : Trail (ofNat (n % 64 + 128)) ∧ (ofNat (n % 64 + 128)).toNat = n % 64 + 128 := by
    have same : (ofNat (n % 64 + 128)).toNat = n % 64 + 128 := byte (by omega)
    unfold Trail
    omega
  unfold utf8EncodeChar
  rw [value]
  generalize character.toNat = v at bounds
  simp only
  split
  · have lead : (ofNat v).toNat = v := byte (by omega)
    exact (WellFormed.one (by omega)).of_eq lead
  · split
    · have lead : (ofNat (v / 64 % 32 + 192)).toNat = v / 64 % 32 + 192 := byte (by omega)
      rcases trail v with ⟨second, last⟩
      exact (WellFormed.two (by omega) (by omega) second).of_eq (by omega)
    · split
      · have lead : (ofNat (v / 4096 % 16 + 224)).toNat = v / 4096 % 16 + 224 := byte (by omega)
        rcases trail (v / 64) with ⟨second, middle⟩
        rcases trail v with ⟨third, last⟩
        have inRange : Second (ofNat (v / 4096 % 16 + 224)) (ofNat (v / 64 % 64 + 128)) := by
          constructor <;> first | exact second | omega
        exact (WellFormed.three (by omega) (by omega) inRange third).of_eq (by omega)
      · have lead : (ofNat (v / 262144 % 8 + 240)).toNat = v / 262144 % 8 + 240 := byte (by omega)
        rcases trail (v / 4096) with ⟨second, upper⟩
        rcases trail (v / 64) with ⟨third, middle⟩
        rcases trail v with ⟨fourth, last⟩
        have inRange : Second (ofNat (v / 262144 % 8 + 240)) (ofNat (v / 4096 % 64 + 128)) := by
          constructor <;> first | exact second | omega
        exact (WellFormed.four (by omega) (by omega) inRange third fourth).of_eq (by omega)

theorem wellFormed_encode (wellFormed : WellFormed bytes value) :
    ∃ character, utf8EncodeChar character = bytes ∧ character.toNat = value := by
  have byte {n : Nat} {a : UInt8} (same : n = a.toNat) : ofNat n = a := by
    rw [same, UInt8.ofNat_toNat]
  have build (valid : value.isValidChar)
      (encodes : ∀ character : Char, character.val.toNat = value → utf8EncodeChar character = bytes) :
      ∃ character, utf8EncodeChar character = bytes ∧ character.toNat = value := by
    have number : (Char.ofNat value).toNat = value := by
      rw [Char.ofNat, dif_pos valid]
      rfl
    exact ⟨_, encodes _ number, number⟩
  cases wellFormed with
  | one lead =>
    refine build (by omega) fun character number => ?_
    rw [utf8EncodeChar, number, if_pos lead, byte rfl]
  | @two a b low high second =>
    unfold Trail at second
    refine build (by omega) fun character number => ?_
    rw [utf8EncodeChar, number, if_neg (by omega), if_pos (by omega), byte (a := a) (by omega),
      byte (a := b) (by omega)]
  | @three a b c low high second third =>
    obtain ⟨trail, small, large, _, _⟩ := second
    unfold Trail at third trail
    refine build (by omega) fun character number => ?_
    rw [utf8EncodeChar, number, if_neg (by omega), if_neg (by omega), if_pos (by omega),
      byte (a := a) (by omega), byte (a := b) (by omega), byte (a := c) (by omega)]
  | @four a b c d low high second third fourth =>
    obtain ⟨trail, _, _, small, large⟩ := second
    unfold Trail at third fourth trail
    refine build (by omega) fun character number => ?_
    rw [utf8EncodeChar, number, if_neg (by omega), if_neg (by omega), if_neg (by omega),
      byte (a := a) (by omega), byte (a := b) (by omega), byte (a := c) (by omega), byte (a := d) (by omega)]

theorem Begins.wellFormed (begins : Begins part) : ∃ bytes value, WellFormed bytes value ∧ part <+: bytes :=
  begins.elim fun character starts => ⟨_, _, encode_wellFormed character, starts⟩

theorem Begins.trail (begins : Begins (first :: rest)) (inside : byte ∈ rest) : Trail byte := by
  rcases begins.wellFormed with ⟨_, value, wellFormed, more, rfl⟩
  have member : byte ∈ (first :: rest ++ more).tail := mem_append_left _ inside
  generalize first :: rest ++ more = bytes at wellFormed member
  cases wellFormed with
  | one => cases member
  | two low high second =>
    cases mem_singleton.mp member
    exact second
  | three low high second third =>
    rcases mem_pair.mp member with rfl | rfl
    · exact second.trail
    · exact third
  | four low high second third fourth =>
    rcases mem_cons.mp member with rfl | member
    · exact second.trail
    · rcases mem_pair.mp member with rfl | rfl
      · exact third
      · exact fourth

theorem Begins.shorter {longer : List UInt8} (begins : Begins longer) (starts : part <+: longer) : Begins part := by
  rcases begins with ⟨character, whole⟩
  exact ⟨character, starts.trans whole⟩

theorem WellFormed.begins (wellFormed : WellFormed bytes value) (starts : part <+: bytes) : Begins part := by
  rcases wellFormed_encode wellFormed with ⟨character, whole, _⟩
  exact ⟨character, whole ▸ starts⟩

theorem maximal_of_stops {next : UInt8} (stops : ¬ Begins (part ++ [next])) (longer : List UInt8)
    (starts : longer <+: part ++ next :: rest) (begins : Begins longer) : longer.length ≤ part.length := by
  by_contra beyond
  have continued : part ++ [next] <+: part ++ next :: rest :=
    (prefix_append_right_inj part).mpr (cons_prefix_cons.mpr ⟨rfl, nil_prefix⟩)
  have size : (part ++ [next]).length ≤ longer.length := by
    rw [length_append, length_singleton]
    omega
  exact stops (begins.shorter (prefix_of_prefix_length_le continued starts size))

theorem maximal_of_wrong (wrong : ¬ Begins [byte]) (longer : List UInt8)
    (starts : longer <+: byte :: rest) (begins : Begins longer) : longer.length ≤ 1 := by
  cases longer with
  | nil => exact zero_le _
  | cons first others =>
    rcases cons_prefix_cons.mp starts with ⟨rfl, _⟩
    exact absurd (begins.shorter (cons_prefix_cons.mpr ⟨rfl, nil_prefix⟩)) wrong

theorem Begins.lead (begins : Begins (first :: rest)) :
    first.toNat ≤ 0x7F ∨ 0xC2 ≤ first.toNat ∧ first.toNat ≤ 0xF4 := by
  rcases begins.wellFormed with ⟨bytes, value, wellFormed, starts⟩
  cases wellFormed
  all_goals
    rw [(cons_prefix_cons.mp starts).1]
    omega

theorem Begins.second {second : UInt8} (begins : Begins (first :: second :: rest))
    (long : 0xE0 ≤ first.toNat) : Second first second := by
  rcases begins.wellFormed with ⟨bytes, value, wellFormed, starts⟩
  cases wellFormed with
  | one lead =>
    have none := (cons_prefix_cons.mp starts).2
    cases prefix_nil.mp none
  | two low high =>
    rw [(cons_prefix_cons.mp starts).1] at long
    omega
  | three low high inRange | four low high inRange =>
    rcases cons_prefix_cons.mp starts with ⟨rfl, others⟩
    exact (cons_prefix_cons.mp others).1 ▸ inRange

theorem FirstPart.trail (part : FirstPart input item (first :: rest)) (inside : byte ∈ rest) : Trail byte := by
  generalize whole : first :: rest = bytes at part
  cases part with
  | @character character =>
    have begins : Begins (first :: rest) := ⟨character, whole ▸ prefix_rfl⟩
    exact begins.trail inside
  | illFormed _ _ _ subpart =>
    rcases subpart with single | begins
    · rw [← whole] at single
      cases length_eq_zero_iff.mp (succ.inj single)
      cases inside
    · rw [← whole] at begins
      exact begins.trail inside

theorem begins_lead (low : 0xC2 ≤ first.toNat) (high : first.toNat ≤ 0xF4) : Begins [first] := by
  have least : Trail 0x80 := ⟨le_refl _, by decide⟩
  by_cases two : first.toNat ≤ 0xDF
  · exact (WellFormed.two low two least).begins ⟨[0x80], rfl⟩
  · have exists_second : ∃ second, Second first second := by
      by_cases smallest : first.toNat = 0xE0
      · refine ⟨0xA0, ?_⟩
        constructor <;> first | exact ⟨by decide, by decide⟩ | (intro; first | decide | omega)
      · by_cases small : first.toNat = 0xF0
        · refine ⟨0x90, ?_⟩
          constructor <;> first | exact ⟨by decide, by decide⟩ | (intro; first | decide | omega)
        · refine ⟨0x80, ?_⟩
          constructor <;> first | exact least | (intro; first | decide | omega)
    rcases exists_second with ⟨second, inRange⟩
    by_cases three : first.toNat ≤ 0xEF
    · exact (WellFormed.three (by omega) three inRange least).begins ⟨[second, 0x80], rfl⟩
    · exact (WellFormed.four (by omega) high inRange least least).begins ⟨[second, 0x80, 0x80], rfl⟩

/-- The code units of a character, or of the replacement character. -/
def utf16 : Option Char → List UInt16
  | none => [0xFFFD]
  | some character =>
    if character.toNat < 0x10000 then [UInt16.ofNat character.toNat]
    else [UInt16.ofNat (0xD800 + (character.toNat - 0x10000) / 0x400),
      UInt16.ofNat (0xDC00 + (character.toNat - 0x10000) % 0x400)]

theorem utf16_length (item : Option Char) : 0 < (utf16 item).length := by
  cases item with
  | none => exact Nat.one_pos
  | some character =>
    unfold utf16
    simp only
    split <;> exact succ_pos _

end Odyssey.Text.UTF8
