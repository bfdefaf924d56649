import Odyssey.Text.CodecUTF8Loops
import Odyssey.Text.UTF8

namespace Odyssey.Text

open Systems TextCodecUTF8 UTF8 List Nat
open String (utf8EncodeChar)

variable {byte a b c : UInt8} {rest input : List UInt8}

theorem isASCII_iff : isASCII byte = true ↔ byte.toNat ≤ 0x7F := by
  rw [isASCII, decide_eq_true_eq]
  exact Nat.lt_succ_iff

theorem outside_iff {low high : UInt8} :
    outside low high byte = true ↔ byte.toNat < low.toNat ∨ high.toNat < byte.toNat := by
  rw [outside, Bool.or_eq_true, decide_eq_true_eq, decide_eq_true_eq, UInt8.lt_iff_toNat_lt, gt_iff_lt,
    UInt8.lt_iff_toNat_lt]

theorem nonASCIISequenceLength_toNat (byte : UInt8) :
    nonASCIISequenceLength byte = if byte.toNat < 0xC2 then 0 else if byte.toNat < 0xE0 then 2
      else if byte.toNat < 0xF0 then 3 else if byte.toNat < 0xF5 then 4 else 0 := by
  unfold nonASCIISequenceLength
  rfl

theorem outside_trail : outside 0x80 0xBF byte = true ↔ ¬ Trail byte := by
  rw [outside_iff, Trail]
  show byte.toNat < 0x80 ∨ 0xBF < byte.toNat ↔ _
  omega

open scoped Classical in
theorem decodeNonASCIISequence_two (rest : List UInt8) (low : 0xC2 ≤ a.toNat) :
    decodeNonASCIISequence (a :: b :: rest) 2 =
      if Trail b then (some ((a.toNat - 0xC0) * 64 + (b.toNat - 0x80)), 2) else (none, 1) := by
  unfold decodeNonASCIISequence
  simp only [getD_cons_zero, getD_cons_succ, if_true, outside_trail, ite_not]
  split_ifs with trail
  · unfold Trail at trail
    rw [show a.toNat * 2 ^ 6 + b.toNat - 0x3080 = (a.toNat - 0xC0) * 64 + (b.toNat - 0x80) by omega]
  · rfl

theorem second_three (low : 0xE0 ≤ a.toNat) (high : a.toNat ≤ 0xEF) :
    Second a b ↔ (decide (a = 0xE0) && outside 0xA0 0xBF b) = false ∧
      (decide (a = 0xED) && outside 0x80 0x9F b) = false ∧
      (decide (a ≠ 0xE0) && decide (a ≠ 0xED) && outside 0x80 0xBF b) = false := by
  simp only [← Bool.not_eq_true, Bool.and_eq_true, decide_eq_true_eq, outside_iff, ← UInt8.toNat_inj, ne_eq,
    UInt8.reduceToNat]
  constructor
  · rintro ⟨trail, afterE0, afterED, _, _⟩
    unfold Trail at trail
    omega
  · intro checks
    constructor <;> (try unfold Trail) <;> omega

theorem second_four (low : 0xF0 ≤ a.toNat) : Second a b ↔ (decide (a = 0xF0) && outside 0x90 0xBF b) = false ∧
      (decide (a = 0xF4) && outside 0x80 0x8F b) = false ∧
      (decide (a ≠ 0xF0) && decide (a ≠ 0xF4) && outside 0x80 0xBF b) = false := by
  simp only [← Bool.not_eq_true, Bool.and_eq_true, decide_eq_true_eq, outside_iff, ← UInt8.toNat_inj, ne_eq,
    UInt8.reduceToNat]
  constructor
  · rintro ⟨trail, _, _, afterF0, afterF4⟩
    unfold Trail at trail
    omega
  · intro checks
    constructor <;> (try unfold Trail) <;> omega

theorem ite_of_three {α : Type*} {p q r : Bool} {wrong right : α} {passes : Prop} [Decidable passes]
    (checks : passes ↔ p = false ∧ q = false ∧ r = false) :
    (if p = true then wrong else if q = true then wrong else if r = true then wrong else right) =
      if passes then right else wrong := by
  simp only [checks]
  cases p <;> cases q <;> cases r <;> simp

open scoped Classical in
theorem decodeNonASCIISequence_three (rest : List UInt8) (low : 0xE0 ≤ a.toNat) (high : a.toNat ≤ 0xEF) :
    decodeNonASCIISequence (a :: b :: c :: rest) 3 = if Second a b then
        if Trail c then (some ((a.toNat - 0xE0) * 4096 + (b.toNat - 0x80) * 64 + (c.toNat - 0x80)), 3)
        else (none, 2)
      else (none, 1) := by
  unfold decodeNonASCIISequence
  simp only [getD_cons_zero, getD_cons_succ, reduceEqDiff, if_false, if_true, ite_of_three (second_three low high),
    outside_trail, ite_not]
  split_ifs with second third
  · have trail := second.trail
    unfold Trail at third trail
    rw [show a.toNat * 2 ^ 12 + b.toNat * 2 ^ 6 + c.toNat - 0xE2080 =
      (a.toNat - 0xE0) * 4096 + (b.toNat - 0x80) * 64 + (c.toNat - 0x80) by omega]
  all_goals rfl

open scoped Classical in
theorem decodeNonASCIISequence_four {d : UInt8} (rest : List UInt8) (low : 0xF0 ≤ a.toNat) :
    decodeNonASCIISequence (a :: b :: c :: d :: rest) 4 = if Second a b then if Trail c then
          if Trail d then (some ((a.toNat - 0xF0) * 262144 + (b.toNat - 0x80) * 4096 + (c.toNat - 0x80) * 64 +
            (d.toNat - 0x80)), 4)
          else (none, 3)
        else (none, 2)
      else (none, 1) := by
  unfold decodeNonASCIISequence
  simp only [getD_cons_zero, getD_cons_succ, reduceEqDiff, if_false, ite_of_three (second_four low),
    outside_trail, ite_not]
  split_ifs with second third fourth
  · have trail := second.trail
    unfold Trail at third fourth trail
    rw [show a.toNat * 2 ^ 18 + b.toNat * 2 ^ 12 + c.toNat * 2 ^ 6 + d.toNat - 0x3C82080 =
      (a.toNat - 0xF0) * 262144 + (b.toNat - 0x80) * 4096 + (c.toNat - 0x80) * 64 + (d.toNat - 0x80) by omega]
  all_goals rfl

theorem nextItem_cases (first : UInt8) (rest : List UInt8) :
    (first.toNat ≤ 0x7F ∧ nextItem (first :: rest) = some (some first.toNat, 1)) ∨
      ((0x7F < first.toNat ∧ first.toNat < 0xC2 ∨ 0xF4 < first.toNat) ∧
        nextItem (first :: rest) = some (none, 1)) ∨
      0xC2 ≤ first.toNat ∧ first.toNat ≤ 0xF4 ∧
        nextItem (first :: rest) = if nonASCIISequenceLength first > (first :: rest).length then none
          else some (decodeNonASCIISequence (first :: rest) (nonASCIISequenceLength first)) := by
  have length := nonASCIISequenceLength_toNat first
  rw [nextItem]
  simp only [isASCII_iff]
  by_cases ascii : first.toNat ≤ 0x7F
  · rw [if_pos ascii]
    exact .inl ⟨ascii, rfl⟩
  · right
    rw [if_neg ascii]
    by_cases none : nonASCIISequenceLength first = 0
    · rw [if_pos none]
      left
      refine ⟨?_, rfl⟩
      split_ifs at length <;> omega
    · rw [if_neg none]
      right
      refine ⟨?_, ?_, rfl⟩
      · by_contra low
        rw [if_pos (by omega)] at length
        exact none length
      · by_contra high
        rw [if_neg (by omega), if_neg (by omega), if_neg (by omega), if_neg (by omega)] at length
        exact none length

theorem nextItem_encode (character : Char) (rest : List UInt8) : nextItem (utf8EncodeChar character ++ rest) =
      some (some character.toNat, (utf8EncodeChar character).length) := by
  have wellFormed := encode_wellFormed character
  generalize utf8EncodeChar character = bytes at wellFormed ⊢
  generalize character.toNat = value at wellFormed ⊢
  have found (first : UInt8) (rest : List UInt8) (low : 0xC2 ≤ first.toNat) (high : first.toNat ≤ 0xF4) :
      nextItem (first :: rest) = if nonASCIISequenceLength first > (first :: rest).length then none
        else some (decodeNonASCIISequence (first :: rest) (nonASCIISequenceLength first)) := by
    rcases nextItem_cases first rest with ⟨range, _⟩ | ⟨range, _⟩ | ⟨_, _, found⟩
    · omega
    · omega
    · exact found
  cases wellFormed with
  | @one a lead =>
    rcases nextItem_cases a rest with ⟨_, found⟩ | ⟨range, _⟩ | ⟨low, _⟩
    · exact found
    · omega
    · omega
  | @two a b low high second =>
    have length := nonASCIISequenceLength_toNat a
    rw [if_neg (by omega), if_pos (by omega)] at length
    have item := found a (b :: rest) (by omega) (by omega)
    rwa [length, decodeNonASCIISequence_two rest low, if_pos second] at item
  | @three a b c low high second third =>
    have length := nonASCIISequenceLength_toNat a
    rw [if_neg (by omega), if_neg (by omega), if_pos (by omega)] at length
    have item := found a (b :: c :: rest) (by omega) (by omega)
    rwa [length, decodeNonASCIISequence_three rest low high, if_pos second, if_pos third] at item
  | @four a b c d low high second third fourth =>
    have length := nonASCIISequenceLength_toNat a
    rw [if_neg (by omega), if_neg (by omega), if_neg (by omega), if_pos (by omega)] at length
    have item := found a (b :: c :: d :: rest) (by omega) (by omega)
    rwa [length, decodeNonASCIISequence_four rest low, if_pos second, if_pos third, if_pos fourth] at item

/-- What an item should be: a character with its encoding, or the longest part that begins one. -/
inductive Standard (input : List UInt8) : Option Nat × Nat → Prop
  | character (bytes : List UInt8) {rest : List UInt8} {value : Nat} (whole : input = bytes ++ rest)
      (wellFormed : WellFormed bytes value) : Standard input (some value, bytes.length)
  | error (part : List UInt8) {rest : List UInt8} {next : UInt8} (whole : input = part ++ next :: rest)
      (subpart : part.length = 1 ∨ Begins part) (stops : ¬ Begins (part ++ [next])) :
      Standard input (none, part.length)
  | single {byte : UInt8} {rest : List UInt8} (whole : input = byte :: rest) (wrong : ¬ Begins [byte]) :
      Standard input (none, 1)

theorem second_of_begins (low : 0xE0 ≤ a.toNat) (wrong : ¬ Second a b) :
    ¬ Begins (a :: b :: rest) := fun begins => wrong (begins.second low)

theorem standard_two (rest : List UInt8) (low : 0xC2 ≤ a.toNat) (high : a.toNat ≤ 0xDF) :
    Standard (a :: b :: rest) (decodeNonASCIISequence (a :: b :: rest) 2) := by
  rw [decodeNonASCIISequence_two rest low]
  split_ifs with second
  · exact .character [a, b] rfl (.two low high second)
  · refine .error [a] rfl (.inl rfl) ?_
    exact fun begins => second (begins.trail mem_cons_self)

theorem trail_least : Trail 0x80 := ⟨le_refl _, by decide⟩

theorem standard_third (rest : List UInt8) (begins : Begins [a, b]) (third : ¬ Trail c) :
    Standard (a :: b :: c :: rest) (none, 2) :=
  .error [a, b] rfl (.inr begins) fun begins => third (begins.trail (mem_cons_of_mem _ mem_cons_self))

theorem standard_three (rest : List UInt8) (low : 0xE0 ≤ a.toNat) (high : a.toNat ≤ 0xEF) :
    Standard (a :: b :: c :: rest) (decodeNonASCIISequence (a :: b :: c :: rest) 3) := by
  rw [decodeNonASCIISequence_three rest low high]
  split_ifs with second third
  · exact .character [a, b, c] rfl (.three low high second third)
  · exact standard_third rest ((WellFormed.three low high second trail_least).begins ⟨[0x80], rfl⟩) third
  · exact .error [a] rfl (.inl rfl) (second_of_begins low second)

theorem standard_four {d : UInt8} (rest : List UInt8) (low : 0xF0 ≤ a.toNat) (high : a.toNat ≤ 0xF4) :
    Standard (a :: b :: c :: d :: rest) (decodeNonASCIISequence (a :: b :: c :: d :: rest) 4) := by
  rw [decodeNonASCIISequence_four rest low]
  split_ifs with second third fourth
  · exact .character [a, b, c, d] rfl (.four low high second third fourth)
  · have begins : Begins [a, b, c] := (WellFormed.four low high second third trail_least).begins ⟨[0x80], rfl⟩
    refine .error [a, b, c] rfl (.inr begins) ?_
    exact fun begins => fourth (begins.trail (by simp))
  · exact standard_third (d :: rest)
      ((WellFormed.four low high second trail_least trail_least).begins ⟨[0x80, 0x80], rfl⟩) third
  · exact .error [a] rfl (.inl rfl) (second_of_begins (le_trans (by decide) low) second)

theorem nextItem_standard {found : Option Nat × Nat} (next : nextItem input = some found) : Standard input found := by
  cases input with
  | nil => cases next
  | cons first rest =>
    rcases nextItem_cases first rest with ⟨ascii, same⟩ | ⟨range, same⟩ | ⟨low, high, same⟩
    · rw [same] at next
      cases next
      exact .character [first] rfl (.one ascii)
    · rw [same] at next
      cases next
      refine .single rfl (fun begins => ?_)
      have lead := begins.lead
      omega
    · rw [same] at next
      have length := nonASCIISequenceLength_toNat first
      split at next
      · cases next
      · rename_i enough
        cases next
        split_ifs at length
        · omega
        · rw [length] at enough ⊢
          rcases rest with _ | ⟨b, rest⟩
          · exact absurd (lt_succ_self 1) enough
          · exact standard_two rest low (by omega)
        · rw [length] at enough ⊢
          rcases rest with _ | ⟨b, _ | ⟨c, rest⟩⟩
          · exact absurd (Nat.lt_add_of_pos_right Nat.two_pos) enough
          · exact absurd (lt_succ_self 2) enough
          · exact standard_three rest (by omega) (by omega)
        · rw [length] at enough ⊢
          rcases rest with _ | ⟨b, _ | ⟨c, _ | ⟨d, rest⟩⟩⟩
          · exact absurd (Nat.lt_add_of_pos_right (succ_pos 2)) enough
          · exact absurd (Nat.lt_add_of_pos_right Nat.two_pos) enough
          · exact absurd (lt_succ_self 3) enough
          · exact standard_four rest (by omega) high
        · omega

theorem unconvertible_of_nextItem (input : List UInt8) (next : ∀ value taken,
    nextItem input ≠ some (some value, taken)) (character : Char) : ¬ utf8EncodeChar character <+: input := by
  rintro ⟨rest, whole⟩
  exact next _ _ (whole ▸ nextItem_encode character rest)

theorem nextItem_firstPart {item : Option Nat} {taken : Nat} (next : nextItem input = some (item, taken)) :
    ∃ character, FirstPart input character (input.take taken) ∧ character.map Char.toNat = item := by
  have standard := nextItem_standard next
  have unconvertible (error : item = none) := unconvertible_of_nextItem input (fun value taken other => by
      rw [next, error] at other
      cases other)
  generalize same : (item, taken) = found at standard
  cases standard with
  | character bytes whole wellFormed =>
    cases same
    rcases wellFormed_encode wellFormed with ⟨character, encoded, value⟩
    refine ⟨some character, ?_, congrArg some value⟩
    rw [whole, take_left, ← encoded]
    exact .character (prefix_append _ _)
  | error part whole subpart stops =>
    cases same
    have nonempty : part ≠ [] := ne_nil_of_length_pos (nextItem_taken next).1
    refine ⟨none, ?_, rfl⟩
    rw [whole] at unconvertible ⊢
    rw [take_left]
    exact .illFormed (prefix_append _ _) nonempty (unconvertible rfl) subpart (maximal_of_stops stops)
  | single whole wrong =>
    cases same
    refine ⟨none, ?_, rfl⟩
    rw [whole] at unconvertible ⊢
    exact .illFormed ( take_prefix 1 _) (cons_ne_nil _ _) (unconvertible rfl) (.inl rfl) (maximal_of_wrong wrong)

theorem itemsOf_more (input : List UInt8) : nextItem (itemsOf false input).2 = none :=
  itemReader_waits.mp (Consumer.settle_waits [] input)

theorem decodes_items (input : List UInt8) {others : List (Option Char)}
    (tail : Decodes (itemsOf false input).2 others) :
    ∃ found, Decodes input (found ++ others) ∧ (itemsOf false input).1 = found.map (Option.map Char.toNat) := by
  induction input using nextItem_induction with
  | waits input next =>
    have settled : itemsOf false input = ([], input) := by
      cases input with
      | nil => exact itemsOf_nil false
      | cons first rest => exact itemsOf_incomplete (cons_ne_nil _ _) next false
    rw [settled] at tail ⊢
    exact ⟨[], tail, rfl⟩
  | finds input item taken next ih =>
    rw [itemsOf_item next] at tail ⊢
    rcases ih tail with ⟨found, decodes, same⟩
    rcases nextItem_firstPart next with ⟨character, first, value⟩
    refine ⟨character :: found, first.then ?_, ?_⟩
    · rw [length_take_of_le (nextItem_taken next).2]
      exact decodes
    · rw [same, map_cons, value]

theorem write_utf16 (character : Option Char) :
    (Width.utf16.write (character.map Char.toNat)).getD [] = utf16 character := by
  cases character with
  | none => rfl
  | some character =>
    show appendCharacter character.toNat = utf16 (some character)
    unfold appendCharacter utf16
    simp only
    by_cases small : character.toNat ≤ 0xFFFF
    · rw [if_pos small, if_pos (by omega)]
    · have lead : character.toNat / 2 ^ 10 + 0xD7C0 = 0xD800 + (character.toNat - 0x10000) / 0x400 := by omega
      have trail : character.toNat % 2 ^ 10 + 0xDC00 = 0xDC00 + (character.toNat - 0x10000) % 0x400 := by
        omega
      rw [if_neg small, if_neg (by omega), lead, trail]

theorem unitsOf_utf16 (found : List (Option Char)) :
    unitsOf (found.map (Option.map Char.toNat)) = found.flatMap utf16 := by
  rw [unitsOf, flatMap_map]
  simp only [write_utf16]

/-- A sequence that the input ends within begins an encoding. -/
def EndsCleanly (bytes : List UInt8) : Prop :=
  ∀ lead rest, lead :: rest <:+ bytes → rest.length + 1 < nonASCIISequenceLength lead → Begins (lead :: rest)

theorem not_waits {first : UInt8} {found : Option Nat × Nat}
    (next : nextItem (first :: rest) = some found) : ¬ rest.length + 1 < nonASCIISequenceLength first := by
  intro few
  have length := nonASCIISequenceLength_toNat first
  rcases nextItem_cases first rest with ⟨ascii, _⟩ | ⟨range, _⟩ | ⟨_, _, same⟩
  · rw [if_pos (by omega)] at length
    omega
  · split_ifs at length <;> omega
  · have few' : nonASCIISequenceLength first > (first :: rest).length := few
    rw [same, if_pos few'] at next
    cases next

theorem nonASCIISequenceLength_trail (trail : Trail byte) : nonASCIISequenceLength byte = 0 := by
  rw [nonASCIISequenceLength_toNat, if_pos]
  unfold Trail at trail
  omega

theorem endsCleanly_item {item : Option Nat} {taken : Nat} (next : nextItem input = some (item, taken)) :
    EndsCleanly input ↔ EndsCleanly (input.drop taken) := by
  constructor
  · intro clean lead rest ends
    exact clean lead rest (ends.trans (drop_suffix _ _))
  · intro clean lead rest ends few
    rcases suffix_or_suffix_of_suffix ends (drop_suffix taken input) with inside | beyond
    · exact clean lead rest inside few
    · rcases beyond with ⟨more, whole⟩
      cases more with
      | nil => exact clean lead rest (whole ▸ suffix_rfl) few
      | cons lead' more =>
        -- The sequence would begin within the item, where no byte is a lead but the first.
        have within : lead' :: more ++ input.drop taken <:+ input.take taken ++ input.drop taken := by
          rw [whole, take_append_drop]
          exact ends
        rcases within with ⟨before, same⟩
        have part := append_cancel_right (append_assoc _ _ _ ▸ same)
        cases before with
        | nil =>
          rw [nil_append] at part
          rw [part, take_append_drop] at whole
          rw [whole] at next
          exact absurd few (not_waits next)
        | cons byte before =>
          rcases nextItem_firstPart next with ⟨character, first, _⟩
          rw [← part] at first
          have none := nonASCIISequenceLength_trail (first.trail (mem_append_right _ mem_cons_self))
          rw [(cons.inj whole).1] at none
          omega

theorem endsCleanly_incomplete {first : UInt8} (waits : nextItem (first :: rest) = none) :
    EndsCleanly (first :: rest) ↔ Begins (first :: rest) := by
  constructor
  · intro clean
    exact clean first rest suffix_rfl (nextItem_eq_none.mp waits).2.2
  · intro begins lead others ends few
    rcases suffix_cons_iff.mp ends with same | inside
    · exact same ▸ begins
    · have none := nonASCIISequenceLength_trail (begins.trail (inside.subset mem_cons_self))
      omega

theorem endsCleanly_iff (input : List UInt8) :
    EndsCleanly input ↔ (itemsOf false input).2 = [] ∨ Begins (itemsOf false input).2 := by
  induction input using nextItem_induction with
  | waits input next =>
    cases input with
    | nil =>
      rw [itemsOf_nil]
      exact iff_of_true (fun _ _ ends => absurd (suffix_nil.mp ends) (cons_ne_nil _ _)) (.inl rfl)
    | cons first rest =>
      rw [itemsOf_incomplete (cons_ne_nil _ _) next, endsCleanly_incomplete next]
      simp
  | finds input item taken next ih =>
    rw [itemsOf_item next, endsCleanly_item next]
    exact ih

theorem decodes_incomplete (nonempty : input ≠ []) (waits : nextItem input = none) {items : List (Option Char)}
    (decodes : Decodes input items) : ∃ more, items = none :: more ∧ (more = [] ↔ Begins input) := by
  have unconvertible := unconvertible_of_nextItem input (fun value taken other => by
    rw [waits] at other
    cases other)
  cases decodes with
  | nil => exact absurd rfl nonempty
  | @cons part others item items first decodes =>
    cases first with
    | character starts => exact absurd starts (unconvertible _)
    | illFormed starts nonempty _ subpart maximal =>
      refine ⟨items, rfl, ?_, ?_⟩
      · intro none
        rw [none] at decodes
        rw [decodes.of_nil, append_nil] at waits ⊢
        rcases subpart with single | begins
        · rcases length_eq_one_iff.mp single with ⟨lead, rfl⟩
          rcases nextItem_cases lead [] with ⟨_, same⟩ | ⟨_, same⟩ | ⟨low, high, _⟩
          · rw [waits] at same
            cases same
          · rw [waits] at same
            cases same
          · exact begins_lead low high
        · exact begins
      · intro begins
        have size := maximal _ prefix_rfl begins
        rw [length_append] at size
        have ended : others = [] := length_eq_zero_iff.mp (by omega)
        rw [ended] at decodes
        exact decodes.unique .nil

theorem itemsOf_flush (input : List UInt8) : (itemsOf true input).1 =
      (itemsOf false input).1 ++ if (itemsOf false input).2 = [] then [] else [none] := by
  simp only [itemsOf, true_and, ite_not, Bool.false_eq_true, false_and, if_false]
  split
  · rw [append_nil]
  · rfl

theorem replacement_alone (more : List (Option Char)) : unitsOf [none] = (none :: more).flatMap utf16 ↔ more = [] := by
  constructor
  · intro same
    have lengths := congrArg length same
    cases more with
    | nil => rfl
    | cons item others =>
      have positive := utf16_length item
      simp only [flatMap_cons, length_append] at lengths
      change 1 = 1 + _ at lengths
      omega
  · rintro rfl
    rfl

theorem decodeLoop_whole (word : MachineWord) (endAddress : Nat) (bytes : List UInt8) :
    let wide := decodeLoop .utf16 word true false endAddress [] bytes
    wide.units = unitsOf (itemsOf true bytes).1 ∧ wide.sawError = decide (none ∈ (itemsOf true bytes).1) := by
  have ready : Ready .utf16 [] := trivial
  have keeps : loses [] bytes = false := by rw [loses]
  have follows := (decodeLoop_follows word true endAddress ready keeps).1
  rcases follows.settled (decodeLoop_settled ready (decodeLoop_wide _ _ _ _ _)) with ⟨text, _, saw⟩
  exact ⟨text, saw⟩

/-- The result is the standard one exactly if the input does not end within a sequence that is wrong before
    its end. -/
theorem decode_conforms (word : MachineWord) (endAddress : Nat) (bytes : List UInt8) :
    let decoded := ({} : TextCodecUTF8).decode word endAddress bytes true false false
    let wide := decodeLoop .utf16 word true false endAddress [] bytes
    ∃ standard, Decodes bytes standard ∧ (∀ other, Decodes bytes other → other = standard) ∧
      (decoded.result = standard.flatMap utf16 ↔ EndsCleanly bytes) ∧
      (decoded.sawError = true ↔ none ∈ standard) ∧
      wide.units = decoded.result ∧ wide.sawError = decoded.sawError := by
  have keeps : loses ({} : TextCodecUTF8).partialSequence bytes = false := by rw [loses]
  have start : nextItem ({} : TextCodecUTF8).partialSequence = none := rfl
  rcases decode_eq word endAddress start keeps true false with ⟨text, _, saw⟩
  rcases decodeLoop_whole word endAddress bytes with ⟨wideText, wideSaw⟩
  rcases decodes_exists (itemsOf false bytes).2 with ⟨others, tail⟩
  rcases decodes_items bytes tail with ⟨found, decodes, items⟩
  rw [nil_append] at text saw
  rw [Bool.false_or] at saw
  refine ⟨found ++ others, decodes, fun other also => also.unique decodes, ?_, ?_,
    wideText.trans text.symm, wideSaw.trans saw.symm⟩
  · rw [text, itemsOf_flush, items, unitsOf_append, unitsOf_utf16, flatMap_append,
      append_cancel_left_eq, endsCleanly_iff]
    by_cases ended : (itemsOf false bytes).2 = []
    · rw [ended] at tail
      rw [if_pos ended, tail.unique .nil]
      exact iff_of_true rfl (.inl ended)
    · rcases decodes_incomplete ended (itemsOf_more bytes) tail with ⟨more, rfl, only⟩
      rw [if_neg ended, or_iff_right ended, ← only]
      exact replacement_alone more
  · rw [saw, itemsOf_flush, items]
    by_cases ended : (itemsOf false bytes).2 = []
    · rw [ended] at tail
      rw [if_pos ended, tail.unique .nil]
      simp
    · rcases decodes_incomplete ended (itemsOf_more bytes) tail with ⟨more, rfl, _⟩
      rw [if_neg ended]
      simp

/-- The letter after the lead of a longer sequence is lost at the end of the input; the standard has it. -/
theorem decode_loses_last_letter :
    (({} : TextCodecUTF8).decode .bits64 2 [0xF0, 0x41] true false false).result = [0xFFFD] ∧
      Decodes [0xF0, 0x41] [none, some 'A'] ∧ [none, some 'A'].flatMap utf16 = [0xFFFD, 0x0041] := by
  have wrong : ¬ Begins ([0xF0] ++ [0x41]) := by
    intro begins
    have trail : Trail 0x41 := begins.trail mem_cons_self
    revert trail
    unfold Trail
    decide
  have lead : FirstPart ([0xF0] ++ [0x41]) none [0xF0] :=
    .illFormed ⟨[0x41], rfl⟩ (cons_ne_nil _ _) (unconvertible_of_nextItem _ (fun _ _ => nofun)) (.inl rfl)
      (maximal_of_stops wrong)
  have letter : FirstPart [0x41] (some 'A') [0x41] := .character prefix_rfl
  exact ⟨by decide +kernel, lead.then (letter.then .nil), by decide⟩

end Odyssey.Text
