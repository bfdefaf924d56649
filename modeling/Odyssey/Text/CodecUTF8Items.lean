import Odyssey.Systems.Chunks
import Odyssey.Text.CodecUTF8

namespace Odyssey.Text

open Systems List Nat Consumer

theorem nonASCIISequenceLength_cases (firstByte : UInt8) :
    nonASCIISequenceLength firstByte = 0 ∨ nonASCIISequenceLength firstByte = 2 ∨
      nonASCIISequenceLength firstByte = 3 ∨ nonASCIISequenceLength firstByte = 4 := by
  unfold nonASCIISequenceLength
  repeat' split
  all_goals simp

theorem decodeNonASCIISequence_taken (sequence : List UInt8) {length : Nat}
    (known : length = 2 ∨ length = 3 ∨ length = 4) :
    (decodeNonASCIISequence sequence length).2 ≤ length ∧ ((decodeNonASCIISequence sequence length).1 ≠ none →
        (decodeNonASCIISequence sequence length).2 = length) := by
  unfold decodeNonASCIISequence
  all_goals
    simp only
    repeat' split
    all_goals simp_all

theorem decodeNonASCIISequence_append (sequence more : List UInt8) {length : Nat}
    (known : length = 2 ∨ length = 3 ∨ length = 4) (enough : length ≤ sequence.length) :
    decodeNonASCIISequence (sequence ++ more) length = decodeNonASCIISequence sequence length := by
  have same (i : Nat) (inside : i < length) : (sequence ++ more).getD i 0 = sequence.getD i 0 := by
    rw [getD_eq_getElem?_getD, getD_eq_getElem?_getD, getElem?_append_left (Nat.lt_of_lt_of_le inside enough)]
  unfold decodeNonASCIISequence
  rcases known with rfl | rfl | rfl
  · simp only [same 0 (by decide), same 1 (by decide), if_true]
  · simp only [same 0 (by decide), same 1 (by decide), same 2 (by decide), if_true]
  · simp only [same 0 (by decide), same 1 (by decide), same 2 (by decide), same 3 (by decide)]

/-- A character or an error, and the number of bytes it takes; none if the sequence is not complete. -/
def nextItem : List UInt8 → Option (Option Nat × Nat)
  | [] => none
  | first :: rest =>
    if isASCII first then some (some first.toNat, 1)
    else
      let count := nonASCIISequenceLength first
      if count = 0 then some (none, 1)
      else if count > (first :: rest).length then none
      else some (decodeNonASCIISequence (first :: rest) count)

theorem nextItem_eq_none {first : UInt8} {rest : List UInt8} :
    nextItem (first :: rest) = none ↔ isASCII first = false ∧ nonASCIISequenceLength first ≠ 0 ∧
      (first :: rest).length < nonASCIISequenceLength first := by
  rw [nextItem]
  by_cases ascii : isASCII first = true
  · simp [ascii]
  · simp only
    split_ifs <;> simp_all

theorem missing_gt_iff {first : UInt8} {rest source : List UInt8} :
    TextCodecUTF8.missing (first :: rest) > source.length ↔
      (first :: rest ++ source).length < nonASCIISequenceLength first := by
  show nonASCIISequenceLength first - (first :: rest).length > source.length ↔ _
  rw [length_append]
  omega

variable {input : List UInt8} {item : Option Nat} {taken : Nat}

theorem nextItem_taken (found : nextItem input = some (item, taken)) : 0 < taken ∧ taken ≤ input.length := by
  cases input with
  | nil => cases found
  | cons first rest =>
    rw [nextItem] at found
    split at found
    · cases found
      exact ⟨Nat.one_pos, succ_le_succ (zero_le _)⟩
    · simp only at found
      split at found
      · cases found
        exact ⟨Nat.one_pos, succ_le_succ (zero_le _)⟩
      · rename_i counts
        split at found
        · cases found
        · rename_i enough
          have known := (nonASCIISequenceLength_cases first).resolve_left counts
          have positive := TextCodecUTF8.decodeNonASCIISequence_length (first :: rest) (nonASCIISequenceLength first)
          have bounded := (decodeNonASCIISequence_taken (first :: rest) known).1
          rw [Option.some.inj found] at positive bounded
          exact ⟨positive, Nat.le_trans bounded (Nat.le_of_not_lt enough)⟩

theorem nextItem_append (found : nextItem input = some (item, taken)) (more : List UInt8) :
    nextItem (input ++ more) = some (item, taken) := by
  cases input with
  | nil => cases found
  | cons first rest =>
    rw [cons_append, nextItem]
    rw [nextItem] at found
    simp only at found ⊢
    split at found
    · rw [if_pos ‹_›]
      exact found
    · rw [if_neg ‹_›]
      split at found
      · rw [if_pos ‹_›]
        exact found
      · rename_i counts
        rw [if_neg counts]
        split at found
        · cases found
        · rename_i enough
          have known := (nonASCIISequenceLength_cases first).resolve_left counts
          have still : ¬ nonASCIISequenceLength first > (first :: (rest ++ more)).length := by
            simp only [length_cons, length_append] at enough ⊢
            omega
          rw [if_neg still, ← cons_append, decodeNonASCIISequence_append _ _ known (Nat.le_of_not_lt enough)]
          exact found

def itemReader : Consumer (List (Option Nat)) UInt8 where
  step items input := (nextItem input).map (fun found => (items ++ [found.1], input.drop found.2))
  shorter {items next input rest} stepped := by
    rcases Option.map_eq_some_iff.mp stepped with ⟨⟨item, taken⟩, found, same⟩
    cases same
    have bounds := nextItem_taken found
    rw [List.length_drop]
    omega
  stable {items next input rest} more stepped := by
    rcases Option.map_eq_some_iff.mp stepped with ⟨⟨item, taken⟩, found, same⟩
    cases same
    rw [nextItem_append found more, Option.map_some, List.drop_append_of_le_length (nextItem_taken found).2]

/-- Induction on the items that an input begins with. -/
theorem nextItem_induction {motive : List UInt8 → Prop} (waits : ∀ input, nextItem input = none → motive input)
    (finds : ∀ input item taken, nextItem input = some (item, taken) → motive (input.drop taken) → motive input)
    (input : List UInt8) : motive input := by
  induction size : input.length using Nat.strongRecOn generalizing input with
  | _ length ih =>
    cases found : nextItem input with
    | none => exact waits input found
    | some result =>
      have bounds := nextItem_taken found
      refine finds input result.1 result.2 found (ih _ ?_ _ rfl)
      rw [length_drop]
      omega

theorem itemReader_waits {items : List (Option Nat)} :
    itemReader.step items input = none ↔ nextItem input = none := Option.map_eq_none_iff

theorem itemReader_steps (found : nextItem input = some (item, taken)) (items : List (Option Nat)) :
    itemReader.step items input = some (items ++ [item], input.drop taken) := by
  show (nextItem input).map _ = _
  rw [found]
  rfl

theorem settle_items (items : List (Option Nat)) (input : List UInt8) : itemReader.settle items input =
      (items ++ (itemReader.settle [] input).1, (itemReader.settle [] input).2) := by
  induction input using nextItem_induction generalizing items with
  | waits input found =>
    rw [settle_of_none (itemReader_waits.mpr found), settle_of_none (itemReader_waits.mpr found), append_nil]
  | finds input item taken found ih =>
    rw [settle_of_some (itemReader_steps found items),
      settle_of_some (itemReader_steps found []), ih, ih ([] ++ [item]), append_assoc]
    rfl

/-- What a call should find in its input, with what was left before: an incomplete sequence is kept, or is an
    error when nothing follows. -/
def itemsOf (flush : Bool) (input : List UInt8) : List (Option Nat) × List UInt8 :=
  let settled := itemReader.settle [] input
  if flush = true ∧ settled.2 ≠ [] then (settled.1 ++ [none], []) else settled

theorem itemsOf_nil (flush : Bool) : itemsOf flush [] = ([], []) := by
  have settled : itemReader.settle [] [] = ([], []) := settle_of_none rfl
  simp [itemsOf, settled]

theorem itemsOf_item (found : nextItem input = some (item, taken)) (flush : Bool) : itemsOf flush input =
      (item :: (itemsOf flush (input.drop taken)).1, (itemsOf flush (input.drop taken)).2) := by
  have settled : itemReader.settle [] input = (item :: (itemReader.settle [] (input.drop taken)).1,
      (itemReader.settle [] (input.drop taken)).2) := by
    rw [settle_of_some (itemReader_steps found []), settle_items]
    rfl
  simp only [itemsOf, settled]
  split <;> rfl

theorem itemsOf_incomplete (nonempty : input ≠ []) (waits : nextItem input = none) (flush : Bool) :
    itemsOf flush input = if flush then ([none], []) else ([], input) := by
  have settled : itemReader.settle [] input = ([], input) := settle_of_none (itemReader_waits.mpr waits)
  simp [itemsOf, settled, nonempty]

def unitsOf (items : List (Option Nat)) : List UInt16 :=
  items.flatMap (fun item => (Width.utf16.write item).getD [])

theorem unitsOf_cons (item : Option Nat) (items : List (Option Nat)) :
    unitsOf (item :: items) = (Width.utf16.write item).getD [] ++ unitsOf items := flatMap_cons

theorem unitsOf_append (items more : List (Option Nat)) :
    unitsOf (items ++ more) = unitsOf items ++ unitsOf more := flatMap_append

theorem write_eq {width : Width} {units : List UInt16} (written : width.write item = some units) :
    (Width.utf16.write item).getD [] = units := by
  cases width with
  | utf16 =>
    rw [written]
    rfl
  | latin1 =>
    cases item with
    | none => cases written
    | some character =>
      rw [Width.write] at written
      split at written
      · cases written
      · cases written
        show appendCharacter character = _
        rw [appendCharacter, if_pos (by omega)]

theorem write_ascii {byte : UInt8} : (Width.utf16.write (some byte.toNat)).getD [] = [byte.toUInt16] := by
  show appendCharacter byte.toNat = _
  have small := byte.toNat_lt
  rw [appendCharacter, if_pos (by omega), UInt16.ofNat_uInt8ToNat]

end Odyssey.Text
