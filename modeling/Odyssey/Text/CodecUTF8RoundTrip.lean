import Odyssey.Text.CodecUTF8Chunks
import Odyssey.Text.CodecUTF8Conformance

namespace Odyssey.Text

open Systems TextCodecUTF8 UTF8 List
open String (utf8EncodeChar)

/-- Bytes are lost only behind an error: a sequence that waits is filled up to its own length. -/
theorem loses_of_no_error {partialSequence source : List UInt8} (waits : nextItem partialSequence = none)
    (clean : ∀ taken, nextItem (partialSequence ++ source) ≠ some (none, taken)) :
    loses partialSequence source = false := by
  cases partialSequence with
  | nil => rw [loses]
  | cons first rest =>
    rcases nextItem_eq_none.mp waits with ⟨lead, valid, short⟩
    have filled : (first :: rest ++ source.take (missing (first :: rest))).length ≤ nonASCIISequenceLength first := by
      simp only [missing, headD_cons, length_append, length_take]
      omega
    have kept : losesFirst first rest source = false := by
      simp only [losesFirst, drop_eq_nil_of_le filled, Nat.sub_eq_zero_of_le filled, take_zero]
      simp
    rw [loses_cons, kept, Bool.false_or, handleFirst]
    simp only [lead, valid, Bool.false_eq_true, if_false]
    by_cases enough : missing (first :: rest) > source.length
    · simp [enough]
    · have item := (filled_item (by simp [lead]) valid enough rfl).1
      rw [if_neg enough]
      rcases decoded : decodeNonASCIISequence (first :: rest ++ source.take (missing (first :: rest)))
        (nonASCIISequenceLength first) with ⟨character, length⟩
      rw [decoded] at item
      cases character with
      | none => exact absurd item (clean length)
      | some character =>
        simp only [Width.write, Nat.sub_eq_zero_of_le filled, take_zero]
        rw [loses]

/-- Text without errors loses nothing, wherever it is cut. -/
theorem keeps_of_no_error (word : MachineWord) (chunks : List (Nat × List UInt8)) {current : Transcript}
    {bytes : List UInt8} (waits : nextItem current.codec.partialSequence = none) (reads : Reads false bytes current)
    (clean : none ∉ (itemsOf true (bytes ++ chunks.flatMap (·.2))).1) :
    StepsMeet (fun current chunk => some (Transcript.call word false current chunk))
      (fun current chunk => loses current.codec.partialSequence chunk.2 = false) current chunks := by
  induction chunks generalizing current bytes with
  | nil => trivial
  | cons chunk chunks ih =>
    have keeps : loses current.codec.partialSequence chunk.2 = false := by
      apply loses_of_no_error waits
      intro taken found
      have error := itemsOf_item (nextItem_append found (chunks.flatMap (·.2))) true
      rw [reads.kept, append_assoc] at error
      rw [itemsOf_append, flatMap_cons, error] at clean
      simp at clean
    refine ⟨keeps, ?_⟩
    rintro _ ⟨⟩
    apply ih (Transcript.call_waits word waits false chunk) (reads.call word waits chunk keeps false)
    rwa [append_assoc, ← flatMap_cons]

theorem itemsOf_encoded (text : List Char) :
    itemsOf true (text.flatMap utf8EncodeChar) = ((text.map some).map (Option.map Char.toNat), []) := by
  induction text with
  | nil => exact itemsOf_nil true
  | cons character text ih =>
    rw [flatMap_cons, itemsOf_item (nextItem_encode character _), drop_left, ih]
    rfl

/-- Whatever text is encoded and wherever its bytes are cut into packets, the codec gives the text back,
    reports no error and keeps nothing. -/
theorem decode_encoded_text (word : MachineWord) (text : List Char) (front : List (Nat × List UInt8))
    (last : Nat × List UInt8) (cut : (front ++ [last]).flatMap (·.2) = text.flatMap utf8EncodeChar) :
    let final := (front.foldl (Transcript.call word false) {}).call word true last
    final.units = text.flatMap (utf16 ∘ some) ∧ final.sawError = false ∧ final.codec.partialSequence = [] := by
  have items := itemsOf_encoded text
  rw [← cut] at items
  have clean : none ∉ (itemsOf true ([] ++ (front ++ [last]).flatMap (·.2))).1 := by
    rw [nil_append, items]
    simp
  have read := calls_read word rfl Reads.start front last (keeps_of_no_error word _ rfl Reads.start clean)
  refine ⟨?_, ?_, ?_⟩
  · rw [read.units, nil_append, items, unitsOf_utf16, flatMap_map]
    rfl
  · rw [read.sawError]
    exact decide_eq_false clean
  · rw [read.kept, nil_append, items]

theorem decode_encoded_letters :
    let final := ((([(1, [0x41]), (1, [0xC3])] : List (Nat × List UInt8)).foldl (Transcript.call .bits64 false) {}).call
      .bits64 true (1, [0xA9]))
    final.units = ['A', 'é'].flatMap (utf16 ∘ some) ∧ final.sawError = false :=
  have read := decode_encoded_text .bits64 ['A', 'é'] [(1, [0x41]), (1, [0xC3])] (1, [0xA9]) (by decide +kernel)
  ⟨read.1, read.2.1⟩

end Odyssey.Text
