import Odyssey.URLs.Addresses

namespace Odyssey.URLs

open List

theorem decimal_head (number : Nat) :
    ∃ first rest, decimal number = first :: rest ∧ isTabOrNewline first = false ∧ first ≠ '.'.toNat := by
  induction number using Nat.strongRecOn with
  | ind number ih =>
    rw [decimal]
    split
    · refine ⟨_, [], rfl, ?_⟩
      simp [isTabOrNewline]
      omega
    · rcases ih (number / 10) (by omega) with ⟨first, rest, begins, kept⟩
      exact ⟨first, rest ++ _, by rw [begins, cons_append], kept⟩

variable {digit value number : Nat} {violation : Bool} {rest : List Nat}

theorem parseIPv4PieceFrom_digit {state : IPv4PieceState} (small : digit < 10)
    (known : state = .UnknownBase ∧ digit ≠ 0 ∨ state = .Decimal) (fits : value * 10 + digit < 2^32) :
    parseIPv4PieceFrom state value violation (('0'.toNat + digit) :: rest) =
      parseIPv4PieceFrom .Decimal (value * 10 + digit) violation rest := by
  rw [parseIPv4PieceFrom]
  rcases known with ⟨rfl, first⟩ | rfl <;>
    simp [isTabOrNewline, digitIn, IPv4PieceState.base, IPv4PieceState.settled, *] <;> grind

/-- The digits of a number that does not begin with a zero are read in base ten. -/
theorem parseIPv4PieceFrom_decimal (filled : 0 < number) (fits : number < 2^32) (rest : List Nat) :
    parseIPv4PieceFrom .UnknownBase 0 violation (decimal number ++ rest) =
      parseIPv4PieceFrom .Decimal number violation rest := by
  induction number using Nat.strongRecOn generalizing rest with
  | ind number ih =>
    rw [decimal]
    split
    · rw [singleton_append, parseIPv4PieceFrom_digit ‹_› (.inl ⟨rfl, by omega⟩) (by omega), Nat.zero_mul, Nat.zero_add]
    · rw [append_assoc, ih (number / 10) (by omega) (by omega) (by omega), singleton_append,
        parseIPv4PieceFrom_digit (Nat.mod_lt _ (by decide)) (.inr rfl) (by omega), Nat.div_add_mod']

theorem parseIPv4Piece_decimal (fits : number < 2^32) (ends : rest = [] ∨ rest.head? = some '.'.toNat) :
    parseIPv4Piece violation (decimal number ++ rest) = (.ok number, rest, violation) := by
  have stops (state : IPv4PieceState) (value : Nat) :
      parseIPv4PieceFrom state value violation rest = (.ok value, rest, violation) := by
    cases rest with
    | nil => rfl
    | cons unit rest => simp_all [parseIPv4PieceFrom, isTabOrNewline]
  rcases decimal_head number with ⟨first, others, begins, _, apart⟩
  rw [parseIPv4Piece, begins, cons_append, if_neg (by simpa using apart), ← cons_append, ← begins]
  rcases Nat.eq_zero_or_pos number with rfl | filled
  · rw [decimal, if_pos (by decide), singleton_append, parseIPv4PieceFrom]
    simpa [isTabOrNewline] using stops .OctalOrHex 0
  · rw [parseIPv4PieceFrom_decimal filled fits, stops]

/-- A piece at the end, or one before another piece. -/
theorem parseIPv4Pieces_decimal (items : List IPv4Piece) (free : Nat) (fits : number < 2^32) :
    parseIPv4Pieces items violation false (free + 1) (decimal number) =
        ⟨some (items ++ [.ok number]), violation, false⟩ ∧
      ∀ next later, parseIPv4Pieces items violation false (free + 1)
          (decimal number ++ '.'.toNat :: (decimal next ++ later)) =
        parseIPv4Pieces (items ++ [.ok number]) violation false free (decimal next ++ later) := by
  rcases decimal_head number with ⟨first, others, begins, kept, _⟩
  constructor
  · have read := @parseIPv4Piece_decimal number violation [] fits (.inl rfl)
    rw [append_nil] at read
    rw [parseIPv4Pieces.eq_def]
    simp [begins, kept] at read ⊢
    simp [read]
  · intro next later
    have read := @parseIPv4Piece_decimal number violation ('.'.toNat :: (decimal next ++ later)) fits (.inr rfl)
    rcases decimal_head next with ⟨first', others', begins', _, apart⟩
    rw [parseIPv4Pieces.eq_def]
    simp [begins, begins', kept] at read apart ⊢
    simp [read, apart]

/-- Every address is read back from its text, which has no syntax violation. -/
theorem ipv4_round_trip (address : UInt32) :
    parseIPv4Host (serializeIPv4 address.toNat) = (.ok (address.toNat, false), false) := by
  have fits := address.toNat_lt
  generalize address.toNat = address at fits
  have pieces : parseIPv4Pieces [] false false 4 (serializeIPv4 address) = ⟨some [.ok (address / 2^24 % 256),
      .ok (address / 2^16 % 256), .ok (address / 2^8 % 256), .ok (address % 256)], false, false⟩ := by
    simp only [serializeIPv4, append_assoc, cons_append]
    rw [← append_nil (decimal (address % 256)), (parseIPv4Pieces_decimal _ _ (by omega)).2,
      (parseIPv4Pieces_decimal _ _ (by omega)).2, (parseIPv4Pieces_decimal _ _ (by omega)).2, append_nil,
      (parseIPv4Pieces_decimal _ _ (by omega)).1]
    rfl
  have begins : (serializeIPv4 address).head? ≠ some '.'.toNat := by
    rcases decimal_head (address / 2^24 % 256) with ⟨first, others, begins, _, apart⟩
    rw [serializeIPv4, begins]
    simpa using apart
  rw [parseIPv4Host, if_neg begins, pieces]
  have byte (number : Nat) : ¬ 255 < number % 256 := by omega
  have last : ¬ 256 ≤ address % 256 := by omega
  have whole : address % 256 + address / 16777216 % 256 * 16777216 + address / 65536 % 256 * 65536 +
      address / 256 % 256 * 256 = address := by omega
  simp [pieceValues, addressOf, Except.bind, Except.map, Except.toOption, byte, last, whole]

end Odyssey.URLs
