import Odyssey.URLs.Characters

namespace Odyssey.URLs

/-- `appendNumberToASCIIBuffer`. -/
def decimal (number : Nat) : List Nat :=
  if number < 10 then ['0'.toNat + number] else decimal (number / 10) ++ ['0'.toNat + number % 10]

inductive IPv4PieceParsingError where
  | Failure
  | Overflow
  deriving DecidableEq, Repr

inductive IPv4ParsingError where
  | Failure
  | NotIPv4
  deriving DecidableEq, Repr

inductive IPv4PieceState where
  | UnknownBase
  | Decimal
  | OctalOrHex
  | Octal
  | Hex
  deriving DecidableEq, Repr

namespace IPv4PieceState

/-- The base in which a digit is read; an unknown one is settled by it. -/
def base : IPv4PieceState → Nat
  | UnknownBase | Decimal => 10
  | OctalOrHex | Octal => 8
  | Hex => 16

def settled : IPv4PieceState → IPv4PieceState
  | UnknownBase | Decimal => Decimal
  | OctalOrHex | Octal => Octal
  | Hex => Hex

end IPv4PieceState

def digitIn (base unit : Nat) : Option Nat :=
  if base = 16 then if isASCIIHexDigit unit then some (toASCIIHexValue unit) else none
  else if '0'.toNat ≤ unit ∧ unit < '0'.toNat + base then some (unit - '0'.toNat) else none

abbrev IPv4Piece := Except IPv4PieceParsingError Nat

/-- A piece up to a dot or to what is not part of it, and whether there was a syntax violation. -/
def parseIPv4PieceFrom (state : IPv4PieceState) (value : Nat) (violation : Bool) :
    List Nat → IPv4Piece × List Nat × Bool
  | [] => (.ok value, [], violation)
  | unit :: rest =>
    if isTabOrNewline unit then parseIPv4PieceFrom state value true rest
    else if unit = '.'.toNat then (.ok value, unit :: rest, violation)
    else if state = .UnknownBase ∧ unit = '0'.toNat then parseIPv4PieceFrom .OctalOrHex value violation rest
    else if state = .OctalOrHex ∧ (unit = 'x'.toNat ∨ unit = 'X'.toNat) then
      parseIPv4PieceFrom .Hex value true rest
    else
      let violation := violation || state = .OctalOrHex
      match digitIn state.base unit with
      | none => (.error .Failure, unit :: rest, violation)
      | some digit =>
        if value * state.base + digit ≥ 2^32 then (.error .Overflow, unit :: rest, violation)
        else parseIPv4PieceFrom state.settled (value * state.base + digit) violation rest

def parseIPv4Piece (violation : Bool) (units : List Nat) : IPv4Piece × List Nat × Bool :=
  if units.head? = some '.'.toNat then (.error .Failure, units, violation)
  else parseIPv4PieceFrom .UnknownBase 0 violation units

structure IPv4Pieces where
  items : Option (List IPv4Piece)
  violation : Bool
  endsWithDot : Bool

def parseIPv4Pieces (items : List IPv4Piece) (violation endsWithDot : Bool) : Nat → List Nat → IPv4Pieces
  | free, units =>
    let violation := violation || units.head?.any isTabOrNewline
    match free, units.dropWhile isTabOrNewline with
    | _, [] => ⟨some items, violation, endsWithDot⟩
    | 0, _ => ⟨none, violation, endsWithDot⟩
    | free + 1, units =>
      let (item, rest, violation) := parseIPv4Piece violation units
      match rest with
      | [] => ⟨some (items ++ [item]), violation, endsWithDot⟩
      | unit :: after =>
        if unit ≠ '.'.toNat then parseIPv4Pieces (items ++ [item]) violation endsWithDot free (unit :: after)
        else if after.head? = some '.'.toNat then ⟨none, violation, endsWithDot⟩
        else parseIPv4Pieces (items ++ [item]) violation (endsWithDot || after.isEmpty) free after

def pieceValues (items : List IPv4Piece) : Except IPv4ParsingError (List Nat) :=
  if items.any (· matches .error .Failure) then .error .NotIPv4
  else if items.any (· matches .error .Overflow) then .error .Failure
  else .ok (items.filterMap (·.toOption))

def addressOf (values : List Nat) : Except IPv4ParsingError (Nat × Bool) :=
  match values.getLast? with
  | none => .error .NotIPv4
  | some last =>
    if values.dropLast.any (· > 255) then .error .Failure
    else if last ≥ 256^(5 - values.length) then .error .Failure
    else
      let address := (values.dropLast.zipIdx).foldl (fun sum item => sum + item.1 * 256^(3 - item.2)) last
      .ok (address, values.any (· > 255) || values.length ≠ 4)

/-- The address, the syntax violation of a text that is one, and a dot at the end of any text. -/
def parseIPv4Host (units : List Nat) : Except IPv4ParsingError (Nat × Bool) × Bool :=
  if units.head? = some '.'.toNat then (.error .NotIPv4, false)
  else
    let pieces := parseIPv4Pieces [] false false 4 units
    match pieces.items with
    | none => (.error .NotIPv4, pieces.endsWithDot)
    | some items =>
      (((pieceValues items).bind addressOf).map (fun found => (found.1, found.2 || pieces.violation)),
        pieces.endsWithDot)

def serializeIPv4 (address : Nat) : List Nat :=
  decimal (address / 2^24 % 256) ++ '.'.toNat :: decimal (address / 2^16 % 256) ++
    '.'.toNat :: decimal (address / 2^8 % 256) ++ '.'.toNat :: decimal (address % 256)

end Odyssey.URLs
