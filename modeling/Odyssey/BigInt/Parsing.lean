import Odyssey.BigInt.Shifts

namespace Odyssey.BigInt

open Arithmetic

inductive ErrorParseMode where
  | ThrowExceptions
  | IgnoreExceptions
  deriving DecidableEq, Repr

inductive ParseIntMode where
  | DisallowEmptyString
  | AllowEmptyString
  deriving DecidableEq, Repr

inductive ParseIntSign where
  | Unsigned
  | Signed
  deriving DecidableEq, Repr

abbrev UChar := BitVec 16

/-- The largest number of bits for a character of each radix, times 32. -/
def maxBitsPerCharTable : List Nat :=
  [0, 0, 32, 51, 64, 75, 83, 90, 96,
   102, 107, 111, 115, 119, 122, 126, 128,
   131, 134, 136, 139, 141, 143, 145, 147,
   149, 151, 153, 154, 156, 158, 159, 160,
   162, 163, 165, 166]

def bitsPerCharTableShift : Nat := 5

def bitsPerCharTableMultiplier : Nat := 1 <<< bitsPerCharTableShift

section Characters

-- whether `u_charType` of a character is `U_SPACE_SEPARATOR`
variable (isSpaceSeparator : UChar → Bool)

def isWhiteSpace (ch : UChar) : Bool :=
  if ch.toNat < 256 then ch = 0x20 || ch = 0x09 || ch = 0xB || ch = 0xC || ch = 0xA0
  else isSpaceSeparator ch || ch = 0xFEFF

def isLineTerminator (ch : UChar) : Bool := ch = 0x0D || ch = 0x0A || ch &&& ~~~1 = 0x2028

def isStrWhiteSpace (ch : UChar) : Bool := isWhiteSpace isSpaceSeparator ch || isLineTerminator ch

end Characters

def isASCIIAlphaCaselessEqual (inputCharacter expectedASCIILowercaseLetter : UChar) : Bool :=
  inputCharacter ||| 0x20 = expectedASCIILowercaseLetter

def digitValue (radix : Nat) (ch : UChar) : Option Nat :=
  let limit0 := 0x30 + if radix < 10 then radix else 10
  let limita := 0x61 + radix - 10
  let limitA := 0x41 + radix - 10
  if ch.toNat ≥ 0x30 ∧ ch.toNat < limit0 then some (ch.toNat - 0x30)
  else if ch.toNat ≥ 0x61 ∧ ch.toNat < limita then some (ch.toNat - 0x61 + 10)
  else if ch.toNat ≥ 0x41 ∧ ch.toNat < limitA then some (ch.toNat - 0x41 + 10)
  else none

section Digits

variable (build : Build)

def inplaceMultiplyAdd (digits : List (Digit build)) (factor summand : Digit build) : List (Digit build) :=
  internalMultiplyAdd build digits factor summand digits.length digits.length

/-- The loop over the characters; there is no result if one of them is no digit. -/
def parseDigits (radix : Nat) : List UChar → List (Digit build) → Option (List (Digit build))
  | [], digits => some digits
  | ch :: data, digits =>
    match digitValue radix ch with
    | some digit =>
      parseDigits radix data (inplaceMultiplyAdd build digits (BitVec.ofNat _ radix) (BitVec.ofNat _ digit))
    | none => none

def allocateFor (radix charcount : Nat) : Except BigIntError Nat :=
  let bitsPerChar := maxBitsPerCharTable.getD radix 0
  let roundup := bitsPerCharTableMultiplier - 1
  if charcount ≤ (2^build.digitBits - 1 - roundup) / bitsPerChar then
    let bitsMin := (bitsPerChar * charcount + roundup) >>> bitsPerCharTableShift
    if bitsMin ≤ Build.maxInt then
      let length := (bitsMin + build.digitBits - 1) / build.digitBits
      if length ≤ build.maxLength then .ok length else .error .OutOfMemoryError
    else .error .OutOfMemoryError
  else .error .OutOfMemoryError

end Digits

namespace JSBigInt

variable {build : Build} (isSpaceSeparator : UChar → Bool)

/-- No number: an exception, or none if exceptions are ignored. -/
def parseFailure (errorParseMode : ErrorParseMode) : Except BigIntError (Option (JSBigInt build)) :=
  if errorParseMode = .ThrowExceptions then .error (.SyntaxError "Failed to parse String to BigInt") else .ok none

def parseIntFrom (data : List UChar) (startIndex radix : Nat) (errorParseMode : ErrorParseMode) (sign : ParseIntSign)
    (parseMode : ParseIntMode) : Except BigIntError (Option (JSBigInt build)) :=
  if parseMode ≠ .AllowEmptyString ∧ startIndex = data.length then parseFailure errorParseMode
  else
    let rest := (data.drop startIndex).dropWhile (· = 0x30)
    let characters := rest.rdropWhile (isStrWhiteSpace isSpaceSeparator ·)
    if characters = [] then .ok (some createZero)
    else do
      let length ← allocateFor build radix characters.length
      match parseDigits build radix characters (List.replicate length 0) with
      | some digits => .ok (some (JSBigInt.mk digits (sign = .Signed)).rightTrim)
      | none => parseFailure errorParseMode

def parseInt (data : List UChar) (errorParseMode : ErrorParseMode) : Except BigIntError (Option (JSBigInt build)) :=
  let p := (data.takeWhile (isStrWhiteSpace isSpaceSeparator ·)).length
  let radixOf := if p + 1 < data.length ∧ data.getD p 0 = 0x30 then
    if isASCIIAlphaCaselessEqual (data.getD (p + 1) 0) 0x62 then some 2
    else if isASCIIAlphaCaselessEqual (data.getD (p + 1) 0) 0x78 then some 16
    else if isASCIIAlphaCaselessEqual (data.getD (p + 1) 0) 0x6F then some 8
    else none
  else none
  match radixOf with
  | some radix => parseIntFrom isSpaceSeparator data (p + 2) radix errorParseMode .Unsigned .DisallowEmptyString
  | none => do
    let sign := if p < data.length ∧ data.getD p 0 = 0x2D then .Signed else .Unsigned
    let p := if p < data.length ∧ (data.getD p 0 = 0x2B ∨ data.getD p 0 = 0x2D) then p + 1 else p
    let result ← parseIntFrom isSpaceSeparator data p 10 errorParseMode sign .AllowEmptyString
    pure (result.map (fun result => if result.isZero then result else result.setSign (sign = .Signed)))

def parseIntRadix (data : List UChar) (radix : Nat) (errorParseMode : ErrorParseMode) (sign : ParseIntSign) :
    Except BigIntError (Option (JSBigInt build)) :=
  parseIntFrom isSpaceSeparator data 0 radix errorParseMode sign .DisallowEmptyString

end JSBigInt

end Odyssey.BigInt
