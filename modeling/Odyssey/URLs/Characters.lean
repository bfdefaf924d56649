import Mathlib.Algebra.Group.Nat.Defs
import Mathlib.Data.List.Basic

namespace Odyssey.URLs

open List

def text (literal : String) : List Nat := literal.toList.map Char.toNat

variable (character : Nat)

def isASCIIUpper : Bool := 'A'.toNat ≤ character && character ≤ 'Z'.toNat

def isASCIILower : Bool := 'a'.toNat ≤ character && character ≤ 'z'.toNat

def isASCIIAlpha : Bool := isASCIIUpper character || isASCIILower character

def isASCIIDigit : Bool := '0'.toNat ≤ character && character ≤ '9'.toNat

def isASCIIHexDigit : Bool :=
  isASCIIDigit character || ('a'.toNat ≤ character && character ≤ 'f'.toNat) ||
    ('A'.toNat ≤ character && character ≤ 'F'.toNat)

def toASCIILower : Nat := if isASCIIUpper character then character + 0x20 else character

def toASCIILowerUnchecked : Nat := character ||| 0x20

def toASCIIHexValue : Nat :=
  if character < 'A'.toNat then character - '0'.toNat else (character - 'A'.toNat + 10) % 16

def asciiHexDigit (nibble : Nat) : Nat := nibble + if nibble < 10 then '0'.toNat else 'A'.toNat - 10

def isTabOrNewline : Bool :=
  character ≤ 0xD && character ≥ 0x9 && character != 0xB && character != 0xC

def isLeadSurrogate (unit : Nat) : Bool := 0xD800 ≤ unit && unit ≤ 0xDBFF

def isTrailSurrogate (unit : Nat) : Bool := 0xDC00 ≤ unit && unit ≤ 0xDFFF

/-- `U8_APPEND_UNSAFE`. -/
def utf8Bytes (codePoint : Nat) : List Nat :=
  if codePoint ≤ 0x7F then [codePoint]
  else if codePoint ≤ 0x7FF then [0xC0 + codePoint / 0x40, 0x80 + codePoint % 0x40]
  else if codePoint ≤ 0xFFFF then
    [0xE0 + codePoint / 0x1000, 0x80 + codePoint / 0x40 % 0x40, 0x80 + codePoint % 0x40]
  else
    [0xF0 + codePoint / 0x40000, 0x80 + codePoint / 0x1000 % 0x40, 0x80 + codePoint / 0x40 % 0x40,
      0x80 + codePoint % 0x40]

def percentEncoded (byte : Nat) : List Nat := ['%'.toNat, asciiHexDigit (byte / 16), asciiHexDigit (byte % 16)]

/-- A name that begins with a w and has neither two nor three letters is given the port 0. -/
def defaultPortForProtocol (name : List Nat) : Option Nat :=
  if name = text "ws" then some 80
  else if name = text "wss" then some 443
  else if name = text "http" then some 80
  else if name = text "https" then some 443
  else if name = text "gopher" then some 70
  else if name = text "ftp" then some 21
  else if name.head? = some 'w'.toNat ∧ name.length ≠ 2 ∧ name.length ≠ 3 then some 0
  else none

end Odyssey.URLs
