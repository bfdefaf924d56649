import Odyssey.Containers.ThreeWay
import Odyssey.IndexedDB.KeyData

namespace Odyssey.IndexedDB

open Containers

/-- The numbers of the enumerators are in reverse sort order. -/
inductive KeyType where
  | Max | Invalid | Array | Binary | String | Date | Number | Min
  deriving DecidableEq

def KeyType.toInt : KeyType → Int
  | .Max => -1
  | .Invalid => 0
  | .Array => 1
  | .Binary => 2
  | .String => 3
  | .Date => 4
  | .Number => 5
  | .Min => 6

/-- The order of the bit patterns of doubles that are not NaN; both zeros have the same rank. -/
def doubleRank (bits : UInt64) : Int :=
  if bits.toNat < 2^63 then bits.toNat else -((bits.toNat - 2^63 : Nat) : Int)

def isNaN (bits : UInt64) : Bool := bits.toNat % 2^63 > 0x7FF0000000000000

def doubleEqual (x y : UInt64) : Bool := !isNaN x && !isNaN y && doubleRank x = doubleRank y

def doubleLess (x y : UInt64) : Bool := !isNaN x && !isNaN y && doubleRank x < doubleRank y

/-- The first characters that differ decide, then the lengths. -/
def codePointCompareUnits : List UInt16 → List UInt16 → Int :=
  compareLists (fun x y => if x = y then 0 else if x > y then 1 else -1)

/-- A null string compares as the empty one. -/
def codePointCompare (string1 string2 : WTFString) : Int :=
  match string1, string2 with
  | none, none => 0
  | none, some units => if units.length ≠ 0 then -1 else 0
  | some units, none => if units.length ≠ 0 then 1 else 0
  | some units1, some units2 => codePointCompareUnits units1 units2

def compareBinaryBytes : List UInt8 → List UInt8 → Int :=
  compareLists (fun x y => if x > y then 1 else if x < y then -1 else 0)

/-- A null buffer comes before every other one. -/
def compareBinaryKeyData (a b : ThreadSafeDataBuffer) : Int :=
  match a, b with
  | none, none => 0
  | some _, none => 1
  | none, some _ => -1
  | some aData, some bData => compareBinaryBytes aData bData

/-- There is no result where the source reads the data of a null buffer. -/
def bufferEqual (a b : ThreadSafeDataBuffer) : Option Bool :=
  match a, b with
  | none, b => some b.isNone
  | some _, none => none
  | some aData, some bData => some (decide (aData = bData))

namespace IDBKeyData

def type : IDBKeyData → KeyType
  | .null | .invalid | .deletedValue => .Invalid
  | .minimum => .Min
  | .maximum => .Max
  | .number _ => .Number
  | .date _ => .Date
  | .string _ => .String
  | .binary _ => .Binary
  | .array _ => .Array

def isNull : IDBKeyData → Bool
  | .null => true
  | _ => false

def isDeletedValue : IDBKeyData → Bool
  | .deletedValue => true
  | _ => false

mutual

def isValid : IDBKeyData → Bool
  | .null | .invalid | .deletedValue => false
  | .array keys => validKeys keys
  | _ => true

def validKeys : List IDBKeyData → Bool
  | [] => true
  | key :: keys => key.isValid && validKeys keys

end

mutual

def hasNoNaN : IDBKeyData → Bool
  | .number bits | .date bits => !isNaN bits
  | .array keys => keysHaveNoNaN keys
  | _ => true

def keysHaveNoNaN : List IDBKeyData → Bool
  | [] => true
  | key :: keys => key.hasNoNaN && keysHaveNoNaN keys

end

mutual

def compare (key other : IDBKeyData) : Int :=
  if key.type = .Invalid then
    if other.type ≠ .Invalid then -1 else 0
  else if other.type = .Invalid then 1
  else if key.type ≠ other.type then
    if key.type.toInt < other.type.toInt then 1 else -1
  else
    match key, other with
    | .array keys, .array others => compareKeys keys others
    | .binary value, .binary otherValue => compareBinaryKeyData value otherValue
    | .string value, .string otherValue => codePointCompare value otherValue
    | .date value, .date otherValue | .number value, .number otherValue =>
      if doubleEqual value otherValue then 0
      else if doubleLess otherValue value then 1 else -1
    | _, _ => 0

def compareKeys : List IDBKeyData → List IDBKeyData → Int
  | [], [] => 0
  | [], _ :: _ => -1
  | _ :: _, [] => 1
  | key :: keys, other :: others =>
    if key.compare other ≠ 0 then key.compare other else compareKeys keys others

end

mutual

def equal (key other : IDBKeyData) : Option Bool :=
  if key.type ≠ other.type || key.isNull ≠ other.isNull || key.isDeletedValue ≠ other.isDeletedValue
  then some false
  else
    match key, other with
    | .number value, .number otherValue | .date value, .date otherValue =>
      some (doubleEqual value otherValue)
    | .string value, .string otherValue => some (decide (value = otherValue))
    | .binary value, .binary otherValue => bufferEqual value otherValue
    | .array keys, .array others =>
      if keys.length ≠ others.length then some false else equalKeys keys others
    | _, _ => some true

def equalKeys : List IDBKeyData → List IDBKeyData → Option Bool
  | key :: keys, other :: others => do
    if ← key.equal other then equalKeys keys others else return false
  | _, _ => some true

end

end IDBKeyData

structure MemoryHasher (Code : Type) where
  unsigned : UInt32 → Code
  double : UInt64 → Code
  string : List UInt16 → Code
  bytes : List UInt8 → Code
  codes : List Code → Code

namespace IDBKeyData

variable {Code : Type}

mutual

/-- There is no hash where the source follows the null pointer of a null string. -/
def hash (hasher : MemoryHasher Code) (key : IDBKeyData) : Option Code :=
  Option.map (fun payload => hasher.codes
      ([hasher.unsigned (UInt32.ofInt key.type.toInt), hasher.unsigned (if key.isNull then 1 else 0),
        hasher.unsigned (if key.isDeletedValue then 1 else 0)] ++ payload))
    (match key with
    | .number bits | .date bits => some [hasher.double bits]
    | .string value => value.map (fun units => [hasher.string units])
    | .binary none => some [hasher.unsigned 0]
    | .binary (some data) => some [hasher.bytes data]
    | .array keys => hashKeys hasher keys
    | .null | .invalid | .deletedValue | .minimum | .maximum => some [])

def hashKeys (hasher : MemoryHasher Code) : List IDBKeyData → Option (List Code)
  | [] => some []
  | key :: keys => do return (← key.hash hasher) :: (← hashKeys hasher keys)

end

end IDBKeyData

/-- Keys as the bindings have them; the pointers in an array are not null. -/
inductive IDBKey where
  | invalid
  | number (bits : UInt64)
  | date (bits : UInt64)
  | string (value : WTFString)
  | binary (value : ThreadSafeDataBuffer)
  | array (value : List IDBKey)

namespace IDBKey

def type : IDBKey → KeyType
  | .invalid => .Invalid
  | .number _ => .Number
  | .date _ => .Date
  | .string _ => .String
  | .binary _ => .Binary
  | .array _ => .Array

mutual

def compare (key other : IDBKey) : Int :=
  if key.type ≠ other.type then
    if key.type.toInt > other.type.toInt then -1 else 1
  else
    match key, other with
    | .array keys, .array others => compareKeys keys others
    | .binary value, .binary otherValue => compareBinaryKeyData value otherValue
    | .string value, .string otherValue => -codePointCompare otherValue value
    | .date value, .date otherValue | .number value, .number otherValue =>
      if doubleLess value otherValue then -1 else if doubleLess otherValue value then 1 else 0
    | _, _ => 0

def compareKeys : List IDBKey → List IDBKey → Int
  | [], [] => 0
  | [], _ :: _ => -1
  | _ :: _, [] => 1
  | key :: keys, other :: others =>
    if key.compare other ≠ 0 then key.compare other else compareKeys keys others

end

end IDBKey

mutual

/-- There is no key where the source answers null, or would put a null pointer in an array. -/
def IDBKeyData.maybeCreateIDBKey : IDBKeyData → Option IDBKey
  | .null | .minimum | .maximum => none
  | .invalid | .deletedValue => some .invalid
  | .number bits => some (.number bits)
  | .date bits => some (.date bits)
  | .string value => some (.string value)
  | .binary value => some (.binary value)
  | .array keys => (createIDBKeys keys).map .array

def createIDBKeys : List IDBKeyData → Option (List IDBKey)
  | [] => some []
  | key :: keys => do return (← key.maybeCreateIDBKey) :: (← createIDBKeys keys)

end

namespace StringHasher

def stringHashingStartValue : UInt32 := 0x9E3779B9

def calculateWithTwoCharacters (hash firstCharacter secondCharacter : UInt32) : UInt32 :=
  let result := hash + firstCharacter
  let result := (result <<< 16) ^^^ ((secondCharacter <<< 11) ^^^ result)
  result + (result >>> 11)

def calculateWithRemainingLastCharacter (hash character : UInt32) : UInt32 :=
  let result := hash + character
  let result := result ^^^ (result <<< 11)
  result + (result >>> 17)

def avalancheBits (hash : UInt32) : UInt32 :=
  let result := hash ^^^ (hash <<< 3)
  let result := result + (result >>> 5)
  let result := result ^^^ (result <<< 2)
  let result := result + (result >>> 15)
  result ^^^ (result <<< 10)

def avoidZero (hash : UInt32) : UInt32 := if hash ≠ 0 then hash else (0x80000000 : UInt32) >>> 8

def maskHash : UInt32 := ((1 : UInt32) <<< 24) - 1

def addCharacters : UInt32 → List UInt16 → UInt32
  | hash, first :: second :: characters =>
    addCharacters (calculateWithTwoCharacters hash first.toUInt32 second.toUInt32) characters
  | hash, [last] => calculateWithRemainingLastCharacter hash last.toUInt32
  | hash, [] => hash

def hash (characters : List UInt16) : UInt32 :=
  avoidZero (avalancheBits (addCharacters stringHashingStartValue characters))

def computeHashAndMaskTop8Bits (characters : List UInt16) : UInt32 :=
  avoidZero (avalancheBits (addCharacters stringHashingStartValue characters) &&& maskHash)

/-- Memory as characters on a little endian machine; the last byte is a `char`, which is signed. -/
def charactersOfBytes : List UInt8 → List UInt16
  | low :: high :: bytes => (low.toUInt16 + high.toUInt16 * 256) :: charactersOfBytes bytes
  | [last] => [if last < 128 then last.toUInt16 else last.toUInt16 + 0xFF00]
  | [] => []

def hashMemory (bytes : List UInt8) : UInt32 := hash (charactersOfBytes bytes)

end StringHasher

def littleEndianHasher : MemoryHasher UInt32 where
  unsigned code := code
  double bits := StringHasher.hash [bits.toUInt16, (bits >>> 16).toUInt16, (bits >>> 32).toUInt16,
    (bits >>> 48).toUInt16]
  string := StringHasher.computeHashAndMaskTop8Bits
  bytes := StringHasher.hashMemory
  codes codes := StringHasher.hash
    (codes.flatMap (fun (code : UInt32) => [code.toUInt16, (code >>> 16).toUInt16]))

end Odyssey.IndexedDB
