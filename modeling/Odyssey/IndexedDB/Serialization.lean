import Odyssey.Bytes.LittleEndian
import Odyssey.IndexedDB.KeyData

namespace Odyssey.IndexedDB

open Bytes

inductive SIDBKeyType where
  | min | number | date | string | binary | array | max

def SIDBKeyType.byte : SIDBKeyType → UInt8
  | .min => 0x00
  | .number => 0x20
  | .date => 0x40
  | .string => 0x60
  | .binary => 0x80
  | .array => 0xA0
  | .max => 0xFF

def SIDBKeyType.ofByte (byte : UInt8) : Option SIDBKeyType :=
  if byte = 0x00 then some .min
  else if byte = 0x20 then some .number
  else if byte = 0x40 then some .date
  else if byte = 0x60 then some .string
  else if byte = 0x80 then some .binary
  else if byte = 0xA0 then some .array
  else if byte = 0xFF then some .max
  else none

def SIDBKeyVersion : UInt8 := 0x00

/-- How the platform decides that stored bytes are an old-style key: the first byte of a property
    list, the normal form of a GVariant dictionary, or never. -/
inductive LegacyFormat where
  | cf
  | glib (isNormalForm : List UInt8 → Bool)
  | none

/-- `bytewise` is set for big-endian, middle-endian and alignment-bound CPUs; `wide` tells a
    64-bit `size_t` from a 32-bit one. -/
structure Target where
  bytewise : Bool
  wide : Bool
  legacy : LegacyFormat

def Target.sizeMax (target : Target) : Nat := if target.wide then 2^64 - 1 else 2^32 - 1

def writeBytewise {w : Nat} : Nat → BitVec w → List UInt8
  | 0, _ => []
  | count + 1, value => ⟨(value &&& 0xFF).setWidth 8⟩ :: writeBytewise count (value >>> 8)

def writeMemory {w : Nat} (count : Nat) (value : BitVec w) : List UInt8 :=
  (List.range count).map (fun i => ⟨value.extractLsb' (8 * i) 8⟩)

def writeLittleEndian {w : Nat} (target : Target) (count : Nat) (value : BitVec w) : List UInt8 :=
  if target.bytewise then writeBytewise count value else writeMemory count value

def accumulateBytes {w : Nat} : Nat → BitVec w → List UInt8 → BitVec w
  | _, value, [] => value
  | i, value, byte :: bytes =>
    accumulateBytes (i + 1) (value + (byte.toBitVec.setWidth w <<< (i * 8))) bytes

def readBytewise {w : Nat} (count : Nat) (data : List UInt8) : Option (BitVec w × List UInt8) :=
  if data.length < count then none
  else some (accumulateBytes 0 0 (data.take count), data.drop count)

def memoryValue {w : Nat} (bytes : List UInt8) : BitVec w :=
  bytes.foldr (fun byte value => byte.toBitVec.setWidth w ||| value <<< 8) 0

def readMemory {w : Nat} (count : Nat) (data : List UInt8) : Option (BitVec w × List UInt8) :=
  if data.length < count then none
  else some (memoryValue (data.take count), data.drop count)

def readLittleEndian {w : Nat} (target : Target) (count : Nat) (data : List UInt8) :
    Option (BitVec w × List UInt8) :=
  if target.bytewise then readBytewise count data else readMemory count data

variable (target : Target)

def writeDouble (value : UInt64) : List UInt8 :=
  writeLittleEndian target 8 value.toBitVec

def readDouble (data : List UInt8) : Option (UInt64 × List UInt8) := do
  let (value, data) ← readLittleEndian (w := 64) target 8 data
  return (⟨value⟩, data)

def writeUnits (units : List UInt16) : List UInt8 :=
  units.flatMap (writeLittleEndian target 2 ·.toBitVec)

def readUnits (target : Target) : Nat → List UInt8 → Option (List UInt16 × List UInt8)
  | 0, data => some ([], data)
  | count + 1, data => do
    let (unit, data) ← readLittleEndian (w := 16) target 2 data
    let (units, data) ← readUnits target count data
    return (⟨unit⟩ :: units, data)

mutual

/-- A key of type `Invalid` reaches `RELEASE_ASSERT_NOT_REACHED`, which is the absent result. -/
def encodeKey (target : Target) : IDBKeyData → Option (List UInt8)
  | .null | .invalid | .deletedValue => none
  | .minimum => some [SIDBKeyType.min.byte]
  | .maximum => some [SIDBKeyType.max.byte]
  | .number bits => some (SIDBKeyType.number.byte :: writeDouble target bits)
  | .date bits => some (SIDBKeyType.date.byte :: writeDouble target bits)
  | .string value =>
    let units := value.getD []
    some (SIDBKeyType.string.byte ::
      (writeLittleEndian target 4 (BitVec.ofNat 32 units.length) ++ writeUnits target units))
  | .binary value =>
    let bytes := value.getD []
    some (SIDBKeyType.binary.byte ::
      (writeLittleEndian target 8 (BitVec.ofNat 64 bytes.length) ++ bytes))
  | .array keys => do
    let body ← encodeKeys target keys
    return SIDBKeyType.array.byte ::
      (writeLittleEndian target 8 (BitVec.ofNat 64 keys.length) ++ body)

def encodeKeys (target : Target) : List IDBKeyData → Option (List UInt8)
  | [] => some []
  | key :: keys => do
    let first ← encodeKey target key
    let rest ← encodeKeys target keys
    return first ++ rest

end

variable (target : Target)

def serializeIDBKeyData (key : IDBKeyData) : Option (List UInt8) := do
  let data ← encodeKey target key
  return SIDBKeyVersion :: data

def decodeKeys (decode : List UInt8 → Option (IDBKeyData × List UInt8)) :
    Nat → List UInt8 → Option (List IDBKeyData × List UInt8)
  | 0, data => some ([], data)
  | count + 1, data => do
    let (key, data) ← decode data
    let (keys, data) ← decodeKeys decode count data
    return (key :: keys, data)

/-- The recursion is bounded by `fuel`; each level consumes at least its type byte, so the length
    of the data is always enough. The string bound `length * 2` is computed in 32 bits. -/
def decodeKey (target : Target) : Nat → List UInt8 → Option (IDBKeyData × List UInt8)
  | 0, _ => none
  | _ + 1, [] => none
  | fuel + 1, byte :: data => do
    match ← SIDBKeyType.ofByte byte with
    | .min => return (.minimum, data)
    | .max => return (.maximum, data)
    | .number =>
      let (value, data) ← readDouble target data
      return (.number value, data)
    | .date =>
      let (value, data) ← readDouble target data
      return (.date value, data)
    | .string =>
      let (length, data) ← readLittleEndian (w := 32) target 4 data
      if data.length < (length * 2).toNat then none
      else
        let (units, data) ← readUnits target length.toNat data
        return (.string (some units), data)
    | .binary =>
      let (size64, data) ← readLittleEndian (w := 64) target 8 data
      if data.length < size64.toNat then none
      else if target.sizeMax < size64.toNat then none
      else return (.binary (some (data.take size64.toNat)), data.drop size64.toNat)
    | .array =>
      let (size64, data) ← readLittleEndian (w := 64) target 8 data
      if target.sizeMax < size64.toNat then none
      else
        let (keys, data) ← decodeKeys (decodeKey target fuel) size64.toNat data
        return (.array keys, data)

def isLegacySerializedIDBKeyData (data : List UInt8) : Bool :=
  match target.legacy with
  | .cf => data.head? = some 0x62
  | .glib isNormalForm => isNormalForm data
  | .none => false

/-- `decodeLegacy` stands for `IDBKeyData::decode` over the platform's keyed archive. -/
def deserializeIDBKeyData (decodeLegacy : List UInt8 → Option IDBKeyData) (data : List UInt8) :
    Option IDBKeyData :=
  match data with
  | [] => none
  | version :: body =>
    if isLegacySerializedIDBKeyData target data then decodeLegacy data
    else if version ≠ SIDBKeyVersion then none
    else
      match decodeKey target body.length body with
      | some (key, []) => some key
      | _ => none

end Odyssey.IndexedDB
