import Mathlib.Data.BitVec

namespace Odyssey.IndexedDB

/-- A `ThreadSafeDataBuffer` without an implementation object is a null buffer, which is not the
    empty buffer. -/
abbrev ThreadSafeDataBuffer := Option (List UInt8)

/-- A null `String` is not the empty string. -/
abbrev WTFString := Option (List UInt16)

instance : LawfulBEq WTFString := Option.instLawfulBEq _

/-- Doubles are kept as their 64-bit patterns. The first three constructors are the values whose
    type is `Invalid`: the default key, a key built from an invalid `IDBKey`, and `deletedValue`. -/
inductive IDBKeyData where
  | null
  | invalid
  | deletedValue
  | minimum
  | maximum
  | number (bits : UInt64)
  | date (bits : UInt64)
  | string (value : WTFString)
  | binary (value : ThreadSafeDataBuffer)
  | array (value : List IDBKeyData)

/-- The keys that the setters build: a `String` has at most `INT_MAX` code units and a `Vector`
    counts its elements in an `unsigned`. Strings and buffers may be null. -/
inductive IDBKeyData.Built : IDBKeyData → Prop
  | minimum : Built .minimum
  | maximum : Built .maximum
  | number (bits : UInt64) : Built (.number bits)
  | date (bits : UInt64) : Built (.date bits)
  | string (value : WTFString) (bound : (value.getD []).length < 2^31) : Built (.string value)
  | binary (value : ThreadSafeDataBuffer) (bound : (value.getD []).length < 2^32) :
      Built (.binary value)
  | array (keys : List IDBKeyData) (bound : keys.length < 2^32)
      (members : ∀ key ∈ keys, Built key) : Built (.array keys)

inductive IDBKeyData.Present : IDBKeyData → Prop
  | minimum : Present .minimum
  | maximum : Present .maximum
  | number (bits : UInt64) : Present (.number bits)
  | date (bits : UInt64) : Present (.date bits)
  | string (units : List UInt16) : Present (.string (some units))
  | binary (bytes : List UInt8) : Present (.binary (some bytes))
  | array (keys : List IDBKeyData) (members : ∀ key ∈ keys, Present key) : Present (.array keys)

mutual

def IDBKeyData.filled : IDBKeyData → IDBKeyData
  | .string value => .string (some (value.getD []))
  | .binary value => .binary (some (value.getD []))
  | .array keys => .array (filledKeys keys)
  | .null => .null
  | .invalid => .invalid
  | .deletedValue => .deletedValue
  | .minimum => .minimum
  | .maximum => .maximum
  | .number bits => .number bits
  | .date bits => .date bits

def filledKeys : List IDBKeyData → List IDBKeyData
  | [] => []
  | key :: keys => key.filled :: filledKeys keys

end

theorem filledKeys_eq_map (keys : List IDBKeyData) : filledKeys keys = keys.map IDBKeyData.filled := by
  induction keys with
  | nil => rfl
  | cons key keys ih => simp [filledKeys, ih]

theorem IDBKeyData.Present.filled_eq {key : IDBKeyData} (present : key.Present) : key.filled = key := by
  induction present with
  | array keys members ih =>
    rw [filled, filledKeys_eq_map]
    congr 1
    conv_rhs => rw [← List.map_id keys]
    exact List.map_congr_left ih
  | _ => rfl

end Odyssey.IndexedDB
