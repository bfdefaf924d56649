import Odyssey.IndexedDB.LittleEndianVariants

namespace Odyssey.IndexedDB

open Bytes List Option BitVec SIDBKeyType

/-- An `a{sv}` dictionary that starts with a zero byte starts with the empty key, whose padding to
    the eight-byte boundary is zero in normal form and is followed by the entry's value. -/
def LegacyFormat.Documented : LegacyFormat → Prop
  | .glib isNormalForm => ∀ byte rest, isNormalForm (0 :: byte :: rest) = true → byte = 0 ∧ rest ≠ []
  | .cf | .none => True

theorem SIDBKeyType.ofByte_byte (type : SIDBKeyType) : SIDBKeyType.ofByte type.byte = some type := by
  cases type <;> rfl

theorem SIDBKeyType.byte_ofByte {byte : UInt8} {type : SIDBKeyType}
    (found : SIDBKeyType.ofByte byte = some type) : byte = type.byte := by
  unfold ofByte at found
  repeat' split at found
  all_goals first
    | (cases found; assumption)
    | cases found

theorem readDouble_written (target : Target) (value : UInt64) (rest : List UInt8) :
    readDouble target (writeDouble target value ++ rest) = some (value, rest) := by
  simp only [readDouble, writeDouble]
  rw [read_written 8 target (by decide) value.toBitVec rest]
  rfl

variable {target : Target} {data rest body : List UInt8} {key : IDBKeyData} {keys : List IDBKeyData}

theorem readDouble_inv {value : UInt64} (accepted : readDouble target data = some (value, rest)) :
    data = writeDouble target value ++ rest := by
  simp only [readDouble, bind_eq_bind, bind_eq_some_iff] at accepted
  obtain ⟨⟨bits, tail⟩, found, same⟩ := accepted
  cases same
  exact written_read 8 (by decide) found

theorem readUnits_written (target : Target) (units : List UInt16) (rest : List UInt8) :
    readUnits target units.length (writeUnits target units ++ rest) = some (units, rest) := by
  induction units with
  | nil => rfl
  | cons unit units ih =>
    simp only [writeUnits, flatMap_cons, List.append_assoc, length_cons, readUnits]
    rw [read_written 2 target (by decide) unit.toBitVec]
    simp only [writeUnits] at ih
    simp [ih]

theorem readUnits_inv {count : Nat} {units : List UInt16}
    (accepted : readUnits target count data = some (units, rest)) :
    data = writeUnits target units ++ rest ∧ units.length = count := by
  induction count generalizing data units with
  | zero => cases accepted; exact ⟨rfl, rfl⟩
  | succ count ih =>
    simp only [readUnits, bind_eq_bind, bind_eq_some_iff] at accepted
    obtain ⟨⟨unit, middle⟩, first, ⟨others, tail⟩, later, same⟩ := accepted
    cases same
    dsimp only at later ih ⊢
    obtain ⟨split, size⟩ := ih later
    have head := written_read 2 (by decide) first
    refine ⟨?_, by simp [size]⟩
    rw [head, split]
    simp [writeUnits]

theorem writeUnits_length (target : Target) (units : List UInt16) :
    (writeUnits target units).length = 2 * units.length := by
  induction units with
  | nil => rfl
  | cons unit units ih =>
    simp only [writeUnits] at ih
    simp only [writeUnits, flatMap_cons, length_append, length_cons]
    rw [writeLittleEndian_eq_lowBytes (by decide), lowBytes_length]
    omega

theorem encodeKey_array (encoded : encodeKey target (.array keys) = some body) :
    ∃ rest, encodeKeys target keys = some rest ∧ body = SIDBKeyType.array.byte ::
      (writeLittleEndian target 8 (BitVec.ofNat 64 keys.length) ++ rest) := by
  simp only [encodeKey, bind_eq_bind, bind_eq_some_iff] at encoded
  obtain ⟨rest, found, same⟩ := encoded
  cases same
  exact ⟨rest, found, rfl⟩

theorem encodeKeys_total (each : ∀ key ∈ keys, ∃ body, encodeKey target key = some body) :
    ∃ body, encodeKeys target keys = some body := by
  induction keys with
  | nil => exact ⟨[], by simp [encodeKeys]⟩
  | cons key keys ih =>
    obtain ⟨first, head⟩ := each key (by simp)
    obtain ⟨rest, tail⟩ := ih (fun other member => each other (by simp [member]))
    exact ⟨first ++ rest, by simp [encodeKeys, head, tail]⟩

theorem encodeKey_total (target : Target) (built : key.Built) : ∃ body, encodeKey target key = some body := by
  induction built with
  | array keys bound members ih =>
    obtain ⟨body, found⟩ := encodeKeys_total ih
    simp [encodeKey, found]
  | _ => simp [encodeKey]

theorem encodeKey_head (encoded : encodeKey target key = some body) :
    ∃ byte tail, body = byte :: tail ∧ (byte = 0 → tail = []) := by
  cases key with
  | array keys =>
    obtain ⟨rest, _, same⟩ := encodeKey_array encoded
    exact ⟨_, _, same, fun zero => absurd zero (by decide)⟩
  | null => simp [encodeKey] at encoded
  | invalid => simp [encodeKey] at encoded
  | deletedValue => simp [encodeKey] at encoded
  | minimum =>
    simp only [encodeKey, some.injEq] at encoded
    exact ⟨_, _, encoded.symm, fun _ => rfl⟩
  | _ =>
    simp only [encodeKey, some.injEq] at encoded
    exact ⟨_, _, encoded.symm, fun zero => absurd zero (by decide)⟩

theorem decodeKeys_encoded (decode : List UInt8 → Option (IDBKeyData × List UInt8))
    (encoded : encodeKeys target keys = some body) (rest : List UInt8)
    (each : ∀ key ∈ keys, ∀ first, encodeKey target key = some first →
      first.length ≤ body.length → ∀ tail, decode (first ++ tail) = some (key.filled, tail)) :
    decodeKeys decode keys.length (body ++ rest) = some (filledKeys keys, rest) := by
  induction keys generalizing body with
  | nil =>
    simp only [encodeKeys, some.injEq] at encoded
    subst encoded
    rfl
  | cons key keys ih =>
    simp only [encodeKeys, bind_eq_bind, bind_eq_some_iff] at encoded
    obtain ⟨first, head, later, tail, same⟩ := encoded
    cases same
    have inner := ih tail (fun other member body found small suffix =>
      each other (by simp [member]) body found (by simp; omega) suffix)
    have outer := each key (by simp) first head (by simp) (later ++ rest)
    simp only [length_cons, decodeKeys, List.append_assoc, bind_eq_bind, outer, bind_some, inner]
    rfl

theorem decodeKey_encoded (built : key.Built) (encoded : encodeKey target key = some body) (fuel : Nat)
    (enough : body.length ≤ fuel) (rest : List UInt8) :
    decodeKey target fuel (body ++ rest) = some (key.filled, rest) := by
  induction built generalizing body fuel rest
  all_goals
    obtain ⟨fuel, rfl⟩ : ∃ n, fuel = n + 1 := by
      obtain ⟨byte, tail, rfl, _⟩ := encodeKey_head encoded
      exact ⟨fuel - 1, by simp at enough; omega⟩
  case minimum | maximum | number | date =>
    simp only [encodeKey, some.injEq] at encoded
    subst encoded
    simp [decodeKey, ofByte_byte, readDouble_written, IDBKeyData.filled]
  case string value bound =>
    simp only [encodeKey, some.injEq] at encoded
    subst encoded
    rw [IDBKeyData.filled]
    generalize value.getD [] = units at *
    have count : (BitVec.ofNat 32 units.length).toNat = units.length := Nat.mod_eq_of_lt (by omega)
    have double : (BitVec.ofNat 32 units.length * 2).toNat = 2 * units.length := by
      rw [toNat_mul, count]
      change units.length * 2 % 2 ^ 32 = _
      omega
    have size := writeUnits_length target units
    have length := read_written 4 target (by decide) (BitVec.ofNat 32 units.length)
    have body := readUnits_written target units rest
    simp only [decodeKey, List.cons_append, List.append_assoc, bind_eq_bind, bind_some, length]
    rw [if_neg (by rw [length_append]; omega), count, body]
    rfl
  case binary value bound =>
    simp only [encodeKey, some.injEq] at encoded
    subst encoded
    rw [IDBKeyData.filled]
    generalize value.getD [] = bytes at *
    have count : (BitVec.ofNat 64 bytes.length).toNat = bytes.length := Nat.mod_eq_of_lt (by omega)
    have size := read_written 8 target (by decide) (BitVec.ofNat 64 bytes.length) (bytes ++ rest)
    have addressable : bytes.length ≤ target.sizeMax := by
      unfold Target.sizeMax
      split <;> omega
    simp only [decodeKey, List.cons_append, List.append_assoc, bind_eq_bind, bind_some, size, count]
    rw [if_neg (by simp), if_neg (by omega), take_left, drop_left]
    rfl
  case array keys bound members ih =>
    obtain ⟨tail, found, rfl⟩ := encodeKey_array encoded
    have count : (BitVec.ofNat 64 keys.length).toNat = keys.length := Nat.mod_eq_of_lt (by omega)
    have size := read_written 8 target (by decide) (BitVec.ofNat 64 keys.length) (tail ++ rest)
    have addressable : keys.length ≤ target.sizeMax := by
      unfold Target.sizeMax
      split <;> omega
    have inner := decodeKeys_encoded (decodeKey target fuel) found rest
      (fun key member first head small suffix => ih key member head fuel
        (by simp only [length_cons, length_append] at enough; omega) suffix)
    simp only [decodeKey, ofByte_byte, List.cons_append, List.append_assoc, bind_eq_bind, bind_some, size, count]
    rw [if_neg (by omega), inner]
    rfl

theorem decodeKeys_inv {decode : List UInt8 → Option (IDBKeyData × List UInt8)}
    (each : ∀ data key rest, decode data = some (key, rest) → ∃ body, encodeKey target key = some body ∧ data = body ++ rest)
    {count : Nat} (accepted : decodeKeys decode count data = some (keys, rest)) :
    ∃ body, encodeKeys target keys = some body ∧ data = body ++ rest ∧ keys.length = count := by
  induction count generalizing data keys with
  | zero => cases accepted; exact ⟨[], by simp [encodeKeys], rfl, rfl⟩
  | succ count ih =>
    simp only [decodeKeys, bind_eq_bind, bind_eq_some_iff] at accepted
    obtain ⟨⟨key, middle⟩, first, ⟨others, tail⟩, later, same⟩ := accepted
    cases same
    obtain ⟨head, encodedHead, rfl⟩ := each _ _ _ first
    obtain ⟨body, encodedTail, rfl, size⟩ := ih later
    exact ⟨head ++ body, by simp [encodeKeys, encodedHead, encodedTail], by simp, by simp [size]⟩

theorem decodeKey_inv (fuel : Nat) (accepted : decodeKey target fuel data = some (key, rest)) :
    ∃ body, encodeKey target key = some body ∧ data = body ++ rest := by
  induction fuel generalizing data rest key with
  | zero => cases accepted
  | succ fuel ih =>
    cases data with
    | nil => cases accepted
    | cons byte data =>
      simp only [decodeKey, bind_eq_bind, bind_eq_some_iff] at accepted
      obtain ⟨type, found, accepted⟩ := accepted
      have head := byte_ofByte found
      subst head
      cases type with
      | min | max =>
        cases accepted
        exact ⟨_, by simp only [encodeKey]; rfl, rfl⟩
      | number | date =>
        obtain ⟨⟨bits, tail⟩, value, same⟩ := bind_eq_some_iff.mp accepted
        cases same
        rw [readDouble_inv value]
        exact ⟨_, by simp; rfl, rfl⟩
      | string =>
        obtain ⟨⟨length, middle⟩, first, accepted⟩ := bind_eq_some_iff.mp accepted
        split at accepted
        · cases accepted
        · obtain ⟨⟨units, tail⟩, second, same⟩ := bind_eq_some_iff.mp accepted
          cases same
          dsimp only at second ⊢
          obtain ⟨split, size⟩ := readUnits_inv second
          have prefixed := written_read 4 (by decide) first
          refine ⟨_, by simp only [encodeKey]; rfl, ?_⟩
          rw [prefixed, split, getD_some, size]
          simp
      | binary =>
        obtain ⟨⟨size64, middle⟩, first, accepted⟩ := bind_eq_some_iff.mp accepted
        split at accepted
        · cases accepted
        · rename_i enough
          split at accepted
          · cases accepted
          · cases accepted
            dsimp only at enough ⊢
            have prefixed := written_read 8 (by decide) first
            refine ⟨_, by simp only [encodeKey]; rfl, ?_⟩
            rw [prefixed, getD_some, length_take_of_le (by omega), ofNat_toNat,
              setWidth_eq, List.cons_append, List.append_assoc, take_append_drop]
      | array =>
        obtain ⟨⟨size64, middle⟩, first, accepted⟩ := bind_eq_some_iff.mp accepted
        split at accepted
        · cases accepted
        · obtain ⟨⟨keys, tail⟩, second, same⟩ := bind_eq_some_iff.mp accepted
          cases same
          dsimp only at second ⊢
          obtain ⟨body, encoded, split, size⟩ := decodeKeys_inv (fun _ _ _ => ih) second
          have prefixed := written_read 8 (by decide) first
          refine ⟨_, by simp only [encodeKey, encoded]; rfl, ?_⟩
          rw [prefixed, split, size]
          simp

theorem serialized_not_legacy (documented : target.legacy.Documented) (encoded : encodeKey target key = some body) :
    isLegacySerializedIDBKeyData target (SIDBKeyVersion :: body) = false := by
  unfold isLegacySerializedIDBKeyData
  cases format : target.legacy with
  | cf => rfl
  | none => rfl
  | glib isNormalForm =>
    obtain ⟨byte, tail, rfl, alone⟩ := encodeKey_head encoded
    rw [format] at documented
    rw [← Bool.not_eq_true]
    intro normal
    obtain ⟨zero, present⟩ := documented byte tail normal
    exact present (alone zero)

theorem serializeIDBKeyData_eq {bytes : List UInt8} : serializeIDBKeyData target key = some bytes ↔
      ∃ body, encodeKey target key = some body ∧ bytes = SIDBKeyVersion :: body := by
  simp only [serializeIDBKeyData, bind_eq_bind, bind_eq_some_iff]
  constructor
  · rintro ⟨body, encoded, same⟩
    cases same
    exact ⟨body, encoded, rfl⟩
  · rintro ⟨body, encoded, rfl⟩
    exact ⟨body, encoded, rfl⟩

theorem deserialize_serialized (documented : target.legacy.Documented) (decodeLegacy : List UInt8 → Option IDBKeyData)
    (built : key.Built) (encoded : encodeKey target key = some body) :
    deserializeIDBKeyData target decodeLegacy (SIDBKeyVersion :: body) = some key.filled := by
  have decoded := decodeKey_encoded built encoded body.length (le_refl _) []
  rw [append_nil] at decoded
  simp [deserializeIDBKeyData, serialized_not_legacy documented encoded, decoded]

theorem serialize_deserialized {decodeLegacy : List UInt8 → Option IDBKeyData} {bytes : List UInt8}
    (current : isLegacySerializedIDBKeyData target bytes = false)
    (accepted : deserializeIDBKeyData target decodeLegacy bytes = some key) :
    serializeIDBKeyData target key = some bytes := by
  cases bytes with
  | nil => cases accepted
  | cons version body =>
    simp only [deserializeIDBKeyData, current, Bool.false_eq_true, if_false] at accepted
    split at accepted
    · cases accepted
    · rename_i known
      split at accepted
      · rename_i decoded
        cases accepted
        obtain ⟨found, encoded, split⟩ := decodeKey_inv _ decoded
        rw [append_nil] at split
        subst split
        exact serializeIDBKeyData_eq.mpr ⟨_, encoded, by rw [not_not.mp known]⟩
      · cases accepted

/-- What is written reads back, with null strings and buffers as empty ones, and what is read was written by
    the encoder. -/
theorem key_codec_round_trip (target : Target) (documented : target.legacy.Documented)
    (decodeLegacy : List UInt8 → Option IDBKeyData) :
    (∀ key : IDBKeyData, key.Built → ∃ bytes, serializeIDBKeyData target key = some bytes ∧
      deserializeIDBKeyData target decodeLegacy bytes = some key.filled ∧
      (key.Present → key.filled = key)) ∧
    (∀ (bytes : List UInt8) (key : IDBKeyData), isLegacySerializedIDBKeyData target bytes = false →
      deserializeIDBKeyData target decodeLegacy bytes = some key →
      serializeIDBKeyData target key = some bytes) ∧
    (∀ (count : Nat) (value : BitVec (8 * count)), writeBytewise count value = writeMemory count value) ∧
    (∀ (count : Nat) (data : List UInt8),
      (readBytewise count data : Option (BitVec (8 * count) × List UInt8)) = readMemory count data) := by
  refine ⟨?_, ?_, ?_, ?_⟩
  · intro key built
    obtain ⟨body, encoded⟩ := encodeKey_total target built
    exact ⟨SIDBKeyVersion :: body, serializeIDBKeyData_eq.mpr ⟨body, encoded, rfl⟩,
      deserialize_serialized documented decodeLegacy built encoded, fun present => present.filled_eq⟩
  · intro bytes key current accepted
    exact serialize_deserialized current accepted
  · intro count value
    cases count with
    | zero => rfl
    | succ count =>
      rw [writeBytewise_eq_lowBytes (by omega), writeMemory_eq_lowBytes]
  · intro count data
    cases count with
    | zero => simp [readBytewise, readMemory, accumulateBytes, memoryValue]
    | succ count =>
      rw [readBytewise_eq_readValue (by omega), readMemory_eq_readValue (by omega)]

/-- The target of this port: a big-endian 32-bit CPU without property lists or GVariant. -/
def muiTarget : Target := ⟨true, false, .none⟩

theorem key_codec_round_trip_nested :
    ∃ bytes, serializeIDBKeyData muiTarget (.array [.number 0, .binary (some [7])]) = some bytes ∧
      deserializeIDBKeyData muiTarget (fun _ => none) bytes = some (.array [.number 0, .binary (some [7])]) := by
  have built : (IDBKeyData.array [.number 0, .binary (some [7])]).Built := by
    refine .array _ (by decide) ?_
    intro key member
    simp only [mem_cons, not_mem_nil, or_false] at member
    rcases member with rfl | rfl
    · exact .number 0
    · exact .binary _ (by decide)
  obtain ⟨bytes, written, read, _⟩ :=
    (key_codec_round_trip muiTarget trivial (fun _ => none)).1 _ built
  exact ⟨bytes, written, read⟩

theorem null_buffer_reads_back_empty :
    ¬ ∀ key : IDBKeyData, key.Built → ∃ bytes, serializeIDBKeyData muiTarget key = some bytes ∧
      deserializeIDBKeyData muiTarget (fun _ => none) bytes = some key := by
  intro claimed
  obtain ⟨bytes, written, read⟩ := claimed (.binary none) (.binary none (by decide))
  obtain ⟨body, encoded, rfl⟩ := serializeIDBKeyData_eq.mp written
  have documented : muiTarget.legacy.Documented := trivial
  rw [deserialize_serialized documented (fun _ => none) (.binary none (by decide)) encoded] at read
  cases read

end Odyssey.IndexedDB
