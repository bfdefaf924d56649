import Odyssey.IndexedDB.SerializationRoundTrip

namespace Odyssey.IndexedDB

open List Option

inductive ReservedElement where
  | codeUnit | key
  deriving DecidableEq

/-- A call of `reserveInitialCapacity`, with the number of bytes that are still to be read. -/
structure Reservation where
  element : ReservedElement
  count : Nat
  remaining : Nat
  deriving DecidableEq

def reservationsOfKeys (reservations : List UInt8 → List Reservation)
    (decode : List UInt8 → Option (IDBKeyData × List UInt8)) : Nat → List UInt8 → List Reservation
  | 0, _ => []
  | count + 1, data => reservations data ++
    match decode data with
    | none => []
    | some (_, data) => reservationsOfKeys reservations decode count data

def reservations (target : Target) : Nat → List UInt8 → List Reservation
  | fuel + 1, byte :: data =>
    match SIDBKeyType.ofByte byte with
    | some .string =>
      match readLittleEndian (w := 32) target 4 data with
      | none => []
      | some (length, data) =>
        if data.length < (length * 2).toNat then [] else [⟨.codeUnit, length.toNat, data.length⟩]
    | some .array =>
      match readLittleEndian (w := 64) target 8 data with
      | none => []
      | some (size64, data) =>
        if target.sizeMax < size64.toNat then []
        else ⟨.key, size64.toNat, data.length⟩ ::
          reservationsOfKeys (reservations target fuel) (decodeKey target fuel) size64.toNat data
    | _ => []
  | _, _ => []

variable {target : Target} {fuel count : Nat} {data rest : List UInt8} {reservation : Reservation}

/-- The bytes of one key, without a reader: each length says what stands behind it. -/
inductive KeyBytes (target : Target) : List UInt8 → Prop
  | min : KeyBytes target [SIDBKeyType.min.byte]
  | max : KeyBytes target [SIDBKeyType.max.byte]
  | number (bits : UInt64) : KeyBytes target (SIDBKeyType.number.byte :: writeDouble target bits)
  | date (bits : UInt64) : KeyBytes target (SIDBKeyType.date.byte :: writeDouble target bits)
  | string (length : BitVec 32) (units : List UInt16) (all : units.length = length.toNat) :
      KeyBytes target (SIDBKeyType.string.byte :: (writeLittleEndian target 4 length ++ writeUnits target units))
  | binary (size : BitVec 64) (bytes : List UInt8) (all : bytes.length = size.toNat)
      (sized : size.toNat ≤ target.sizeMax) :
      KeyBytes target (SIDBKeyType.binary.byte :: (writeLittleEndian target 8 size ++ bytes))
  | array (size : BitVec 64) (keys : List (List UInt8)) (all : keys.length = size.toNat)
      (sized : size.toNat ≤ target.sizeMax) (each : ∀ key ∈ keys, KeyBytes target key) :
      KeyBytes target (SIDBKeyType.array.byte :: (writeLittleEndian target 8 size ++ keys.flatten))

/-- The bytes begin with a length that announces more than they have: that of a string, whose double
    is small modulo 2^32, or that of an array; or with an array in which some keys are followed by such
    bytes in the place of a further key. -/
inductive OverAnnounces (target : Target) : List UInt8 → Prop
  | string (length : BitVec 32) (rest : List UInt8) (wraps : length.toNat * 2 % 2^32 ≤ rest.length)
      (short : rest.length < length.toNat) :
      OverAnnounces target (SIDBKeyType.string.byte :: (writeLittleEndian target 4 length ++ rest))
  | array (size : BitVec 64) (rest : List UInt8) (sized : size.toNat ≤ target.sizeMax)
      (short : rest.length < size.toNat) :
      OverAnnounces target (SIDBKeyType.array.byte :: (writeLittleEndian target 8 size ++ rest))
  | element (size : BitVec 64) (keys : List (List UInt8)) (rest : List UInt8) (sized : size.toNat ≤ target.sizeMax)
      (more : keys.length < size.toNat) (each : ∀ key ∈ keys, KeyBytes target key)
      (excess : OverAnnounces target rest) :
      OverAnnounces target
        (SIDBKeyType.array.byte :: (writeLittleEndian target 8 size ++ (keys.flatten ++ rest)))

section Keys

variable {decode : List UInt8 → Option (IDBKeyData × List UInt8)} {keys : List (List UInt8)}

theorem decodeKeys_of_keyBytes (each : ∀ key ∈ keys, ∀ rest, ∃ data, decode (key ++ rest) = some (data, rest))
    (rest : List UInt8) : ∃ result, decodeKeys decode keys.length (keys.flatten ++ rest) = some (result, rest) := by
  induction keys with
  | nil => exact ⟨[], rfl⟩
  | cons key keys ih =>
    rcases each key mem_cons_self (keys.flatten ++ rest) with ⟨first, decoded⟩
    rcases ih (fun key member => each key (mem_cons_of_mem _ member)) with ⟨others, later⟩
    refine ⟨first :: others, ?_⟩
    simp [decodeKeys, decoded, later]

theorem decodeKeys_keyBytes
    (each : ∀ {data key rest}, decode data = some (key, rest) → ∃ bytes, KeyBytes target bytes ∧ data = bytes ++ rest)
    {result : List IDBKeyData} (accepted : decodeKeys decode count data = some (result, rest)) :
    ∃ keys : List (List UInt8), keys.length = count ∧ (∀ key ∈ keys, KeyBytes target key) ∧
      data = keys.flatten ++ rest := by
  induction count generalizing data result with
  | zero =>
    cases accepted
    exact ⟨[], rfl, nofun, rfl⟩
  | succ count ih =>
    simp only [decodeKeys, bind_eq_bind, bind_eq_some_iff] at accepted
    obtain ⟨⟨key, tail⟩, first, ⟨others, _⟩, later, same⟩ := accepted
    cases same
    obtain ⟨bytes, written, rfl⟩ := each first
    obtain ⟨keys, length, members, rfl⟩ := ih later
    exact ⟨bytes :: keys, congrArg (· + 1) length, forall_mem_cons.mpr ⟨written, members⟩, by simp⟩

end Keys

theorem decodeKey_of_keyBytes {bytes : List UInt8} (written : KeyBytes target bytes) (fuel : Nat)
    (enough : bytes.length ≤ fuel) (rest : List UInt8) :
    ∃ key, decodeKey target fuel (bytes ++ rest) = some (key, rest) := by
  induction written generalizing fuel rest
  all_goals
    obtain ⟨fuel, rfl⟩ : ∃ less, fuel = less + 1 := Nat.exists_eq_add_one.mpr (by simp at enough; omega)
    simp only [length_cons, length_nil] at enough
    simp only [cons_append, decodeKey, SIDBKeyType.ofByte_byte, bind_eq_bind, bind_some]
  case min => exact ⟨_, rfl⟩
  case max => exact ⟨_, rfl⟩
  case number bits | date bits => exact ⟨_, by rw [readDouble_written]; rfl⟩
  case string length units all =>
    have double : ¬ (writeUnits target units ++ rest).length < (length * 2).toNat := by
      have wrapped : (length * 2).toNat ≤ length.toNat * 2 := by
        rw [BitVec.toNat_mul]
        exact Nat.mod_le _ _
      rw [length_append, writeUnits_length]
      omega
    rw [append_assoc, read_written 4 target (by decide) length, bind_some, if_neg double, ← all, readUnits_written]
    exact ⟨_, rfl⟩
  case binary size bytes all sized =>
    rw [append_assoc, read_written 8 target (by decide) size, bind_some, if_neg (by simp; omega),
      if_neg (Nat.not_lt.mpr sized), ← all, drop_left]
    exact ⟨_, rfl⟩
  case array size keys all sized _ ih =>
    have each : ∀ key ∈ keys, ∀ rest, ∃ data, decodeKey target fuel (key ++ rest) = some (data, rest) := by
      intro key member
      have inside := (sublist_flatten_of_mem member).length_le
      rw [length_append] at enough
      exact ih key member fuel (by omega)
    rcases decodeKeys_of_keyBytes each rest with ⟨result, decoded⟩
    rw [append_assoc, read_written 8 target (by decide) size, bind_some, if_neg (Nat.not_lt.mpr sized),
      ← all, decoded]
    exact ⟨_, rfl⟩

theorem keyBytes_of_decodeKey {key : IDBKeyData} (accepted : decodeKey target fuel data = some (key, rest)) :
    ∃ bytes, KeyBytes target bytes ∧ data = bytes ++ rest := by
  induction fuel generalizing data key rest with
  | zero => cases accepted
  | succ fuel ih =>
    cases data with
    | nil => cases accepted
    | cons byte data =>
      simp only [decodeKey, bind_eq_bind, bind_eq_some_iff] at accepted
      obtain ⟨type, known, accepted⟩ := accepted
      rw [SIDBKeyType.byte_ofByte known]
      cases type with
      | min =>
        cases accepted
        exact ⟨_, .min, rfl⟩
      | max =>
        cases accepted
        exact ⟨_, .max, rfl⟩
      | number =>
        obtain ⟨⟨bits, tail⟩, read, same⟩ := bind_eq_some_iff.mp accepted
        cases same
        exact ⟨_, .number bits, congrArg _ (readDouble_inv read)⟩
      | date =>
        obtain ⟨⟨bits, tail⟩, read, same⟩ := bind_eq_some_iff.mp accepted
        cases same
        exact ⟨_, .date bits, congrArg _ (readDouble_inv read)⟩
      | string =>
        obtain ⟨⟨length, tail⟩, read, accepted⟩ := bind_eq_some_iff.mp accepted
        split at accepted
        · cases accepted
        · obtain ⟨⟨units, tail⟩, units_read, same⟩ := bind_eq_some_iff.mp accepted
          cases same
          obtain ⟨rfl, all⟩ := readUnits_inv units_read
          refine ⟨_, .string length units all, ?_⟩
          rw [written_read 4 (by decide) read, cons_append, append_assoc]
      | binary =>
        obtain ⟨⟨size, tail⟩, read, accepted⟩ := bind_eq_some_iff.mp accepted
        split at accepted
        · cases accepted
        · next fits =>
          split at accepted
          · cases accepted
          · next sized =>
            cases accepted
            refine ⟨_, .binary size (tail.take size.toNat) (length_take_of_le (Nat.not_lt.mp fits))
              (Nat.not_lt.mp sized), ?_⟩
            rw [written_read 8 (by decide) read, cons_append, append_assoc, take_append_drop]
      | array =>
        obtain ⟨⟨size, tail⟩, read, accepted⟩ := bind_eq_some_iff.mp accepted
        split at accepted
        · cases accepted
        · next sized =>
          obtain ⟨⟨result, tail⟩, decoded, same⟩ := bind_eq_some_iff.mp accepted
          cases same
          obtain ⟨keys, all, each, rfl⟩ := decodeKeys_keyBytes ih decoded
          refine ⟨_, .array size keys all (Nat.not_lt.mp sized) each, ?_⟩
          rw [written_read 8 (by decide) read, cons_append, append_assoc]

/-- A reservation of a later key stands behind some whole keys. -/
theorem mem_reservationsOfKeys
    (member : reservation ∈ reservationsOfKeys (reservations target fuel) (decodeKey target fuel) count data) :
    ∃ (keys : List (List UInt8)) (rest : List UInt8), keys.length < count ∧ (∀ key ∈ keys, KeyBytes target key) ∧
      data = keys.flatten ++ rest ∧ reservation ∈ reservations target fuel rest := by
  induction count generalizing data with
  | zero => cases member
  | succ count ih =>
    rw [reservationsOfKeys, mem_append] at member
    rcases member with here | later
    · exact ⟨[], data, Nat.succ_pos _, nofun, rfl, here⟩
    · split at later
      · cases later
      · next decoded =>
        obtain ⟨bytes, written, rfl⟩ := keyBytes_of_decodeKey decoded
        obtain ⟨keys, rest, fewer, each, rfl, member⟩ := ih later
        exact ⟨bytes :: keys, rest, Nat.succ_lt_succ fewer, forall_mem_cons.mpr ⟨written, each⟩, by simp, member⟩

theorem reservationsOfKeys_mem {keys : List (List UInt8)} (fewer : keys.length < count)
    (each : ∀ key ∈ keys, KeyBytes target key ∧ key.length ≤ fuel) (member : reservation ∈ reservations target fuel rest) :
    reservation ∈ reservationsOfKeys (reservations target fuel) (decodeKey target fuel) count (keys.flatten ++ rest) := by
  induction count generalizing keys with
  | zero => cases fewer
  | succ count ih =>
    rw [reservationsOfKeys, mem_append]
    cases keys with
    | nil => exact .inl member
    | cons key keys =>
      right
      have first := each key mem_cons_self
      rcases decodeKey_of_keyBytes first.1 fuel first.2 (keys.flatten ++ rest) with ⟨_, decoded⟩
      rw [flatten_cons, append_assoc, decoded]
      exact ih (Nat.lt_of_succ_lt_succ fewer) fun key member => each key (mem_cons_of_mem _ member)

theorem exists_of_overAnnounces (excess : OverAnnounces target data) (enough : data.length ≤ fuel) :
    ∃ reservation ∈ reservations target fuel data, reservation.remaining < reservation.count := by
  induction excess generalizing fuel
  all_goals
    obtain ⟨fuel, rfl⟩ : ∃ less, fuel = less + 1 := Nat.exists_eq_add_one.mpr (by simp at enough; omega)
    simp only [length_cons] at enough
    simp only [reservations, SIDBKeyType.ofByte_byte]
  case string length rest wraps short =>
    have guarded : ¬ rest.length < (length * 2).toNat := by
      rw [BitVec.toNat_mul]
      exact Nat.not_lt.mpr wraps
    simp only [read_written 4 target (by decide) length, if_neg guarded]
    exact ⟨_, mem_singleton_self _, short⟩
  case array size rest sized short =>
    simp only [read_written 8 target (by decide) size, if_neg (Nat.not_lt.mpr sized)]
    exact ⟨_, mem_cons_self, short⟩
  case element size keys rest sized more each _ ih =>
    simp only [length_append] at enough
    have fewer : rest.length ≤ fuel := by omega
    obtain ⟨reservation, member, excess⟩ := ih fewer
    have fits : ∀ key ∈ keys, KeyBytes target key ∧ key.length ≤ fuel := by
      intro key member
      have inside := (sublist_flatten_of_mem member).length_le
      exact ⟨each key member, by omega⟩
    simp only [read_written 8 target (by decide) size, if_neg (Nat.not_lt.mpr sized)]
    exact ⟨reservation, mem_cons_of_mem _ (reservationsOfKeys_mem more fits member), excess⟩

theorem overAnnounces_of_mem (member : reservation ∈ reservations target fuel data)
    (excess : reservation.remaining < reservation.count) : OverAnnounces target data := by
  induction fuel generalizing data with
  | zero => cases member
  | succ fuel ih =>
    cases data with
    | nil => cases member
    | cons byte data =>
      rw [reservations] at member
      split at member
      · next known =>
        rw [SIDBKeyType.byte_ofByte known]
        split at member
        · cases member
        · next length tail read =>
          split at member
          · cases member
          · next guarded =>
            obtain rfl := mem_singleton.mp member
            rw [written_read 4 (by decide) read]
            rw [BitVec.toNat_mul] at guarded
            exact .string length tail (Nat.not_lt.mp guarded) excess
      · next known =>
        rw [SIDBKeyType.byte_ofByte known]
        split at member
        · cases member
        · next size tail read =>
          split at member
          · cases member
          · next sized =>
            rw [written_read 8 (by decide) read]
            rcases mem_cons.mp member with rfl | member
            · exact .array size tail (by omega) excess
            · obtain ⟨keys, rest, more, each, rfl, inside⟩ := mem_reservationsOfKeys member
              exact .element size keys rest (by omega) more each (ih inside)
      · cases member

/-- The decoder reserves no more than the bytes that are left, exactly if the bytes do not announce more
    than they have. -/
theorem reservations_bounded_iff (target : Target) (data : List UInt8) :
    (∀ reservation ∈ reservations target data.length data, reservation.count ≤ reservation.remaining) ↔
      ¬ OverAnnounces target data := by
  constructor
  · intro bounded excess
    obtain ⟨reservation, member, more⟩ := exists_of_overAnnounces excess (Nat.le_refl _)
    exact absurd (bounded reservation member) (Nat.not_le.mpr more)
  · intro modest reservation member
    by_contra more
    exact modest (overAnnounces_of_mem member (Nat.not_le.mp more))

theorem reservations_beyond_input :
    reservations ⟨false, true, .none⟩ 9 [0xA0, 0xFF, 0xFF, 0xFF, 0xFF, 0xFF, 0xFF, 0xFF, 0xFF] =
        [⟨.key, 2^64 - 1, 0⟩] ∧
      reservations ⟨false, true, .none⟩ 5 [0x60, 0x00, 0x00, 0x00, 0x80] = [⟨.codeUnit, 2^31, 0⟩] := by
  decide +kernel

end Odyssey.IndexedDB
