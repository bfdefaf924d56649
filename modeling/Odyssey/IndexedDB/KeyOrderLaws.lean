import Mathlib.Tactic.Linarith
import Odyssey.IndexedDB.KeyComparison

namespace Odyssey.IndexedDB

open Containers List Option

def positiveZero (bits : UInt64) : UInt64 := if bits = 0x8000000000000000 then 0 else bits

theorem isNaN_positiveZero (bits : UInt64) : isNaN (positiveZero bits) = isNaN bits := by
  by_cases zero : bits = 0x8000000000000000
  · rw [zero]
    rfl
  · rw [positiveZero, if_neg zero]

theorem doubleRank_eq_iff (x y : UInt64) : doubleRank x = doubleRank y ↔ positiveZero x = positiveZero y := by
  have minus : (0x8000000000000000 : UInt64).toNat = 2^63 := rfl
  have zero : (0 : UInt64).toNat = 0 := rfl
  unfold doubleRank positiveZero
  simp only [← UInt64.toNat_inj]
  split <;> split <;> split <;> split <;> omega

theorem codePointCompare_eq (x y : WTFString) :
    codePointCompare x y = codePointCompareUnits (x.getD []) (y.getD []) := by
  cases x with
  | none =>
    cases y with
    | none => rfl
    | some units => cases units <;> rfl
  | some units =>
    cases y with
    | none => cases units <;> rfl
    | some others => rfl

theorem compareBytes_rank (x y : UInt8) :
    (if x > y then 1 else if x < y then -1 else 0 : Int) = threeWay (x.toNat : Int) y.toNat := by
  simp only [threeWay, UInt8.lt_iff_toNat_lt]
  split <;> split <;> omega

theorem compareUnits_rank (x y : UInt16) :
    (if x = y then 0 else if x > y then 1 else -1 : Int) = threeWay (x.toNat : Int) y.toNat := by
  simp only [threeWay, UInt16.lt_iff_toNat_lt, ← UInt16.toNat_inj]
  split <;> split <;> (try split) <;> omega

def stringCode (value : WTFString) : List Int := listCode (fun unit => [(unit.toNat : Int)]) (value.getD [])

def binaryCode : ThreadSafeDataBuffer → List Int
  | none => [0]
  | some data => 1 :: listCode (fun byte => [(byte.toNat : Int)]) data

theorem codePointCompare_encodes (x y : WTFString) : Encodes codePointCompare stringCode x y := by
  intro rest others
  rw [codePointCompare_eq]
  exact encodes_lists _ _ (fun u _ v _ => encodes_rank _ (compareUnits_rank u v)) rest others

theorem compareBinaryKeyData_encodes (x y : ThreadSafeDataBuffer) : Encodes compareBinaryKeyData binaryCode x y := by
  intro rest others
  cases x with
  | none => cases y <;> simp [binaryCode, compareBinaryKeyData, threeWay_cons, threeWay_self, threeWay_zero_one]
  | some data =>
    cases y with
    | none => simp [binaryCode, compareBinaryKeyData, threeWay_cons, threeWay_one_zero]
    | some other =>
      have lists := encodes_lists data other fun u _ v _ => encodes_rank _ (compareBytes_rank u v)
      exact lists.tagged 1 rest others

namespace IDBKeyData

inductive Comparable : IDBKeyData → Prop
  | invalid : Comparable .invalid
  | minimum : Comparable .minimum
  | maximum : Comparable .maximum
  | number (bits : UInt64) (real : isNaN bits = false) : Comparable (.number bits)
  | date (bits : UInt64) (real : isNaN bits = false) : Comparable (.date bits)
  | string (value : WTFString) : Comparable (.string value)
  | binary (value : ThreadSafeDataBuffer) : Comparable (.binary value)
  | array (keys : List IDBKeyData) (members : ∀ key ∈ keys, Comparable key) : Comparable (.array keys)

theorem validKeys_iff {keys : List IDBKeyData} : validKeys keys = true ↔ ∀ key ∈ keys, key.isValid = true := by
  induction keys with
  | nil => simp [validKeys]
  | cons key keys ih => simp [validKeys, ih]

theorem keysHaveNoNaN_iff {keys : List IDBKeyData} :
    keysHaveNoNaN keys = true ↔ ∀ key ∈ keys, key.hasNoNaN = true := by
  induction keys with
  | nil => simp [keysHaveNoNaN]
  | cons key keys ih => simp [keysHaveNoNaN, ih]

theorem comparable_of_valid : ∀ key : IDBKeyData, key.isValid = true → key.hasNoNaN = true → key.Comparable
  | .null, valid, _ | .invalid, valid, _ | .deletedValue, valid, _ => by simp [isValid] at valid
  | .minimum, _, _ => .minimum
  | .maximum, _, _ => .maximum
  | .number bits, _, real => .number bits (by simpa [hasNoNaN] using real)
  | .date bits, _, real => .date bits (by simpa [hasNoNaN] using real)
  | .string value, _, _ => .string value
  | .binary value, _, _ => .binary value
  | .array keys, valid, real => by
    have valid : ∀ key ∈ keys, key.isValid = true := validKeys_iff.mp (by simpa [isValid] using valid)
    have real : ∀ key ∈ keys, key.hasNoNaN = true := keysHaveNoNaN_iff.mp (by simpa [hasNoNaN] using real)
    exact .array keys fun key member => comparable_of_valid key (valid key member) (real key member)

theorem compareKeys_eq (keys others : List IDBKeyData) :
    compareKeys keys others = compareLists compare keys others := by
  induction keys generalizing others with
  | nil => cases others <;> simp [compareKeys, compareLists]
  | cons key keys ih => cases others <;> simp [compareKeys, compareLists, ih]

/-- The place of a type from above; `compare` puts the invalid keys below all others. -/
def rank : KeyType → Int
  | .Invalid => 7
  | type => type.toInt

theorem rank_injective {first second : KeyType} (same : rank first = rank second) : first = second := by
  revert same
  cases first <;> cases second <;> decide

theorem rank_of_valid {key : IDBKeyData} (valid : key.isValid = true) : rank key.type = key.type.toInt := by
  cases key <;> first | rfl | simp [isValid] at valid

theorem doubles_ranked {x y : UInt64} (realX : isNaN x = false) (realY : isNaN y = false) :
    (if doubleEqual x y then 0 else if doubleLess y x then 1 else -1 : Int) =
      threeWay (doubleRank x) (doubleRank y) := by
  simp only [threeWay, doubleEqual, doubleLess, realX, realY, Bool.not_false, Bool.true_and, decide_eq_true_eq]
  split <;> split <;> (try split) <;> omega

mutual

def normalise (replace : WTFString → WTFString) : IDBKeyData → IDBKeyData
  | .number bits => .number (positiveZero bits)
  | .date bits => .date (positiveZero bits)
  | .string value => .string (replace value)
  | .array keys => .array (normaliseKeys replace keys)
  | .binary value => .binary value
  | .null => .null
  | .invalid => .invalid
  | .deletedValue => .deletedValue
  | .minimum => .minimum
  | .maximum => .maximum

def normaliseKeys (replace : WTFString → WTFString) : List IDBKeyData → List IDBKeyData
  | [] => []
  | key :: keys => key.normalise replace :: normaliseKeys replace keys

end

def canonical : IDBKeyData → IDBKeyData := normalise (fun value => some (value.getD []))

def unsignedZeros : IDBKeyData → IDBKeyData := normalise id

theorem normaliseKeys_eq_map (replace : WTFString → WTFString) (keys : List IDBKeyData) :
    normaliseKeys replace keys = keys.map (normalise replace) := by
  induction keys with
  | nil => rfl
  | cons key keys ih => simp [normaliseKeys, ih]

theorem doubles_eq_zero {x y : UInt64} (realX : isNaN x = false) (realY : isNaN y = false) :
    (if doubleEqual x y then 0 else if doubleLess y x then 1 else -1 : Int) = 0 ↔
      positiveZero x = positiveZero y := by
  rw [doubles_ranked realX realY, threeWay_eq_zero, doubleRank_eq_iff]

theorem codePointCompare_eq_zero (x y : WTFString) : codePointCompare x y = 0 ↔ x.getD [] = y.getD [] := by
  have each : ∀ u v : UInt16, (if u = v then 0 else if u > v then 1 else -1 : Int) = 0 ↔ id u = id v := by
    intro u v
    rw [compareUnits_rank, threeWay_eq_zero, Int.ofNat_inj, UInt16.toNat_inj, id, id]
  have lists := compareLists_eq_zero (x.getD []) (y.getD []) (fun u _ v _ => each u v)
  rw [List.map_id, List.map_id] at lists
  rw [codePointCompare_eq]
  exact lists

theorem compareBinaryKeyData_eq_zero (x y : ThreadSafeDataBuffer) : compareBinaryKeyData x y = 0 ↔ x = y := by
  have each : ∀ u v : UInt8, (if u > v then 1 else if u < v then -1 else 0 : Int) = 0 ↔ id u = id v := by
    intro u v
    rw [compareBytes_rank, threeWay_eq_zero, Int.ofNat_inj, UInt8.toNat_inj, id, id]
  cases x with
  | none => cases y <;> simp [compareBinaryKeyData]
  | some data =>
    cases y with
    | none => simp [compareBinaryKeyData]
    | some other =>
      have lists := compareLists_eq_zero data other (fun u _ v _ => each u v)
      rw [List.map_id, List.map_id] at lists
      rw [some.injEq]
      exact lists

theorem normalise_type (replace : WTFString → WTFString) (key : IDBKeyData) :
    (key.normalise replace).type = key.type := by
  cases key <;> simp [normalise, type]

theorem type_eq_of_normalise {replace : WTFString → WTFString} {key other : IDBKeyData}
    (same : key.normalise replace = other.normalise replace) : key.type = other.type := by
  rw [← normalise_type replace key, same, normalise_type]

mutual

def code : IDBKeyData → List Int
  | .number bits => [-5, doubleRank bits]
  | .date bits => [-4, doubleRank bits]
  | .string value => -3 :: stringCode value
  | .binary value => -2 :: binaryCode value
  | .array keys => -1 :: codes keys
  | .minimum => [-6]
  | .maximum => [1]
  | .null | .invalid | .deletedValue => [-7]

def codes : List IDBKeyData → List Int
  | [] => [0]
  | key :: keys => 1 :: (key.code ++ codes keys)

end

theorem codes_eq (keys : List IDBKeyData) : codes keys = listCode code keys := by
  induction keys with
  | nil => rfl
  | cons key keys ih => simp [codes, listCode, ih]

theorem code_type (key : IDBKeyData) : ∃ payload, key.code = -rank key.type :: payload := by
  cases key <;> exact ⟨_, rfl⟩

section Pairs

variable {key other : IDBKeyData}

theorem compare_of_type_ne (different : key.type ≠ other.type) :
    key.compare other = threeWay (-rank key.type) (-rank other.type) := by
  unfold compare
  rw [if_pos different]
  generalize key.type = first at different ⊢
  generalize other.type = second at different ⊢
  revert different
  cases first <;> cases second <;> decide

theorem compare_eq_zero_iff_of_type_ne (different : key.type ≠ other.type) :
    key.compare other = 0 ↔ key.canonical = other.canonical := by
  constructor
  · intro zero
    rw [compare_of_type_ne different, threeWay_eq_zero, neg_inj] at zero
    exact absurd (rank_injective zero) different
  · intro same
    exact absurd (type_eq_of_normalise same) different

variable (comparable : key.Comparable) (comparableOther : other.Comparable)
include comparable comparableOther

@[elab_as_elim]
theorem Comparable.pairwise {motive : IDBKeyData → IDBKeyData → Prop}
    (apart : ∀ {x y}, x.type ≠ y.type → motive x y) (invalid : motive .invalid .invalid)
    (minimum : motive .minimum .minimum) (maximum : motive .maximum .maximum)
    (double : ∀ {x y}, isNaN x = false → isNaN y = false →
      motive (.number x) (.number y) ∧ motive (.date x) (.date y))
    (string : ∀ x y, motive (.string x) (.string y)) (binary : ∀ x y, motive (.binary x) (.binary y))
    (array : ∀ {keys others}, (∀ x ∈ keys, ∀ y ∈ others, motive x y) →
      motive (.array keys) (.array others)) : motive key other := by
  by_cases types : key.type = other.type
  · induction comparable generalizing other with
    | invalid => cases comparableOther <;> first | exact invalid | cases types
    | minimum => cases comparableOther <;> first | exact minimum | cases types
    | maximum => cases comparableOther <;> first | exact maximum | cases types
    | number bits real => cases comparableOther <;> first | exact (double real ‹_›).1 | cases types
    | date bits real => cases comparableOther <;> first | exact (double real ‹_›).2 | cases types
    | string value => cases comparableOther <;> first | exact string _ _ | cases types
    | binary value => cases comparableOther <;> first | exact binary _ _ | cases types
    | array keys members ih =>
      cases comparableOther with
      | array others comparableOthers =>
        refine array fun x memberX y memberY => ?_
        by_cases same : x.type = y.type
        · exact ih x memberX (comparableOthers y memberY) same
        · exact apart same
      | _ => cases types
  · exact apart types

theorem compare_encodes : Encodes compare code key other := by
  refine comparable.pairwise comparableOther ?apart (fun _ _ => threeWay_cons ..) (fun _ _ => threeWay_cons ..)
    (fun _ _ => threeWay_cons ..) ?double ?string ?binary ?array
  case apart =>
    intro x y different rest others
    rcases x.code_type with ⟨first, codeX⟩
    rcases y.code_type with ⟨second, codeY⟩
    have ranks : threeWay (-rank x.type) (-rank y.type) ≠ 0 := by
      rw [Ne, threeWay_eq_zero, neg_inj]
      exact fun same => different (rank_injective same)
    rw [compare_of_type_ne different, codeX, codeY, cons_append, cons_append, threeWay_cons, if_pos ranks, if_pos ranks]
  case double =>
    intro x y realX realY
    have ranked : Encodes (fun x y => if doubleEqual x y then 0 else if doubleLess y x then 1 else -1)
        (fun bits => [doubleRank bits]) x y := encodes_rank doubleRank (doubles_ranked realX realY)
    exact ⟨ranked.tagged (-5), ranked.tagged (-4)⟩
  case string => exact fun x y => (codePointCompare_encodes x y).tagged (-3)
  case binary => exact fun x y => (compareBinaryKeyData_encodes x y).tagged (-2)
  case array =>
    intro keys others each first second
    have same : (array keys).compare (array others) = compareLists compare keys others := compareKeys_eq ..
    rw [same, code, code, codes_eq, codes_eq]
    exact (encodes_lists keys others each).tagged (-1) first second

theorem Comparable.compare_eq : key.compare other = threeWay key.code other.code :=
  (compare_encodes comparable comparableOther).compare_eq

theorem compare_eq_zero_iff : key.compare other = 0 ↔ key.canonical = other.canonical := by
  refine comparable.pairwise comparableOther compare_eq_zero_iff_of_type_ne (iff_of_true rfl rfl)
    (iff_of_true rfl rfl) (iff_of_true rfl rfl) ?double ?string ?binary ?array
  case double =>
    intro x y realX realY
    simp only [canonical, normalise, number.injEq, date.injEq]
    exact ⟨doubles_eq_zero realX realY, doubles_eq_zero realX realY⟩
  case string =>
    intro x y
    simp only [canonical, normalise, string.injEq, some.injEq]
    exact codePointCompare_eq_zero x y
  case binary =>
    intro x y
    simp only [canonical, normalise, binary.injEq]
    exact compareBinaryKeyData_eq_zero x y
  case array =>
    intro keys others each
    simp only [canonical, normalise, array.injEq, normaliseKeys_eq_map]
    have lists := compareLists_eq_zero keys others each
    rw [← compareKeys_eq] at lists
    exact lists

end Pairs

theorem positiveZero_positiveZero (bits : UInt64) : positiveZero (positiveZero bits) = positiveZero bits := by
  by_cases minus : bits = 0x8000000000000000 <;> simp [positiveZero, minus]

theorem Comparable.normalise_unsignedZeros {key : IDBKeyData} (comparable : key.Comparable)
    (replace : WTFString → WTFString) : key.unsignedZeros.normalise replace = key.normalise replace := by
  induction comparable with
  | array keys members ih =>
    simp only [unsignedZeros, normalise, normaliseKeys_eq_map, List.map_map]
    exact congrArg IDBKeyData.array (map_congr_left ih)
  | _ => simp [unsignedZeros, normalise, positiveZero_positiveZero]

mutual

/-- The comparison of two keys by `==` comes to a buffer on the left and a null buffer on the right. -/
def DereferencesNull : IDBKeyData → IDBKeyData → Prop
  | .binary (some _), .binary none => True
  | .array keys, .array others => keys.length = others.length ∧ KeysDereferenceNull keys others
  | _, _ => False

def KeysDereferenceNull : List IDBKeyData → List IDBKeyData → Prop
  | key :: keys, other :: others => key.DereferencesNull other ∨
    key.unsignedZeros = other.unsignedZeros ∧ KeysDereferenceNull keys others
  | _, _ => False

end

structure EqualSpec (key other : IDBKeyData) (result : Option Bool) : Prop where
  undefined : result = none ↔ key.DereferencesNull other
  true_iff : result = some true ↔ key.unsignedZeros = other.unsignedZeros

theorem equalKeys_spec {keys others : List IDBKeyData} (lengths : keys.length = others.length)
    (each : ∀ key ∈ keys, ∀ other ∈ others, EqualSpec key other (key.equal other)) :
    (equalKeys keys others = none ↔ KeysDereferenceNull keys others) ∧
      (equalKeys keys others = some true ↔ keys.map unsignedZeros = others.map unsignedZeros) := by
  induction keys generalizing others with
  | nil =>
    cases others with
    | nil => simp [equalKeys, KeysDereferenceNull]
    | cons other others => cases lengths
  | cons key keys ih =>
    cases others with
    | nil => cases lengths
    | cons other others =>
      obtain ⟨head, tails⟩ := forall_pairs_cons each
      have tail := ih (Nat.succ.inj lengths) tails
      simp only [equalKeys, KeysDereferenceNull, map_cons, cons.injEq]
      rw [← head.undefined, ← head.true_iff, ← tail.1, ← tail.2]
      cases outcome : key.equal other with
      | none => simp
      | some same => cases same <;> simp

variable {key other : IDBKeyData}

theorem DereferencesNull.types (dereferences : key.DereferencesNull other) : key.type = other.type := by
  unfold DereferencesNull at dereferences
  split at dereferences
  · rfl
  · rfl
  · exact dereferences.elim

theorem equal_spec_of_type_ne (different : key.type ≠ other.type) : EqualSpec key other (key.equal other) := by
  have unequal : key.equal other = some false := by
    unfold equal
    simp [different]
  rw [unequal]
  exact ⟨iff_of_false nofun (fun dereferences => different dereferences.types),
    iff_of_false nofun (fun same => different (type_eq_of_normalise same))⟩

theorem doubleEqual_iff {x y : UInt64} (realX : isNaN x = false) (realY : isNaN y = false) :
    doubleEqual x y = true ↔ positiveZero x = positiveZero y := by
  rw [← doubleRank_eq_iff]
  simp [doubleEqual, realX, realY]

mutual

def hasNoNullString : IDBKeyData → Bool
  | .string value => value.isSome
  | .array keys => keysHaveNoNullString keys
  | _ => true

def keysHaveNoNullString : List IDBKeyData → Bool
  | [] => true
  | key :: keys => key.hasNoNullString && keysHaveNoNullString keys

end

end IDBKeyData

inductive HashTree where
  | unsigned (value : UInt32)
  | double (bits : UInt64)
  | string (units : List UInt16)
  | bytes (data : List UInt8)
  | codes (trees : List HashTree)

def freeHasher : MemoryHasher HashTree := ⟨.unsigned, .double, .string, .bytes, .codes⟩

namespace IDBKeyData

variable {Code : Type}

mutual

theorem hash_isSome (hasher : MemoryHasher Code) : ∀ key : IDBKeyData, (key.hash hasher).isSome = key.hasNoNullString
  | .array keys => by
    have members := hashKeys_isSome hasher keys
    unfold hash hasNoNullString
    rw [← members, isSome_map]
  | .string none | .string (some _) | .binary none | .binary (some _) => rfl
  | .number _ | .date _ | .null | .invalid | .deletedValue | .minimum | .maximum => rfl

theorem hashKeys_isSome (hasher : MemoryHasher Code) : ∀ keys : List IDBKeyData,
    (hashKeys hasher keys).isSome = keysHaveNoNullString keys
  | [] => rfl
  | key :: keys => by
    have head := hash_isSome hasher key
    have tail := hashKeys_isSome hasher keys
    simp only [hashKeys, keysHaveNoNullString, ← head, ← tail]
    cases key.hash hasher <;> cases hashKeys hasher keys <;> rfl

end
variable {key other : IDBKeyData} {tree : HashTree} {created : IDBKey}

theorem hash_type (hashed : key.hash freeHasher = some tree) :
    ∃ payload, tree = .codes (.unsigned (UInt32.ofInt key.type.toInt) :: payload) := by
  unfold hash at hashed
  rcases map_eq_some_iff.mp hashed with ⟨payload, _, made⟩
  exact ⟨_, made.symm⟩

theorem type_eq_of_hash (hashed : key.hash freeHasher = some tree)
    (hashedOther : other.hash freeHasher = some tree) : key.type = other.type := by
  rcases hash_type hashed with ⟨first, rfl⟩
  rcases hash_type hashedOther with ⟨second, same⟩
  simp only [HashTree.codes.injEq, cons.injEq, HashTree.unsigned.injEq] at same
  have codes := same.1
  generalize key.type = firstType at codes ⊢
  generalize other.type = secondType at codes ⊢
  revert codes
  cases firstType <;> cases secondType <;> decide

theorem forall₂_of_collect {α β : Type} {one : α → Option β} {all : List α → Option (List β)} {list : List α}
    {collected : List β} (made : all list = some collected) (nil : all [] = some [])
    (cons : ∀ first rest, all (first :: rest) = do return (← one first) :: (← all rest)) :
    Forall₂ (one · = some ·) list collected := by
  induction list generalizing collected with
  | nil =>
    cases nil.symm.trans made
    exact .nil
  | cons first rest ih =>
    simp only [cons, bind_eq_bind, bind_eq_some_iff] at made
    obtain ⟨_, head, _, tail, done⟩ := made
    cases done
    exact .cons head (ih tail)

theorem hashKeys_injective {keys others : List IDBKeyData} {trees : List HashTree}
    (each : ∀ key ∈ keys, ∀ other ∈ others, ∀ tree, key.hash freeHasher = some tree →
      other.hash freeHasher = some tree → key = other) (hashed : hashKeys freeHasher keys = some trees)
    (hashedOthers : hashKeys freeHasher others = some trees) : keys = others := by
  replace hashed := forall₂_of_collect hashed rfl fun _ _ => rfl
  replace hashedOthers := forall₂_of_collect hashedOthers rfl fun _ _ => rfl
  induction hashed generalizing others with
  | nil =>
    cases hashedOthers
    rfl
  | cons head tail ih =>
    cases hashedOthers with
    | cons headOther tailOther =>
      obtain ⟨first, rest⟩ := forall_pairs_cons each
      rw [first _ head headOther]
      congr 1
      exact ih rest tailOther

/-- The outcome of `==`, the hash and `compare` agree on whether two keys are the same one; the hash is
    the same however memory is hashed. -/
structure Agrees (key other : IDBKeyData) : Prop where
  equal : key.equal other = some (decide (key.compare other = 0))
  hash : key.equal other = some true → ∀ (Code : Type) (hasher : MemoryHasher Code),
    ∃ code, key.hash hasher = some code ∧ other.hash hasher = some code

/-- The keys do not differ only in signs of zeros or in null strings, there is no null string in two
    equal ones, and `==` does not come to a null buffer. -/
def Distinguishable (key other : IDBKeyData) : Prop :=
  (key.canonical = other.canonical → key = other ∧ key.hasNoNullString = true) ∧
    ¬ key.DereferencesNull other

theorem maybeCreateIDBKey_type (made : key.maybeCreateIDBKey = some created) : created.type = key.type := by
  cases key with
  | array keys =>
    rcases map_eq_some_iff.mp made with ⟨_, _, rfl⟩
    rfl
  | _ => cases made <;> rfl

theorem compare_created_keys {keys others : List IDBKeyData} {created createdOthers : List IDBKey}
    (each : ∀ key ∈ keys, ∀ other ∈ others, ∀ first second, key.maybeCreateIDBKey = some first →
      other.maybeCreateIDBKey = some second → first.compare second = key.compare other)
    (made : createIDBKeys keys = some created) (madeOthers : createIDBKeys others = some createdOthers) :
    IDBKey.compareKeys created createdOthers = compareKeys keys others := by
  replace made := forall₂_of_collect made rfl fun _ _ => rfl
  replace madeOthers := forall₂_of_collect madeOthers rfl fun _ _ => rfl
  induction made generalizing others createdOthers with
  | nil => cases madeOthers <;> simp [IDBKey.compareKeys, compareKeys]
  | cons head tail ih =>
    cases madeOthers with
    | nil => simp [IDBKey.compareKeys, compareKeys]
    | cons headOther tailOther =>
      obtain ⟨first, rest⟩ := forall_pairs_cons each
      simp only [IDBKey.compareKeys, compareKeys, first _ _ head headOther, ih rest tailOther]

variable (comparable : key.Comparable) (comparableOther : other.Comparable)
include comparable comparableOther

theorem equal_spec : EqualSpec key other (key.equal other) := by
  have decided : ∀ {x y : IDBKeyData} {answer : Bool}, x.equal y = some answer → ¬ x.DereferencesNull y →
      (answer = true ↔ x.unsignedZeros = y.unsignedZeros) → EqualSpec x y (x.equal y) := by
    intro x y answer result defined same
    rw [result]
    exact ⟨iff_of_false nofun defined, by rw [some.injEq, same]⟩
  refine comparable.pairwise comparableOther equal_spec_of_type_ne (decided rfl id (by simp))
    (decided rfl id (by simp)) (decided rfl id (by simp)) ?double ?string ?binary ?array
  case double =>
    intro x y realX realY
    have same := doubleEqual_iff realX realY
    exact ⟨decided rfl id (by simp [unsignedZeros, normalise, same]),
      decided rfl id (by simp [unsignedZeros, normalise, same])⟩
  case string =>
    intro x y
    have result : (string x).equal (string y) = some (decide (x = y)) := rfl
    exact decided result id (by simp [unsignedZeros, normalise])
  case binary =>
    intro x y
    show EqualSpec _ _ (bufferEqual x y)
    refine ⟨?_, ?_⟩
    · cases x <;> cases y <;> simp [bufferEqual, DereferencesNull]
    · cases x <;> cases y <;> simp [bufferEqual, unsignedZeros, normalise]
  case array =>
    intro keys others each
    have zeros : (array keys).unsignedZeros = (array others).unsignedZeros ↔
        keys.map unsignedZeros = others.map unsignedZeros := by
      rw [unsignedZeros, normalise, normalise, array.injEq, normaliseKeys_eq_map, normaliseKeys_eq_map]
    have result : (array keys).equal (array others) =
        if keys.length ≠ others.length then some false else equalKeys keys others := rfl
    by_cases lengths : keys.length = others.length
    · rw [result, if_neg (by omega)]
      rcases equalKeys_spec lengths each with ⟨undefined, trueIff⟩
      refine ⟨?_, trueIff.trans zeros.symm⟩
      rw [undefined]
      simp [DereferencesNull, lengths]
    · rw [if_pos lengths] at result
      refine decided result (fun dereferences => lengths dereferences.1) (iff_of_false nofun ?_)
      intro same
      have sameLength := congrArg length (zeros.mp same)
      rw [length_map, length_map] at sameLength
      exact lengths sameLength

theorem hash_injective : ∀ tree, key.hash freeHasher = some tree → other.hash freeHasher = some tree → key = other := by
  refine comparable.pairwise comparableOther ?apart (fun _ _ _ => rfl) (fun _ _ _ => rfl)
    (fun _ _ _ => rfl) ?double ?string ?binary ?array
  case apart =>
    intro x y different tree hashed hashedOther
    exact absurd (type_eq_of_hash hashed hashedOther) different
  case double =>
    intro x y _ _
    constructor
    all_goals
      intro tree hashed hashedOther
      cases hashed
      cases hashedOther
      rfl
  case string =>
    intro x y tree hashed hashedOther
    cases x <;> cases y <;> cases hashed <;> cases hashedOther
    rfl
  case binary =>
    intro x y tree hashed hashedOther
    cases x <;> cases y <;> cases hashed <;> cases hashedOther <;> rfl
  case array =>
    intro keys others each tree hashed hashedOther
    rcases map_eq_some_iff.mp hashed with ⟨trees, first, rfl⟩
    rcases map_eq_some_iff.mp hashedOther with ⟨otherTrees, second, made⟩
    cases made
    rw [hashKeys_injective each first second]

theorem agrees_iff_distinguishable : key.Agrees other ↔ key.Distinguishable other := by
  have zero := compare_eq_zero_iff comparable comparableOther
  have spec := equal_spec comparable comparableOther
  constructor
  · intro agrees
    refine ⟨?_, ?_⟩
    · intro same
      have equal : key.equal other = some true := by
        rw [agrees.equal, decide_eq_true (zero.mpr same)]
      rcases agrees.hash equal HashTree freeHasher with ⟨tree, hashed, hashedOther⟩
      refine ⟨hash_injective comparable comparableOther tree hashed hashedOther, ?_⟩
      rw [← hash_isSome freeHasher key, hashed, isSome_some]
    · intro dereferences
      have undefined := spec.undefined.mpr dereferences
      rw [agrees.equal] at undefined
      cases undefined
  · rintro ⟨separate, defined⟩
    have outcome : key.equal other = some (decide (key.compare other = 0)) := by
      cases result : key.equal other with
      | none => exact absurd (spec.undefined.mp result) defined
      | some same =>
        rw [result] at spec
        have decided : same = true ↔ key.compare other = 0 := by
          rw [zero]
          constructor
          · intro equal
            rw [equal] at spec
            rw [canonical, ← comparable.normalise_unsignedZeros, spec.true_iff.mp rfl,
              comparableOther.normalise_unsignedZeros]
          · intro equal
            rcases separate equal with ⟨rfl, _⟩
            exact some.inj (spec.true_iff.mpr rfl)
        rw [some.injEq, Bool.eq_iff_iff, decided, decide_eq_true_eq]
    refine ⟨outcome, ?_⟩
    intro equal Code hasher
    rw [outcome, some.injEq, decide_eq_true_eq, zero] at equal
    rcases separate equal with ⟨rfl, noNull⟩
    rw [← hash_isSome hasher key] at noNull
    rcases isSome_iff_exists.mp noNull with ⟨code, hashed⟩
    exact ⟨code, hashed, hashed⟩

theorem compare_created : key.isValid = true → other.isValid = true → ∀ created createdOther,
      key.maybeCreateIDBKey = some created → other.maybeCreateIDBKey = some createdOther →
      created.compare createdOther = key.compare other := by
  refine comparable.pairwise comparableOther ?apart ?invalid ?minimum ?maximum ?double ?string ?binary ?array
  case apart =>
    intro x y different valid validOther created createdOther made madeOther
    have ranks : rank x.type ≠ rank y.type := fun same => different (rank_injective same)
    rw [rank_of_valid valid, rank_of_valid validOther] at ranks
    rw [compare_of_type_ne different, rank_of_valid valid, rank_of_valid validOther]
    unfold IDBKey.compare threeWay
    rw [maybeCreateIDBKey_type made, maybeCreateIDBKey_type madeOther, if_pos different]
    split_ifs <;> omega
  case double =>
    intro x y realX realY
    have ranked : (if doubleLess x y then -1 else if doubleLess y x then 1 else 0 : Int) =
        threeWay (doubleRank x) (doubleRank y) := by
      simp [threeWay, doubleLess, realX, realY]
    rw [← doubles_ranked realX realY] at ranked
    constructor
    all_goals
      intro _ _ created createdOther made madeOther
      cases made
      cases madeOther
      simpa only [IDBKey.compare, IDBKey.type, compare, type, ne_eq, not_true_eq_false, if_false, reduceCtorEq]
        using ranked
  case string =>
    intro x y _ _ created createdOther made madeOther
    cases made
    cases madeOther
    show -codePointCompare y x = codePointCompare x y
    rw [(codePointCompare_encodes x y).compare_eq, (codePointCompare_encodes y x).compare_eq, threeWay_swap, neg_neg]
  case array =>
    intro keys others each valid validOthers created createdOther made madeOther
    rcases map_eq_some_iff.mp made with ⟨firsts, madeKeys, rfl⟩
    rcases map_eq_some_iff.mp madeOther with ⟨seconds, madeOthers, rfl⟩
    have valid : ∀ key ∈ keys, key.isValid = true := validKeys_iff.mp (by simpa [isValid] using valid)
    have validOthers : ∀ key ∈ others, key.isValid = true := validKeys_iff.mp (by simpa [isValid] using validOthers)
    exact compare_created_keys (fun x memberX y memberY =>
      each x memberX y memberY (valid x memberX) (validOthers y memberY)) madeKeys madeOthers
  case binary =>
    intro x y _ _ created createdOther made madeOther
    cases made
    cases madeOther
    rfl
  case invalid | minimum | maximum =>
    intro _ _ created createdOther made madeOther
    cases made <;> cases madeOther <;> rfl

end IDBKeyData

open IDBKeyData in
/-- `compare` orders the valid keys without NaN, by type first, and so does the comparison of the keys
    that are made from them; equality and hash go with the order exactly for distinguishable keys. -/
theorem compare_orders_keys (first second third : IDBKeyData)
    (valid : ∀ key ∈ [first, second, third], key.isValid = true ∧ key.hasNoNaN = true) :
    second.compare first = -first.compare second ∧
      (first.compare second ≤ 0 → second.compare third ≤ 0 → first.compare third ≤ 0) ∧
      (second.type.toInt < first.type.toInt → first.compare second = -1) ∧
      (∀ key other, first.maybeCreateIDBKey = some key → second.maybeCreateIDBKey = some other →
        key.compare other = first.compare second) ∧
      (first.Agrees second ↔ first.Distinguishable second) := by
  have comparable : ∀ key ∈ [first, second, third], key.Comparable :=
    fun key member => comparable_of_valid key (valid key member).1 (valid key member).2
  have comparableFirst := comparable first (by simp)
  have comparableSecond := comparable second (by simp)
  have comparableThird := comparable third (by simp)
  refine ⟨?_, ?_, ?_, ?_, agrees_iff_distinguishable comparableFirst comparableSecond⟩
  · rw [comparableFirst.compare_eq comparableSecond, comparableSecond.compare_eq comparableFirst, threeWay_swap]
  · rw [comparableFirst.compare_eq comparableSecond, comparableSecond.compare_eq comparableThird,
      comparableFirst.compare_eq comparableThird, threeWay_nonpos, threeWay_nonpos, threeWay_nonpos]
    exact le_trans
  · intro later
    have types : first.type ≠ second.type := by
      intro same
      rw [same] at later
      omega
    rw [compare_of_type_ne types, rank_of_valid (valid first (by simp)).1, rank_of_valid (valid second (by simp)).1]
    exact if_pos (by omega)
  · intro key other made madeOther
    exact compare_created comparableFirst comparableSecond (valid first (by simp)).1 (valid second (by simp)).1
      key other made madeOther

open IDBKeyData in
theorem compare_orders_number_string_array : (number 0x3FF0000000000000).compare (string (some [97])) = -1 ∧
      (string (some [97])).compare (array [minimum, string (some [])]) = -1 ∧
      (number 0x3FF0000000000000).compare (array [minimum, string (some [])]) ≤ 0 ∧
      (number 0x3FF0000000000000).Agrees (string (some [97])) := by
  have orders := compare_orders_keys (number 0x3FF0000000000000) (string (some [97]))
    (array [minimum, string (some [])]) (by decide +kernel)
  have ascending : (number 0x3FF0000000000000).compare (string (some [97])) = -1 ∧
      (string (some [97])).compare (array [minimum, string (some [])]) = -1 := by decide +kernel
  refine ⟨ascending.1, ascending.2, orders.2.1 (by omega) (by omega), orders.2.2.2.2.mpr ⟨?_, ?_⟩⟩
  · intro same
    cases type_eq_of_normalise same
  · intro dereferences
    cases dereferences.types

open IDBKeyData in
theorem zeros_differ_in_hash : (number 0).isValid = true ∧ (number 0).hasNoNaN = true ∧
      (number 0x8000000000000000).isValid = true ∧ (number 0x8000000000000000).hasNoNaN = true ∧
      (number 0).compare (number 0x8000000000000000) = 0 ∧
      (number 0).equal (number 0x8000000000000000) = some true ∧
      (number 0).hash littleEndianHasher ≠ (number 0x8000000000000000).hash littleEndianHasher ∧
      (string none).compare (string (some [])) = 0 ∧
      (string none).equal (string (some [])) = some false := by
  decide +kernel

end Odyssey.IndexedDB
