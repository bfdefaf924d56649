import Mathlib.Data.List.ReduceOption

namespace Odyssey.Containers

open List Option

variable {K V : Type*} (same : K → K → Bool) (key : K)

/-- A list of entries in the order of their insertion: a key that is there keeps its place. -/
def setEntry (value : V) : List (K × V) → List (K × V)
  | [] => [(key, value)]
  | (other, old) :: rest =>
    if same key other then (other, value) :: rest else (other, old) :: setEntry value rest

def deleteEntry : List (K × V) → List (K × V) × Bool
  | [] => ([], false)
  | (other, old) :: rest =>
    if same key other then (rest, true)
    else ((other, old) :: (deleteEntry rest).1, (deleteEntry rest).2)

def lookupEntry (entries : List (K × V)) : Option V :=
  (entries.find? (same key ·.1)).map Prod.snd

/-- A list of records that only grows: the record of an entry that was deleted is empty. -/
def setRecord (value : V) : List (Option (K × V)) → List (Option (K × V))
  | [] => [some (key, value)]
  | none :: rest => none :: setRecord value rest
  | some (other, old) :: rest =>
    if same key other then some (other, value) :: rest else some (other, old) :: setRecord value rest

def deleteRecord : List (Option (K × V)) → List (Option (K × V)) × Bool
  | [] => ([], false)
  | none :: rest => (none :: (deleteRecord rest).1, (deleteRecord rest).2)
  | some (other, old) :: rest =>
    if same key other then (none :: rest, true)
    else (some (other, old) :: (deleteRecord rest).1, (deleteRecord rest).2)

def clearRecords (records : List (Option (K × V))) : List (Option (K × V)) :=
  records.map (fun _ => none)

def scanRecords : List (Option (K × V)) → Nat → Option (Nat × K × V)
  | [], _ => none
  | none :: rest, index => scanRecords rest (index + 1)
  | some entry :: _, index => some (index + 1, entry)

def nextRecord (records : List (Option (K × V))) (index : Nat) : Option (Nat × K × V) :=
  scanRecords (records.drop index) index

variable {same key} {value : V}

theorem map_filter_isSome {α β : Type*} (read : α → Option β) (items : List α) :
    (items.filter (fun item => (read item).isSome)).map read = (items.filterMap read).map some := by
  induction items with
  | nil => rfl
  | cons item rest ih =>
    cases found : read item with
    | none =>
      rw [filter_cons, filterMap_cons, found]
      exact ih
    | some value =>
      rw [filter_cons, filterMap_cons, found]
      exact congrArg₂ cons found ih

variable (records : List (Option (K × V)))

theorem reduceOption_setRecord :
    (setRecord same key value records).reduceOption = setEntry same key value records.reduceOption := by
  induction records with
  | nil => rfl
  | cons record rest ih =>
    rcases record with _ | ⟨other, old⟩
    · rw [setRecord, reduceOption_cons_of_none, reduceOption_cons_of_none, ih]
    · rw [setRecord, reduceOption_cons_of_some, setEntry]
      split
      · rw [reduceOption_cons_of_some]
      · rw [reduceOption_cons_of_some, ih]

theorem reduceOption_deleteRecord :
    (deleteRecord same key records).1.reduceOption = (deleteEntry same key records.reduceOption).1 ∧
      (deleteRecord same key records).2 = (deleteEntry same key records.reduceOption).2 := by
  induction records with
  | nil => exact ⟨rfl, rfl⟩
  | cons record rest ih =>
    rcases record with _ | ⟨other, old⟩
    · exact ih
    · rw [deleteRecord, reduceOption_cons_of_some, deleteEntry]
      split
      · exact ⟨reduceOption_cons_of_none _, rfl⟩
      · rw [reduceOption_cons_of_some, ih.1]
        exact ⟨rfl, ih.2⟩

theorem reduceOption_clearRecords : (clearRecords records).reduceOption = [] := by
  induction records with
  | nil => rfl
  | cons record rest ih => exact (reduceOption_cons_of_none _).trans ih

def Lacks (same : K → K → Bool) (key : K) (records : List (Option (K × V))) : Prop :=
  ∀ entry, some entry ∈ records → same key entry.1 = false

theorem Lacks.tail {record : Option (K × V)} {rest : List (Option (K × V))}
    (lacks : Lacks same key (record :: rest)) : Lacks same key rest :=
  fun entry member => lacks entry (mem_cons_of_mem _ member)

variable {front records : List (Option (K × V))}

theorem setRecord_append (lacks : Lacks same key front) (back : List (Option (K × V))) :
    setRecord same key value (front ++ back) = front ++ setRecord same key value back := by
  induction front with
  | nil => rfl
  | cons record rest ih =>
    rcases record with _ | ⟨other, old⟩
    · rw [cons_append, setRecord, ih lacks.tail]
      rfl
    · rw [cons_append, setRecord, lacks (other, old) mem_cons_self, ih lacks.tail]
      rfl

theorem deleteRecord_append (lacks : Lacks same key front) (back : List (Option (K × V))) :
    deleteRecord same key (front ++ back) =
      (front ++ (deleteRecord same key back).1, (deleteRecord same key back).2) := by
  induction front with
  | nil => rfl
  | cons record rest ih =>
    rcases record with _ | ⟨other, old⟩
    · rw [cons_append, deleteRecord, ih lacks.tail]
      rfl
    · rw [cons_append, deleteRecord, lacks (other, old) mem_cons_self, ih lacks.tail]
      rfl

theorem setRecord_of_lacks (lacks : Lacks same key records) :
    setRecord same key value records = records ++ [some (key, value)] := by
  have appended : setRecord same key value (records ++ []) = records ++ setRecord same key value [] :=
    setRecord_append lacks []
  rwa [append_nil] at appended

theorem deleteRecord_of_lacks (lacks : Lacks same key records) : deleteRecord same key records = (records, false) := by
  have appended := deleteRecord_append lacks []
  rw [append_nil] at appended
  rw [appended, deleteRecord, append_nil]

theorem length_le_setRecord (records : List (Option (K × V))) :
    records.length ≤ (setRecord same key value records).length := by
  induction records with
  | nil => exact Nat.zero_le 1
  | cons record rest ih =>
    rcases record with _ | ⟨other, old⟩
    · exact Nat.succ_le_succ ih
    · rw [setRecord]
      split
      · exact Nat.le_refl _
      · exact Nat.succ_le_succ ih

theorem length_deleteRecord (records : List (Option (K × V))) :
    (deleteRecord same key records).1.length = records.length := by
  induction records with
  | nil => rfl
  | cons record rest ih =>
    rcases record with _ | ⟨other, old⟩
    · exact congrArg Nat.succ ih
    · rw [deleteRecord]
      split
      · rfl
      · exact congrArg Nat.succ ih

theorem scanRecords_range (read : Nat → Option (K × V)) (start count : Nat) :
    match scanRecords ((List.range' (start + 1) count).map read) start with
    | none => ∀ place, start < place → place ≤ start + count → read place = none
    | some (found, entry) => start < found ∧ found ≤ start + count ∧ read found = some entry ∧
        ∀ place, start < place → place < found → read place = none := by
  induction count generalizing start with
  | zero =>
    intro place low high
    omega
  | succ count ih =>
    rw [range'_succ, map_cons]
    cases first : read (start + 1) with
    | some entry =>
      refine ⟨Nat.lt_succ_self start, by omega, first, ?_⟩
      omega
    | none =>
      have rest := ih (start + 1)
      rw [scanRecords]
      split at rest
      · rename_i ends
        rw [ends]
        intro place low high
        by_cases same : place = start + 1
        · rw [same, first]
        · exact rest place (by omega) (by omega)
      · rename_i found entry finds
        rw [finds]
        obtain ⟨low, high, stored, passed⟩ := rest
        refine ⟨by omega, by omega, stored, ?_⟩
        intro place above below
        by_cases same : place = start + 1
        · rw [same, first]
        · exact passed place (by omega) below

theorem lookupEntry_of_lacks (lacks : Lacks same key records) : lookupEntry same key records.reduceOption = none := by
  rw [lookupEntry, map_eq_none_iff, find?_eq_none]
  intro entry member
  rw [reduceOption_mem_iff] at member
  exact Bool.eq_false_iff.mp (lacks entry member)

theorem lookupEntry_of_found {back : List (Option (K × V))} {other : K} (lacks : Lacks same key front)
    (equal : same key other = true) :
    lookupEntry same key (front ++ some (other, value) :: back).reduceOption = some value := by
  have passed := lookupEntry_of_lacks lacks
  rw [lookupEntry, map_eq_none_iff] at passed
  rw [lookupEntry, reduceOption_append, find?_append, passed, reduceOption_cons_of_some, find?_cons, equal]
  rfl

end Odyssey.Containers
