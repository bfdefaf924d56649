import Odyssey.IndexedDB.IndexValueStoreSpec
import Odyssey.IndexedDB.Info

namespace Odyssey.IndexedDB

open Containers

variable {K : Type} [IDBKeyOrder K]

abbrev IndexKey (K : Type) := List K

namespace IndexKey

def asOneKey : IndexKey K → Option K
  | [] => none
  | [key] => some key
  | keys => some (IDBKeyOrder.setArrayValue keys)

def takeMultiEntry : List K → IndexKey K → List K
  | taken, [] => taken
  | taken, key :: keys =>
    if !IDBKeyOrder.isValid key then takeMultiEntry taken keys
    else if key ∈ taken then takeMultiEntry taken keys
    else takeMultiEntry (taken ++ [key]) keys

def multiEntry (keys : IndexKey K) : List K := takeMultiEntry [] keys

end IndexKey

structure MemoryIndex (K : Type) [IDBKeyOrder K] where
  info : IDBIndexInfo
  records : Option (IndexValueStore K)

namespace MemoryIndex

def create (info : IDBIndexInfo) : MemoryIndex K := ⟨info, none⟩

def rename (index : MemoryIndex K) (newName : WTFString) : MemoryIndex K :=
  { index with info := index.info.rename newName }

def putIndexKey (index : MemoryIndex K) (valueKey : K) (indexKey : IndexKey K) :
    Option IDBError × MemoryIndex K × List (IndexNotice K) :=
  let records := index.records.getD (.create index.info.unique)
  let created : List (IndexNotice K) := if index.records.isNone then [.recordsAllChanged] else []
  if !index.info.multiEntry then
    match IndexKey.asOneKey indexKey with
    | none => (none, { index with records := some records }, created)
    | some key =>
      let (error, records) := records.addRecord key valueKey
      (error, { index with records := some records }, created ++ [.valueChanged key valueKey])
  else
    let keys := IndexKey.multiEntry indexKey
    if index.info.unique && keys.any records.contains then
      (some { code := .ConstraintError }, { index with records := some records }, created)
    else
      (none,
        { index with records := some (keys.foldl (fun records key => (records.addRecord key valueKey).2) records) },
        created ++ keys.map (.valueChanged · valueKey))

def removeKeys (valueKey : K) (state : IndexValueStore K × List (IndexNotice K)) (key : K) :
    IndexValueStore K × List (IndexNotice K) :=
  let (records, notices) := state.1.removeRecord key valueKey
  (records, state.2 ++ notices ++ [.valueChanged key valueKey])

def removeRecord (index : MemoryIndex K) (valueKey : K) (indexKey : IndexKey K) :
    MemoryIndex K × List (IndexNotice K) :=
  match index.records with
  | none => (index, [])
  | some records =>
    let keys := if index.info.multiEntry then IndexKey.multiEntry indexKey
      else (IndexKey.asOneKey indexKey).toList
    let (records, notices) := keys.foldl (removeKeys valueKey) (records, [])
    ({ index with records := some records }, notices)

def removeEntriesWithValueKey (order : IterationOrder K) (index : MemoryIndex K) (valueKey : K) :
    MemoryIndex K × List (IndexNotice K) :=
  match index.records with
  | none => (index, [])
  | some records =>
    let (records, notices) := records.removeEntriesWithValueKey order valueKey
    ({ index with records := some records }, notices)

def filedKeys (info : IDBIndexInfo) (indexKey : IndexKey K) : List K :=
  if info.multiEntry then IndexKey.multiEntry indexKey else (IndexKey.asOneKey indexKey).toList

def Holds (index : MemoryIndex K) (indexKey primaryKey : K) : Prop :=
  ∃ records, index.records = some records ∧ records.Holds indexKey primaryKey

def WellFormed (index : MemoryIndex K) : Prop :=
  ∀ records, index.records = some records →
    records.WellFormed ∧ records.unique = index.info.unique

end MemoryIndex

end Odyssey.IndexedDB
