import Odyssey.Containers.HashMap
import Odyssey.IndexedDB.KeyData

namespace Odyssey.IndexedDB

open Containers

inductive IDBKeyPath where
  | name (path : WTFString)
  | names (paths : List WTFString)
  deriving DecidableEq

structure IDBIndexInfo where
  identifier : UInt64
  objectStoreIdentifier : UInt64
  name : WTFString
  keyPath : IDBKeyPath
  unique : Bool
  multiEntry : Bool
  deriving DecidableEq

def IDBIndexInfo.rename (info : IDBIndexInfo) (newName : WTFString) : IDBIndexInfo :=
  { info with name := newName }

structure IDBObjectStoreInfo where
  identifier : UInt64
  name : WTFString
  keyPath : Option IDBKeyPath
  autoIncrement : Bool
  maxIndexID : UInt64
  indexMap : HashMap UInt64 IDBIndexInfo
  deriving DecidableEq

namespace IDBObjectStoreInfo

variable (info : IDBObjectStoreInfo)

def rename (newName : WTFString) : IDBObjectStoreInfo :=
  { info with name := newName }

def addExistingIndex (index : IDBIndexInfo) : IDBObjectStoreInfo :=
  { info with
    maxIndexID := if index.identifier > info.maxIndexID then index.identifier else info.maxIndexID
    indexMap := info.indexMap.insert index.identifier index }

def infoForExistingIndex (identifier : UInt64) : Option IDBIndexInfo :=
  info.indexMap.lookup identifier

def deleteIndex (identifier : UInt64) : IDBObjectStoreInfo :=
  { info with indexMap := info.indexMap.erase identifier }

variable (order : IterationOrder UInt64) (info : IDBObjectStoreInfo)

def indexes : List IDBIndexInfo :=
  (order.visit info.indexMap.keys).filterMap info.indexMap.lookup

def infoForIndexName (name : WTFString) : Option IDBIndexInfo :=
  (info.indexes order).find? (·.name = name)

/-- `rename` on the info that `infoForExistingIndex` found under an identifier. -/
def renameIndex (identifier : UInt64) (newName : WTFString) : IDBObjectStoreInfo :=
  match info.infoForExistingIndex identifier with
  | none => info
  | some index => { info with indexMap := info.indexMap.insert identifier (index.rename newName) }

end IDBObjectStoreInfo

structure IDBDatabaseInfo where
  name : WTFString
  version : UInt64
  maxObjectStoreID : UInt64
  objectStoreMap : HashMap UInt64 IDBObjectStoreInfo
  deriving DecidableEq

namespace IDBDatabaseInfo

variable (info : IDBDatabaseInfo)

def addExistingObjectStore (store : IDBObjectStoreInfo) : IDBDatabaseInfo :=
  { info with
    maxObjectStoreID :=
      if store.identifier > info.maxObjectStoreID then store.identifier else info.maxObjectStoreID
    objectStoreMap := info.objectStoreMap.insert store.identifier store }

def infoForExistingObjectStore (identifier : UInt64) : Option IDBObjectStoreInfo :=
  info.objectStoreMap.lookup identifier

def renameObjectStore (identifier : UInt64) (newName : WTFString) : IDBDatabaseInfo :=
  match info.infoForExistingObjectStore identifier with
  | none => info
  | some store =>
    { info with objectStoreMap := info.objectStoreMap.insert identifier (store.rename newName) }

def deleteObjectStore (identifier : UInt64) : IDBDatabaseInfo :=
  { info with objectStoreMap := info.objectStoreMap.erase identifier }

variable (order : IterationOrder UInt64) (info : IDBDatabaseInfo)

def objectStores : List IDBObjectStoreInfo :=
  (order.visit info.objectStoreMap.keys).filterMap info.objectStoreMap.lookup

def objectStoreNames : List WTFString :=
  (info.objectStores order).map IDBObjectStoreInfo.name

def infoForObjectStoreName (name : WTFString) : Option IDBObjectStoreInfo :=
  (info.objectStores order).find? (·.name = name)

def hasObjectStore (name : WTFString) : Bool :=
  (info.objectStores order).any (·.name = name)

def deleteObjectStoreNamed (name : WTFString) : IDBDatabaseInfo :=
  match info.infoForObjectStoreName order name with
  | none => info
  | some store => info.deleteObjectStore store.identifier

/-- `rename` on the index info found under the two identifiers. -/
def renameIndex (info : IDBDatabaseInfo) (objectStoreIdentifier indexIdentifier : UInt64)
    (newName : WTFString) : IDBDatabaseInfo :=
  match info.infoForExistingObjectStore objectStoreIdentifier with
  | none => info
  | some store =>
    { info with objectStoreMap :=
        info.objectStoreMap.insert objectStoreIdentifier (store.renameIndex indexIdentifier newName) }

end IDBDatabaseInfo

structure IDBResourceIdentifier where
  connectionIdentifier : UInt64
  resourceNumber : UInt64
  deriving DecidableEq

inductive IDBTransactionMode where
  | readonly | readwrite | versionchange
  deriving DecidableEq

structure IDBTransactionInfo where
  identifier : IDBResourceIdentifier
  mode : IDBTransactionMode
  objectStores : List WTFString
  deriving DecidableEq

end Odyssey.IndexedDB
