import Odyssey.IndexedDB.Info

namespace Odyssey.IndexedDB

open Containers

def IDBTransactionInfo.isReadOnly (transaction : IDBTransactionInfo) : Bool :=
  transaction.mode = .readonly

/-- The part of a `UniqueIDBDatabase` that schedules transactions. The table of object stores does
    not change between version changes, so neither does the order in which it is visited. Of the
    database queue it has the activations that the backing store has not answered yet. -/
structure UniqueIDBDatabase where
  databaseInfo : IDBDatabaseInfo
  objectStoreOrder : IterationOrder UInt64
  backingStoreSupportsSimultaneousTransactions : Bool
  pendingTransactions : List IDBTransactionInfo
  inProgressTransactions : HashMap IDBResourceIdentifier IDBTransactionInfo
  finishingTransactions : HashMap IDBResourceIdentifier IDBTransactionInfo
  objectStoreTransactionCounts : Multiset UInt64
  objectStoreWriteTransactions : Finset UInt64
  operationAndTransactionTimerIsActive : Bool
  activatingTransactions : List IDBTransactionInfo

namespace UniqueIDBDatabase

variable (database : UniqueIDBDatabase)

def objectStoreIdentifiers (transaction : IDBTransactionInfo) : List UInt64 :=
  (database.databaseInfo.objectStoreNames database.objectStoreOrder).filterMap (fun name =>
    match database.databaseInfo.infoForObjectStoreName database.objectStoreOrder name with
    | none => none
    | some store => if name ∈ transaction.objectStores then some store.identifier else none)

def scopesOverlap (contains : UInt64 → Bool) (scopes : List UInt64) : Bool :=
  scopes.any contains

def hasUnfinishedTransactions : Bool :=
  database.inProgressTransactions.keys ≠ ∅ ∨ database.finishingTransactions.keys ≠ ∅

/-- The loop over the queue. It returns the first transaction that need not wait, the transactions
    deferred before it and the rest of the queue; a version change reaches
    `RELEASE_ASSERT_NOT_REACHED`. -/
def takeRunnable (database : UniqueIDBDatabase) (deferredTransactions : List IDBTransactionInfo)
    (deferredReadWriteScopes : Finset UInt64) : List IDBTransactionInfo →
    Option (Option IDBTransactionInfo × List IDBTransactionInfo × List IDBTransactionInfo)
  | [] => some (none, deferredTransactions, [])
  | transaction :: rest =>
    let scopes := database.objectStoreIdentifiers transaction
    match transaction.mode with
    | .readonly =>
      if scopesOverlap (· ∈ deferredReadWriteScopes) scopes ||
          scopesOverlap (· ∈ database.objectStoreWriteTransactions) scopes then
        database.takeRunnable (deferredTransactions ++ [transaction]) deferredReadWriteScopes rest
      else some (some transaction, deferredTransactions, rest)
    | .readwrite =>
      if scopesOverlap (· ∈ database.objectStoreTransactionCounts) scopes ||
          scopesOverlap (· ∈ deferredReadWriteScopes) scopes then
        database.takeRunnable (deferredTransactions ++ [transaction])
          (deferredReadWriteScopes ∪ scopes.toFinset) rest
      else some (some transaction, deferredTransactions, rest)
    | .versionchange => none

/-- Returns the transaction to run, whether others were deferred, and the database with the
    deferred ones back at the head of the queue. -/
def takeNextRunnableTransaction : Option (Option IDBTransactionInfo × Bool × UniqueIDBDatabase) :=
  if database.pendingTransactions = [] then some (none, false, database)
  else if !database.backingStoreSupportsSimultaneousTransactions &&
      database.hasUnfinishedTransactions then some (none, false, database)
  else do
    let (transaction, deferred, rest) ← database.takeRunnable [] ∅ database.pendingTransactions
    return (transaction, !deferred.isEmpty, { database with pendingTransactions := deferred ++ rest })

def countObjectStore (readOnly : Bool) (database : UniqueIDBDatabase) (store : UInt64) :
    UniqueIDBDatabase :=
  { database with
    objectStoreTransactionCounts := store ::ₘ database.objectStoreTransactionCounts
    objectStoreWriteTransactions :=
      if readOnly then database.objectStoreWriteTransactions
      else insert store database.objectStoreWriteTransactions }

variable (database : UniqueIDBDatabase)

def startTransaction (transaction : IDBTransactionInfo) : UniqueIDBDatabase :=
  (database.objectStoreIdentifiers transaction).foldl (countObjectStore transaction.isReadOnly)
    { database with
      inProgressTransactions :=
        database.inProgressTransactions.insert transaction.identifier transaction }

def invokeOperationAndTransactionTimer : UniqueIDBDatabase :=
  { database with operationAndTransactionTimerIsActive := true }

def activateTransactionInBackingStore (transaction : IDBTransactionInfo) : UniqueIDBDatabase :=
  { database with activatingTransactions := database.activatingTransactions ++ [transaction] }

/-- Returns the transaction that was started, if any. Open and delete requests, which the timer
    handles first, are not modelled. -/
def operationAndTransactionTimerFired : Option (Option IDBTransactionInfo × UniqueIDBDatabase) := do
  let (transaction, hadDeferredTransactions, database) ← database.takeNextRunnableTransaction
  match transaction with
  | none => return (none, database)
  | some transaction =>
    let database := (database.startTransaction transaction).activateTransactionInBackingStore transaction
    if hadDeferredTransactions then return (some transaction, database)
    else return (some transaction, database.invokeOperationAndTransactionTimer)

/-- The backing store answers in the order in which it was asked. -/
def didPerformActivateTransactionInBackingStore : Option UniqueIDBDatabase :=
  match database.activatingTransactions with
  | [] => none
  | _ :: rest => some { database with activatingTransactions := rest }.invokeOperationAndTransactionTimer

def enqueueTransaction (transaction : IDBTransactionInfo) : UniqueIDBDatabase :=
  { database with pendingTransactions := database.pendingTransactions ++ [transaction] }
    |>.invokeOperationAndTransactionTimer

def prepareToFinishTransaction (identifier : IDBResourceIdentifier) : Bool × UniqueIDBDatabase :=
  match database.inProgressTransactions.lookup identifier with
  | none => (false, database)
  | some transaction =>
    (true, { database with
      inProgressTransactions := database.inProgressTransactions.erase identifier
      finishingTransactions := database.finishingTransactions.insert identifier transaction })

def discountObjectStore (readOnly : Bool) (database : UniqueIDBDatabase) (store : UInt64) :
    UniqueIDBDatabase :=
  { database with
    objectStoreTransactionCounts := database.objectStoreTransactionCounts.erase store
    objectStoreWriteTransactions :=
      if readOnly then database.objectStoreWriteTransactions
      else database.objectStoreWriteTransactions.erase store }

variable (database : UniqueIDBDatabase)

def transactionCompleted (transaction : IDBTransactionInfo) : UniqueIDBDatabase :=
  ((database.objectStoreIdentifiers transaction).foldl (discountObjectStore transaction.isReadOnly)
    database).invokeOperationAndTransactionTimer

/-- The replies of a commit and of an abort both take the finishing transaction out of its table;
    a null one fails the assertion of `transactionCompleted`. -/
def didPerformTransaction (identifier : IDBResourceIdentifier) :
    Option (IDBTransactionInfo × UniqueIDBDatabase) := do
  let transaction ← database.finishingTransactions.lookup identifier
  let database :=
    { database with finishingTransactions := database.finishingTransactions.erase identifier }
  return (transaction, database.transactionCompleted transaction)

def opened (databaseInfo : IDBDatabaseInfo) (objectStoreOrder : IterationOrder UInt64)
    (simultaneous : Bool) : UniqueIDBDatabase where
  databaseInfo := databaseInfo
  objectStoreOrder := objectStoreOrder
  backingStoreSupportsSimultaneousTransactions := simultaneous
  pendingTransactions := []
  inProgressTransactions := ∅
  finishingTransactions := ∅
  objectStoreTransactionCounts := 0
  objectStoreWriteTransactions := ∅
  operationAndTransactionTimerIsActive := false
  activatingTransactions := []

def unfinishedTransactions : Multiset IDBTransactionInfo :=
  database.inProgressTransactions.values + database.finishingTransactions.values

end UniqueIDBDatabase

/-- Besides the transactions, requests to open and delete the database and connections that are closed
    arm the timer; these may come at any time. -/
inductive SchedulerEvent where
  | enqueueTransaction (transaction : IDBTransactionInfo)
  | invokeOperationAndTransactionTimer
  | operationAndTransactionTimerFired
  | didPerformActivateTransactionInBackingStore
  | prepareToFinishTransaction (identifier : IDBResourceIdentifier)
  | didPerformTransaction (identifier : IDBResourceIdentifier)

/-- A database with the transactions enqueued, started and completed so far, oldest first. -/
structure SchedulerState where
  database : UniqueIDBDatabase
  enqueued : List IDBTransactionInfo
  started : List IDBTransactionInfo
  completed : List IDBTransactionInfo

namespace SchedulerState

def opened (databaseInfo : IDBDatabaseInfo) (objectStoreOrder : IterationOrder UInt64)
    (simultaneous : Bool) : SchedulerState :=
  ⟨.opened databaseInfo objectStoreOrder simultaneous, [], [], []⟩

/-- Clients enqueue readonly and readwrite transactions under identifiers not used before. The timer
    fires once each time it is armed, and is not active any more when it does. -/
def step (state : SchedulerState) : SchedulerEvent → Option SchedulerState
  | .enqueueTransaction transaction =>
    if transaction.mode = .versionchange then none
    else if transaction.identifier ∈ state.enqueued.map IDBTransactionInfo.identifier then none
    else some { state with
      database := state.database.enqueueTransaction transaction
      enqueued := state.enqueued ++ [transaction] }
  | .invokeOperationAndTransactionTimer =>
    some { state with database := state.database.invokeOperationAndTransactionTimer }
  | .operationAndTransactionTimerFired => do
    if !state.database.operationAndTransactionTimerIsActive then none
    else
      let (transaction, database) ←
        { state.database with operationAndTransactionTimerIsActive := false }.operationAndTransactionTimerFired
      return { state with database := database, started := state.started ++ transaction.toList }
  | .didPerformActivateTransactionInBackingStore => do
    let database ← state.database.didPerformActivateTransactionInBackingStore
    return { state with database := database }
  | .prepareToFinishTransaction identifier =>
    some { state with database := (state.database.prepareToFinishTransaction identifier).2 }
  | .didPerformTransaction identifier => do
    let (transaction, database) ← state.database.didPerformTransaction identifier
    return { state with database := database, completed := state.completed ++ [transaction] }

end SchedulerState

end Odyssey.IndexedDB
