import Odyssey.IndexedDB.Scheduler

namespace Odyssey.IndexedDB

open Containers List Option IDBTransactionInfo

namespace UniqueIDBDatabase

variable (database : UniqueIDBDatabase)

def Blocked (earlier : List IDBTransactionInfo) (transaction : IDBTransactionInfo) : Prop :=
  ∃ store ∈ database.objectStoreIdentifiers transaction,
    (if transaction.isReadOnly then store ∈ database.objectStoreWriteTransactions
      else store ∈ database.objectStoreTransactionCounts) ∨
    ∃ other ∈ earlier, other.isReadOnly = false ∧ store ∈ database.objectStoreIdentifiers other

def AllBlocked (database : UniqueIDBDatabase) (earlier : List IDBTransactionInfo) :
    List IDBTransactionInfo → Prop
  | [] => True
  | transaction :: rest =>
    database.Blocked earlier transaction ∧ database.AllBlocked (earlier ++ [transaction]) rest

def ScopesOf (scopes : Finset UInt64) (deferred : List IDBTransactionInfo) : Prop :=
  ∀ store, store ∈ scopes ↔
    ∃ other ∈ deferred, other.isReadOnly = false ∧ store ∈ database.objectStoreIdentifiers other

variable {database : UniqueIDBDatabase} {scopes : Finset UInt64} {deferred : List IDBTransactionInfo}
  {transaction : IDBTransactionInfo}

theorem scopesOverlap_iff (contains : UInt64 → Prop) [DecidablePred contains] (scopes : List UInt64) :
    scopesOverlap (fun store => decide (contains store)) scopes = true ↔ ∃ store ∈ scopes, contains store := by
  simp [scopesOverlap]

section ScopesOf

variable (collected : database.ScopesOf scopes deferred)
include collected

theorem ScopesOf.readonly (readOnly : transaction.isReadOnly = true) :
    database.ScopesOf scopes (deferred ++ [transaction]) := by
  intro store
  rw [collected store]
  simp [readOnly]

theorem ScopesOf.readwrite (writes : transaction.isReadOnly = false) :
    database.ScopesOf (scopes ∪ (database.objectStoreIdentifiers transaction).toFinset)
      (deferred ++ [transaction]) := by
  intro store
  rw [Finset.mem_union, collected store, List.mem_toFinset]
  simp [writes]

theorem readonly_deferred_iff (readOnly : transaction.isReadOnly = true) :
    (scopesOverlap (· ∈ scopes) (database.objectStoreIdentifiers transaction) ||
      scopesOverlap (· ∈ database.objectStoreWriteTransactions)
        (database.objectStoreIdentifiers transaction)) = true ↔
      database.Blocked deferred transaction := by
  rw [Bool.or_eq_true, scopesOverlap_iff, scopesOverlap_iff, or_comm, ← exists_or]
  unfold Blocked
  simp only [readOnly, if_true, collected _, ← and_or_left]

theorem readwrite_deferred_iff (writes : transaction.isReadOnly = false) :
    (scopesOverlap (· ∈ database.objectStoreTransactionCounts) (database.objectStoreIdentifiers transaction) ||
      scopesOverlap (· ∈ scopes) (database.objectStoreIdentifiers transaction)) = true ↔
      database.Blocked deferred transaction := by
  rw [Bool.or_eq_true, scopesOverlap_iff, scopesOverlap_iff, ← exists_or]
  unfold Blocked
  simp only [writes, Bool.false_eq_true, if_false, collected _, ← and_or_left]

end ScopesOf

def Finds (database : UniqueIDBDatabase) (deferred pending : List IDBTransactionInfo)
    (result : Option (Option IDBTransactionInfo × List IDBTransactionInfo × List IDBTransactionInfo)) : Prop :=
  (database.AllBlocked deferred pending ∧ result = some (none, deferred ++ pending, [])) ∨
    ∃ before transaction after, pending = before ++ transaction :: after ∧
      database.AllBlocked deferred before ∧ ¬ database.Blocked (deferred ++ before) transaction ∧
      result = some (some transaction, deferred ++ before, after)

theorem Finds.here {rest : List IDBTransactionInfo} (free : ¬ database.Blocked deferred transaction) :
    database.Finds deferred (transaction :: rest) (some (some transaction, deferred, rest)) := by
  refine Or.inr ⟨[], transaction, rest, rfl, trivial, ?_, ?_⟩
  · rwa [append_nil]
  · rw [append_nil]

theorem Finds.later {rest : List IDBTransactionInfo} {result}
    (finds : database.Finds (deferred ++ [transaction]) rest result) (blocked : database.Blocked deferred transaction) :
    database.Finds deferred (transaction :: rest) result := by
  rcases finds with ⟨all, result⟩ | ⟨before, taken, after, split, all, free, result⟩
  · left
    refine ⟨⟨blocked, all⟩, ?_⟩
    rw [result, append_assoc, singleton_append]
  · right
    rw [append_assoc] at free result
    exact ⟨transaction :: before, taken, after, by rw [split]; rfl, ⟨blocked, all⟩, free, result⟩

theorem Finds.of_iff {rest : List IDBTransactionInfo} {overlaps : Bool} {result}
    (deferred_iff : overlaps = true ↔ database.Blocked deferred transaction)
    (finds : database.Finds (deferred ++ [transaction]) rest result) :
    database.Finds deferred (transaction :: rest)
      (if overlaps then result else some (some transaction, deferred, rest)) := by
  by_cases blocked : database.Blocked deferred transaction
  · rw [if_pos (deferred_iff.mpr blocked)]
    exact finds.later blocked
  · rw [if_neg (fun overlap => blocked (deferred_iff.mp overlap))]
    exact .here blocked

variable (database : UniqueIDBDatabase)

theorem takeRunnable_spec (pending : List IDBTransactionInfo)
    (scheduled : ∀ transaction ∈ pending, transaction.mode ≠ .versionchange) (deferred : List IDBTransactionInfo)
    (scopes : Finset UInt64) (collected : database.ScopesOf scopes deferred) :
    database.Finds deferred pending (database.takeRunnable deferred scopes pending) := by
  induction pending generalizing deferred scopes with
  | nil =>
    left
    exact ⟨trivial, by rw [append_nil]; rfl⟩
  | cons transaction rest ih =>
    have later : ∀ other ∈ rest, other.mode ≠ .versionchange :=
      fun other member => scheduled other (mem_cons_of_mem _ member)
    rw [takeRunnable]
    cases mode : transaction.mode with
    | readonly =>
      have readOnly : transaction.isReadOnly = true := by simp [isReadOnly, mode]
      exact .of_iff (readonly_deferred_iff collected readOnly) (ih later _ scopes (collected.readonly readOnly))
    | readwrite =>
      have writes : transaction.isReadOnly = false := by simp [isReadOnly, mode]
      exact .of_iff (readwrite_deferred_iff collected writes) (ih later _ _ (collected.readwrite writes))
    | versionchange => exact absurd mode (scheduled transaction mem_cons_self)

theorem countObjectStore_fold (readOnly : Bool) (stores : List UInt64) (database : UniqueIDBDatabase) :
    stores.foldl (countObjectStore readOnly) database = { database with
        objectStoreTransactionCounts := ↑stores + database.objectStoreTransactionCounts
        objectStoreWriteTransactions := if readOnly then database.objectStoreWriteTransactions
          else stores.toFinset ∪ database.objectStoreWriteTransactions } := by
  induction stores generalizing database with
  | nil => cases readOnly <;> simp
  | cons store stores ih =>
    rw [foldl_cons, ih]
    cases readOnly <;> simp [countObjectStore, ← Multiset.cons_coe]

theorem startTransaction_eq (database : UniqueIDBDatabase) (transaction : IDBTransactionInfo) :
    database.startTransaction transaction = { database with
        inProgressTransactions := database.inProgressTransactions.insert transaction.identifier transaction
        objectStoreTransactionCounts :=
          ↑(database.objectStoreIdentifiers transaction) + database.objectStoreTransactionCounts
        objectStoreWriteTransactions := if transaction.isReadOnly then database.objectStoreWriteTransactions
          else (database.objectStoreIdentifiers transaction).toFinset ∪ database.objectStoreWriteTransactions } := by
  rw [startTransaction, countObjectStore_fold]

def withPending (pending : List IDBTransactionInfo) : UniqueIDBDatabase :=
  { database with pendingTransactions := pending }

def withTimer (active : Bool) (activating : List IDBTransactionInfo) : UniqueIDBDatabase :=
  { database with
    operationAndTransactionTimerIsActive := active
    activatingTransactions := activating }

/-- No pending transaction can be started now. -/
def Waits : Prop :=
  (!database.backingStoreSupportsSimultaneousTransactions && database.hasUnfinishedTransactions) = true ∨
    database.AllBlocked [] database.pendingTransactions

theorem AllBlocked.imp {database other : UniqueIDBDatabase} {earlier pending : List IDBTransactionInfo}
    (all : database.AllBlocked earlier pending)
    (kept : ∀ earlier transaction, database.Blocked earlier transaction → other.Blocked earlier transaction) :
    other.AllBlocked earlier pending := by
  induction pending generalizing earlier with
  | nil => trivial
  | cons transaction rest ih => exact ⟨kept _ _ all.1, ih all.2⟩

theorem waits_withTimer (active : Bool) (activating : List IDBTransactionInfo) :
    (database.withTimer active activating).Waits ↔ database.Waits :=
  or_congr Iff.rfl ⟨fun all => all.imp (fun _ _ blocked => blocked), fun all => all.imp (fun _ _ blocked => blocked)⟩

theorem operationAndTransactionTimerFired_spec
    (scheduled : ∀ transaction ∈ database.pendingTransactions, transaction.mode ≠ .versionchange) :
    (database.Waits ∧ database.operationAndTransactionTimerFired = some (none, database)) ∨
    ∃ before transaction after, database.pendingTransactions = before ++ transaction :: after ∧
      database.AllBlocked [] before ∧ ¬ database.Blocked before transaction ∧
      database.operationAndTransactionTimerFired =
        some (some transaction, ((database.withPending (before ++ after)).startTransaction transaction).withTimer
          (database.operationAndTransactionTimerIsActive || before.isEmpty)
          (database.activatingTransactions ++ [transaction])) := by
  by_cases empty : database.pendingTransactions = []
  · left
    refine ⟨.inr (by rw [empty]; trivial), ?_⟩
    simp [operationAndTransactionTimerFired, takeNextRunnableTransaction, empty]
  by_cases busy : (!database.backingStoreSupportsSimultaneousTransactions &&
      database.hasUnfinishedTransactions) = true
  · left
    refine ⟨.inl busy, ?_⟩
    simp only [operationAndTransactionTimerFired, takeNextRunnableTransaction, if_neg empty, if_pos busy]
    rfl
  have none_deferred : database.ScopesOf ∅ [] := by
    intro store
    simp
  rcases takeRunnable_spec database database.pendingTransactions scheduled [] ∅ none_deferred with
    ⟨all, result⟩ | ⟨before, transaction, after, split, all, free, result⟩
  · left
    refine ⟨.inr all, ?_⟩
    simp only [operationAndTransactionTimerFired, takeNextRunnableTransaction, if_neg empty,
      if_neg busy, result, bind_eq_bind, bind_some, append_nil]
    rfl
  · right
    refine ⟨before, transaction, after, split, all, by simpa using free, ?_⟩
    simp only [operationAndTransactionTimerFired, takeNextRunnableTransaction, if_neg empty, if_neg busy, result]
    cases before with
    | nil =>
      rw [isEmpty_nil, Bool.or_true]
      simp only [startTransaction_eq]
      rfl
    | cons first before =>
      rw [isEmpty_cons, Bool.or_false]
      simp only [startTransaction_eq]
      rfl

theorem discountObjectStore_fold (readOnly : Bool) (stores : List UInt64) (database : UniqueIDBDatabase) :
    stores.foldl (discountObjectStore readOnly) database = { database with
        objectStoreTransactionCounts := database.objectStoreTransactionCounts - ↑stores
        objectStoreWriteTransactions := if readOnly then database.objectStoreWriteTransactions
          else database.objectStoreWriteTransactions \ stores.toFinset } := by
  induction stores generalizing database with
  | nil => cases readOnly <;> simp
  | cons store stores ih =>
    rw [foldl_cons, ih]
    have counts : (database.objectStoreTransactionCounts.erase store) - ↑stores =
        database.objectStoreTransactionCounts - ↑(store :: stores) := by
      rw [← Multiset.cons_coe, Multiset.sub_cons]
    cases readOnly with
    | true => simp [discountObjectStore, counts]
    | false =>
      have writes : (database.objectStoreWriteTransactions.erase store) \ stores.toFinset =
          database.objectStoreWriteTransactions \ (store :: stores).toFinset := by
        ext other
        simp only [Finset.mem_sdiff, Finset.mem_erase, toFinset_cons, Finset.mem_insert]
        tauto
      simp [discountObjectStore, counts, writes]

theorem transactionCompleted_eq (database : UniqueIDBDatabase) (transaction : IDBTransactionInfo) :
    database.transactionCompleted transaction = { database with
        operationAndTransactionTimerIsActive := true
        objectStoreTransactionCounts :=
          database.objectStoreTransactionCounts - ↑(database.objectStoreIdentifiers transaction)
        objectStoreWriteTransactions := if transaction.isReadOnly then database.objectStoreWriteTransactions
          else database.objectStoreWriteTransactions \ (database.objectStoreIdentifiers transaction).toFinset } := by
  rw [transactionCompleted, discountObjectStore_fold]
  rfl

end UniqueIDBDatabase

namespace SchedulerState

/-- What an event does to a state. -/
inductive Stepped (state : SchedulerState) : SchedulerEvent → SchedulerState → Prop
  | enqueues {transaction : IDBTransactionInfo} (mode : transaction.mode ≠ .versionchange)
      (fresh : transaction.identifier ∉ state.enqueued.map identifier) :
      Stepped state (.enqueueTransaction transaction) { state with
        database := state.database.enqueueTransaction transaction
        enqueued := state.enqueued ++ [transaction] }
  | arms : Stepped state .invokeOperationAndTransactionTimer { state with
      database := state.database.withTimer true state.database.activatingTransactions }
  | waits (waits : state.database.Waits) : Stepped state .operationAndTransactionTimerFired { state with
      database := state.database.withTimer false state.database.activatingTransactions }
  | starts {before after : List IDBTransactionInfo} {transaction : IDBTransactionInfo}
      (split : state.database.pendingTransactions = before ++ transaction :: after)
      (all : state.database.AllBlocked [] before) (free : ¬ state.database.Blocked before transaction) :
      Stepped state .operationAndTransactionTimerFired { state with
        database := ((state.database.withPending (before ++ after)).startTransaction transaction).withTimer
          before.isEmpty (state.database.activatingTransactions ++ [transaction])
        started := state.started ++ [transaction] }
  | activates {first : IDBTransactionInfo} {rest : List IDBTransactionInfo}
      (activating : state.database.activatingTransactions = first :: rest) :
      Stepped state .didPerformActivateTransactionInBackingStore
        { state with database := state.database.withTimer true rest }
  | prepares (identifier : IDBResourceIdentifier) : Stepped state (.prepareToFinishTransaction identifier)
      { state with database := (state.database.prepareToFinishTransaction identifier).2 }
  | performs {identifier : IDBResourceIdentifier} {transaction : IDBTransactionInfo} {database : UniqueIDBDatabase}
      (performed : state.database.didPerformTransaction identifier = some (transaction, database)) :
      Stepped state (.didPerformTransaction identifier)
        { state with database := database, completed := state.completed ++ [transaction] }

open UniqueIDBDatabase

/-- An active timer can fire. -/
theorem fired_spec {state : SchedulerState}
    (scheduled : ∀ transaction ∈ state.database.pendingTransactions, transaction.mode ≠ .versionchange)
    (active : state.database.operationAndTransactionTimerIsActive = true) : ∃ next,
      state.step .operationAndTransactionTimerFired = some next ∧ state.Stepped .operationAndTransactionTimerFired next := by
  simp only [step, active, Bool.not_true, Bool.false_eq_true, if_false]
  rcases (state.database.withTimer false state.database.activatingTransactions).operationAndTransactionTimerFired_spec
    scheduled with ⟨waits, fired⟩ | ⟨before, transaction, after, split, all, free, fired⟩
  · unfold withTimer at fired
    rw [fired]
    refine ⟨_, rfl, ?_⟩
    rw [toList_none, append_nil]
    exact .waits ((waits_withTimer _ _ _).mp waits)
  · unfold withTimer at fired
    rw [fired]
    refine ⟨_, rfl, ?_⟩
    have started := Stepped.starts split (all.imp (fun _ _ blocked => blocked)) free
    rw [startTransaction_eq] at started ⊢
    exact started

theorem step_cases {state next : SchedulerState} {event : SchedulerEvent}
    (scheduled : ∀ transaction ∈ state.database.pendingTransactions, transaction.mode ≠ .versionchange)
    (stepped : state.step event = some next) : state.Stepped event next := by
  cases event with
  | enqueueTransaction transaction =>
    simp only [step] at stepped
    split at stepped
    · cases stepped
    · rename_i mode
      split at stepped
      · cases stepped
      · rename_i fresh
        cases stepped
        exact .enqueues mode fresh
  | invokeOperationAndTransactionTimer =>
    cases stepped
    exact .arms
  | operationAndTransactionTimerFired =>
    cases active : state.database.operationAndTransactionTimerIsActive with
    | false => simp [step, active] at stepped
    | true =>
      rcases fired_spec scheduled active with ⟨_, fired, does⟩
      cases fired.symm.trans stepped
      exact does
  | didPerformActivateTransactionInBackingStore =>
    rcases bind_eq_some_iff.mp stepped with ⟨database, performed, result⟩
    cases result
    unfold UniqueIDBDatabase.didPerformActivateTransactionInBackingStore at performed
    split at performed
    · cases performed
    · rename_i activating
      cases performed
      exact .activates activating
  | prepareToFinishTransaction identifier =>
    cases stepped
    exact .prepares identifier
  | didPerformTransaction identifier =>
    rcases bind_eq_some_iff.mp stepped with ⟨⟨transaction, database⟩, performed, result⟩
    cases result
    exact .performs performed

end SchedulerState

end Odyssey.IndexedDB
