import Mathlib.Tactic.Abel
import Odyssey.Systems.Run
import Odyssey.Systems.SharedLocks
import Odyssey.IndexedDB.SchedulerSteps

namespace Odyssey.IndexedDB

open Containers List Option UniqueIDBDatabase HashMap
open Systems

structure SchedulerState.Exclusive (state : SchedulerState) : Prop where
  scheduled : ∀ transaction ∈ state.enqueued, transaction.mode ≠ .versionchange
  distinct : (state.enqueued.map IDBTransactionInfo.identifier).Nodup
  queued : state.database.pendingTransactions.Sublist state.enqueued
  partitioned : Multiset.ofList state.enqueued =
    Multiset.ofList state.database.pendingTransactions + Multiset.ofList state.started
  progressed : Multiset.ofList state.started =
    state.database.unfinishedTransactions + Multiset.ofList state.completed
  keyed : ∀ identifier transaction,
    state.database.inProgressTransactions.lookup identifier = some transaction ∨
      state.database.finishingTransactions.lookup identifier = some transaction →
    transaction.identifier = identifier
  locked : LocksHeld state.database.objectStoreIdentifiers IDBTransactionInfo.isReadOnly
    state.database.unfinishedTransactions state.database.objectStoreTransactionCounts
    state.database.objectStoreWriteTransactions

namespace SchedulerState.Exclusive

variable {state : SchedulerState}

theorem opened (databaseInfo : IDBDatabaseInfo) (objectStoreOrder : IterationOrder UInt64)
    (simultaneous : Bool) : (SchedulerState.opened databaseInfo objectStoreOrder simultaneous).Exclusive where
  scheduled := by simp [SchedulerState.opened]
  distinct := nodup_nil
  queued := List.Sublist.refl _
  partitioned := rfl
  progressed := rfl
  keyed := by simp [SchedulerState.opened, UniqueIDBDatabase.opened]
  locked := LocksHeld.empty _ _

theorem enqueued_nodup (inv : state.Exclusive) : state.enqueued.Nodup := List.Nodup.of_map _ inv.distinct

theorem mem_enqueued (inv : state.Exclusive) (transaction : IDBTransactionInfo) : transaction ∈ state.enqueued ↔
      transaction ∈ state.database.pendingTransactions ∨ transaction ∈ state.started := by
  rw [← Multiset.mem_coe, inv.partitioned, Multiset.mem_add, Multiset.mem_coe, Multiset.mem_coe]

variable {transaction : IDBTransactionInfo}

section Pending

variable (inv : state.Exclusive)
include inv

theorem pending_not_started
    (pending : transaction ∈ state.database.pendingTransactions) : transaction ∉ state.started := by
  intro started
  have nodup : (Multiset.ofList state.enqueued).Nodup := inv.enqueued_nodup
  rw [inv.partitioned] at nodup
  exact Multiset.disjoint_left.mp (Multiset.nodup_add.mp nodup).2.2 pending started

theorem unfinished_started (member : transaction ∈ state.database.unfinishedTransactions) :
    transaction ∈ state.started := by
  rw [← Multiset.mem_coe, inv.progressed]
  exact Multiset.mem_add.mpr (.inl member)

theorem identifier_free (pending : transaction ∈ state.database.pendingTransactions) :
    state.database.inProgressTransactions.lookup transaction.identifier = none := by
  by_contra present
  rcases ne_none_iff_exists'.mp present with ⟨other, found⟩
  have unfinished : other ∈ state.database.unfinishedTransactions :=
    Multiset.mem_add.mpr (.inl (mem_values.mpr ⟨_, found⟩))
  have started := inv.unfinished_started unfinished
  have same : other = transaction := inj_on_of_nodup_map inv.distinct ((inv.mem_enqueued other).mpr (.inr started))
      ((inv.mem_enqueued transaction).mpr (.inl pending)) (inv.keyed _ _ (.inl found))
  exact inv.pending_not_started pending (same ▸ started)

theorem withTimer (active : Bool) (activating : List IDBTransactionInfo) :
    ({ state with database := state.database.withTimer active activating } : SchedulerState).Exclusive :=
  ⟨inv.scheduled, inv.distinct, inv.queued, inv.partitioned, inv.progressed, inv.keyed, inv.locked⟩

theorem enqueueTransaction (mode : transaction.mode ≠ .versionchange)
    (fresh : transaction.identifier ∉ state.enqueued.map IDBTransactionInfo.identifier) :
    ({ state with
      database := state.database.enqueueTransaction transaction
      enqueued := state.enqueued ++ [transaction] } : SchedulerState).Exclusive where
  scheduled := by
    intro other member
    rcases mem_append.mp member with member | member
    · exact inv.scheduled other member
    · rw [mem_singleton.mp member]
      exact mode
  distinct := by
    rw [map_append]
    refine nodup_append.mpr ⟨inv.distinct, nodup_singleton _, ?_⟩
    intro identifier member other single same
    rw [mem_singleton.mp single] at same
    exact fresh (same ▸ member)
  queued := inv.queued.append (List.Sublist.refl _)
  partitioned := by
    show Multiset.ofList (state.enqueued ++ [transaction]) =
      Multiset.ofList (state.database.pendingTransactions ++ [transaction]) + Multiset.ofList state.started
    rw [← Multiset.coe_add, ← Multiset.coe_add, inv.partitioned, add_right_comm]
  progressed := inv.progressed
  keyed := inv.keyed
  locked := inv.locked

theorem startTransaction {before after : List IDBTransactionInfo}
    (split : state.database.pendingTransactions = before ++ transaction :: after)
    (free : ¬ state.database.Blocked before transaction) :
    ({ state with
      database := (state.database.withPending (before ++ after)).startTransaction transaction
      started := state.started ++ [transaction] } : SchedulerState).Exclusive := by
  have pending : transaction ∈ state.database.pendingTransactions := by
    rw [split]
    exact mem_append_right _ mem_cons_self
  have unfinished : ((state.database.withPending (before ++ after)).startTransaction
      transaction).unfinishedTransactions = transaction ::ₘ state.database.unfinishedTransactions := by
    rw [startTransaction_eq]
    show values (state.database.inProgressTransactions.insert transaction.identifier
      transaction) + values state.database.finishingTransactions = _
    rw [values_insert (inv.identifier_free pending), Multiset.cons_add]
    rfl
  refine ⟨inv.scheduled, inv.distinct, ?_, ?_, ?_, ?_, ?_⟩
  · rw [startTransaction_eq]
    refine trans ?_ (split ▸ inv.queued)
    exact (List.Sublist.refl before).append (sublist_cons_self transaction after)
  · rw [startTransaction_eq]
    show Multiset.ofList state.enqueued =
      Multiset.ofList (before ++ after) + Multiset.ofList (state.started ++ [transaction])
    rw [inv.partitioned, split, ← Multiset.coe_add, ← Multiset.coe_add, ← Multiset.coe_add,
      ← Multiset.cons_coe, ← Multiset.singleton_add, Multiset.coe_singleton]
    abel
  · rw [unfinished, ← Multiset.coe_add, inv.progressed, ← Multiset.singleton_add]
    abel
  · rw [startTransaction_eq]
    intro identifier other found
    rw [lookup_insert_eq] at found
    by_cases same : identifier = transaction.identifier
    · rw [if_pos same] at found
      rcases found with found | found
      · rw [← some.inj found, same]
      · exact inv.keyed _ _ (.inr found)
    · rw [if_neg same] at found
      exact inv.keyed _ _ found
  · rw [unfinished, startTransaction_eq]
    refine inv.locked.acquire (fun member => ?_) (fun store member inUse => ?_)
    · exact inv.pending_not_started pending (inv.unfinished_started member)
    · exact free ⟨store, member, .inl inUse⟩

theorem prepareToFinishTransaction (identifier : IDBResourceIdentifier) :
    ({ state with database := (state.database.prepareToFinishTransaction identifier).2 } :
      SchedulerState).Exclusive := by
  unfold UniqueIDBDatabase.prepareToFinishTransaction
  cases found : state.database.inProgressTransactions.lookup identifier with
  | none => exact inv
  | some transaction =>
    have absent : state.database.finishingTransactions.lookup identifier = none := by
      by_contra present
      rcases ne_none_iff_exists'.mp present with ⟨other, finishing⟩
      have same : transaction = other := by
        have left := inv.keyed _ _ (.inl found)
        have right := inv.keyed _ _ (.inr finishing)
        refine inj_on_of_nodup_map inv.distinct ?_ ?_ (left.trans right.symm)
        · exact (inv.mem_enqueued _).mpr (.inr (inv.unfinished_started
            (Multiset.mem_add.mpr (.inl (mem_values.mpr ⟨_, found⟩)))))
        · exact (inv.mem_enqueued _).mpr (.inr (inv.unfinished_started
            (Multiset.mem_add.mpr (.inr (mem_values.mpr ⟨_, finishing⟩)))))
      exact Multiset.disjoint_left.mp (Multiset.nodup_add.mp inv.locked.distinct).2.2
        (mem_values.mpr ⟨_, found⟩) (mem_values.mpr ⟨_, same ▸ finishing⟩)
    have unfinished : values (state.database.inProgressTransactions.erase identifier) +
        values (state.database.finishingTransactions.insert identifier transaction) =
        state.database.unfinishedTransactions := by
      rw [values_insert absent, unfinishedTransactions, values_erase found, Multiset.cons_add, Multiset.add_cons]
    refine ⟨inv.scheduled, inv.distinct, inv.queued, inv.partitioned, ?_, ?_, ?_⟩
    · exact inv.progressed.trans (congrArg (· + Multiset.ofList state.completed) unfinished.symm)
    · intro other moved holds
      rw [lookup_erase_eq, lookup_insert_eq] at holds
      by_cases same : other = identifier
      · rw [if_pos same, if_pos same] at holds
        rcases holds with holds | holds
        · cases holds
        · rw [← some.inj holds, same]
          exact inv.keyed _ _ (.inl found)
      · rw [if_neg same, if_neg same] at holds
        exact inv.keyed _ _ holds
    · have locked := inv.locked
      rw [← unfinished] at locked
      exact locked

theorem didPerformTransaction {identifier : IDBResourceIdentifier} {database : UniqueIDBDatabase}
    (performed : state.database.didPerformTransaction identifier = some (transaction, database)) :
    ({ state with database := database, completed := state.completed ++ [transaction] } :
      SchedulerState).Exclusive := by
  cases found : state.database.finishingTransactions.lookup identifier with
  | none => simp [UniqueIDBDatabase.didPerformTransaction, found] at performed
  | some finished =>
    simp only [UniqueIDBDatabase.didPerformTransaction, found, bind_eq_bind,
      bind_some, Option.pure_def, some.injEq, Prod.mk.injEq] at performed
    rcases performed with ⟨rfl, rfl⟩
    rw [transactionCompleted_eq]
    have unfinished : state.database.unfinishedTransactions =
        finished ::ₘ (values state.database.inProgressTransactions +
          values (state.database.finishingTransactions.erase identifier)) := by
      rw [unfinishedTransactions, values_erase found, Multiset.add_cons]
    refine ⟨inv.scheduled, inv.distinct, inv.queued, inv.partitioned, ?_, ?_, ?_⟩
    · rw [inv.progressed, unfinished, ← Multiset.coe_add, Multiset.coe_singleton, ← Multiset.singleton_add]
      show _ = (_ + _) + _
      abel
    · intro other remaining holds
      rw [lookup_erase_eq] at holds
      by_cases same : other = identifier
      · rw [if_pos same] at holds
        rcases holds with holds | holds
        · exact inv.keyed _ _ (.inl holds)
        · cases holds
      · rw [if_neg same] at holds
        exact inv.keyed _ _ holds
    · have locked := inv.locked
      rw [unfinished] at locked
      exact locked.release

theorem pending_scheduled : ∀ transaction ∈ state.database.pendingTransactions, transaction.mode ≠ .versionchange :=
  fun transaction member => inv.scheduled transaction (inv.queued.subset member)

end Pending

theorem step (state : SchedulerState) (event : SchedulerEvent) (next : SchedulerState)
    (inv : state.Exclusive) (stepped : state.step event = some next) : next.Exclusive := by
  cases step_cases inv.pending_scheduled stepped with
  | enqueues mode fresh => exact inv.enqueueTransaction mode fresh
  | arms | waits | activates => exact inv.withTimer _ _
  | starts split _ free => exact (inv.startTransaction split free).withTimer _ _
  | prepares identifier => exact inv.prepareToFinishTransaction identifier
  | performs performed => exact inv.didPerformTransaction performed

end SchedulerState.Exclusive

/-- Unfinished transactions share an object store only when they only read; the tables describe exactly them,
    and no transaction is lost. -/
theorem transaction_exclusion (databaseInfo : IDBDatabaseInfo)
    (objectStoreOrder : IterationOrder UInt64) (simultaneous : Bool) (events : List SchedulerEvent)
    (state : SchedulerState)
    (ran : run SchedulerState.step (.opened databaseInfo objectStoreOrder simultaneous) events = some state) :
    (∀ first ∈ state.database.unfinishedTransactions,
      ∀ second ∈ state.database.unfinishedTransactions, first ≠ second →
      Overlapping state.database.objectStoreIdentifiers first second →
      first.isReadOnly = true ∧ second.isReadOnly = true) ∧
    state.database.objectStoreTransactionCounts =
      heldCounts state.database.objectStoreIdentifiers state.database.unfinishedTransactions ∧
    state.database.objectStoreWriteTransactions =
      heldWrites state.database.objectStoreIdentifiers IDBTransactionInfo.isReadOnly
        state.database.unfinishedTransactions ∧
    state.enqueued.Nodup ∧
    Multiset.ofList state.enqueued = Multiset.ofList state.database.pendingTransactions +
      state.database.unfinishedTransactions + Multiset.ofList state.completed ∧
    ∃ result, state.database.operationAndTransactionTimerFired = some result := by
  have inv : state.Exclusive :=
    run_invariant SchedulerState.Exclusive.step events
      (SchedulerState.Exclusive.opened databaseInfo objectStoreOrder simultaneous) ran
  refine ⟨inv.locked.exclusive, inv.locked.counted, inv.locked.written, inv.enqueued_nodup, ?_, ?_⟩
  · rw [inv.partitioned, inv.progressed, add_assoc]
  · rcases state.database.operationAndTransactionTimerFired_spec inv.pending_scheduled with
      ⟨_, fired⟩ | ⟨_, _, _, _, _, _, fired⟩
    · exact ⟨_, fired⟩
    · exact ⟨_, fired⟩

def twoStores : IDBDatabaseInfo where
  name := some [100]
  version := 1
  maxObjectStoreID := 2
  objectStoreMap := [⟨1, ⟨1, some [97], none, false, 0, ∅⟩⟩, ⟨2, ⟨2, some [98], none, false, 0, ∅⟩⟩].toFinmap

def ascendingIdentifiers : IterationOrder UInt64 :=
  .ascending UInt64.toNat IterationOrder.toNat_injective

def clientTransaction (number : UInt64) (mode : IDBTransactionMode) (stores : List WTFString) :
    IDBTransactionInfo :=
  ⟨⟨1, number⟩, mode, stores⟩

def twoReaders : List SchedulerEvent :=
  [.enqueueTransaction (clientTransaction 1 .readonly [some [97]]), .operationAndTransactionTimerFired,
    .enqueueTransaction (clientTransaction 2 .readonly [some [97], some [98]]),
    .enqueueTransaction (clientTransaction 3 .readwrite [some [98]]),
    .operationAndTransactionTimerFired]

theorem transaction_exclusion_two_readers :
    ∃ state, run SchedulerState.step (.opened twoStores ascendingIdentifiers true) twoReaders = some state ∧
      state.started.length = 2 ∧
      state.database.objectStoreTransactionCounts =
        heldCounts state.database.objectStoreIdentifiers state.database.unfinishedTransactions := by
  refine ⟨_, rfl, rfl, ?_⟩
  exact (transaction_exclusion twoStores ascendingIdentifiers true twoReaders _ rfl).2.1

end Odyssey.IndexedDB
