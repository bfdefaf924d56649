import Odyssey.Containers.ListOrder
import Odyssey.IndexedDB.SchedulerExclusion

namespace Odyssey.IndexedDB

open Containers List UniqueIDBDatabase
open Systems

/-- No readwrite transaction that could run now is queued behind blocked transactions of which one
    is readonly and shares an object store with it. -/
def UniqueIDBDatabase.ReadersFirst (database : UniqueIDBDatabase) : Prop :=
  ∀ before writer after, database.pendingTransactions = before ++ writer :: after →
    writer.isReadOnly = false → database.AllBlocked [] before → ¬ database.Blocked before writer →
    ∀ reader ∈ before, reader.isReadOnly = true →
      ¬ Overlapping database.objectStoreIdentifiers reader writer

structure SchedulerState.Ordered (state : SchedulerState) : Prop where
  exclusive : state.Exclusive
  ordered : ∀ first second, [first, second].Sublist state.enqueued →
    Overlapping state.database.objectStoreIdentifiers first second →
    first.isReadOnly = false ∨ second.isReadOnly = false → second ∈ state.started →
    [first, second].Sublist state.started

namespace SchedulerState.Ordered

variable {state : SchedulerState}

theorem withTimer (inv : state.Ordered) (active : Bool) (activating : List IDBTransactionInfo) :
    ({ state with database := state.database.withTimer active activating } : SchedulerState).Ordered :=
  ⟨inv.exclusive.withTimer active activating, inv.ordered⟩

theorem enqueueTransaction (inv : state.Ordered) {transaction : IDBTransactionInfo}
    (mode : transaction.mode ≠ .versionchange)
    (fresh : transaction.identifier ∉ state.enqueued.map IDBTransactionInfo.identifier) :
    ({ state with
      database := state.database.enqueueTransaction transaction
      enqueued := state.enqueued ++ [transaction] } : SchedulerState).Ordered := by
  refine ⟨inv.exclusive.enqueueTransaction mode fresh, ?_⟩
  intro first second ordered overlapping conflict started
  have enqueued := (inv.exclusive.mem_enqueued second).mpr (Or.inr started)
  have new : transaction ∉ state.enqueued := fun member => fresh (mem_map_of_mem member)
  have nodup : (state.enqueued ++ [transaction]).Nodup :=
    nodup_append.mpr ⟨inv.exclusive.enqueued_nodup, nodup_singleton _, by
      intro left member right single same
      rw [mem_singleton.mp single] at same
      exact new (same ▸ member)⟩
  have earlier : first ∈ state.enqueued := by
    rcases append_of_mem enqueued with ⟨front, back, split⟩
    rw [split] at ordered nodup ⊢
    rw [append_assoc] at ordered nodup
    exact mem_append_left _ (mem_front_of_pair nodup ordered)
  have kept : [first, second].Sublist state.enqueued :=
    pair_sublist_of_mem (sublist_append_left _ _) nodup ordered earlier enqueued
  exact inv.ordered first second kept overlapping conflict started

theorem startTransaction (inv : state.Ordered) {before after : List IDBTransactionInfo}
    {transaction : IDBTransactionInfo} (split : state.database.pendingTransactions = before ++ transaction :: after)
    (all : state.database.AllBlocked [] before) (free : ¬ state.database.Blocked before transaction)
    (readersFirst : state.database.ReadersFirst) :
    ({ state with
      database := (state.database.withPending (before ++ after)).startTransaction transaction
      started := state.started ++ [transaction] } : SchedulerState).Ordered := by
  refine ⟨inv.exclusive.startTransaction split free, ?_⟩
  rw [startTransaction_eq]
  intro first second ordered overlapping conflict started
  rcases mem_append.mp started with started | started
  · have kept := inv.ordered first second ordered overlapping conflict started
    exact kept.trans (sublist_append_left _ _)
  have same : second = transaction := mem_singleton.mp started
  subst same
  have enqueued : first ∈ state.enqueued := ordered.subset mem_cons_self
  rcases (inv.exclusive.mem_enqueued first).mp enqueued with pending | started
  · exfalso
    have nodup := inv.exclusive.queued.nodup inv.exclusive.enqueued_nodup
    have queued : second ∈ state.database.pendingTransactions := by
      rw [split]
      exact mem_append_right _ mem_cons_self
    have kept := pair_sublist_of_mem inv.exclusive.queued inv.exclusive.enqueued_nodup ordered pending queued
    rw [split] at kept nodup
    have front := mem_front_of_pair nodup kept
    rcases overlapping with ⟨store, left, right⟩
    cases readOnly : first.isReadOnly with
    | false => exact free ⟨store, right, Or.inr ⟨first, front, readOnly, left⟩⟩
    | true =>
      have writes : second.isReadOnly = false := by
        rcases conflict with writes | writes
        · rw [readOnly] at writes
          cases writes
        · exact writes
      exact readersFirst before second after split writes all free first front readOnly ⟨store, left, right⟩
  · exact (List.singleton_sublist.mpr started).append (List.Sublist.refl [second])

theorem step (state : SchedulerState) (event : SchedulerEvent) (next : SchedulerState) (inv : state.Ordered)
    (readersFirst : event = .operationAndTransactionTimerFired → state.database.ReadersFirst)
    (stepped : state.step event = some next) : next.Ordered := by
  cases step_cases inv.exclusive.pending_scheduled stepped with
  | enqueues mode fresh => exact inv.enqueueTransaction mode fresh
  | arms | waits | activates => exact inv.withTimer _ _
  | starts split all free => exact (inv.startTransaction split all free (readersFirst rfl)).withTimer _ _
  | prepares identifier =>
    refine ⟨inv.exclusive.prepareToFinishTransaction identifier, ?_⟩
    unfold prepareToFinishTransaction
    split
    · exact inv.ordered
    · exact inv.ordered
  | performs performed =>
    refine ⟨inv.exclusive.didPerformTransaction performed, ?_⟩
    rcases Option.bind_eq_some_iff.mp performed with ⟨finished, _, result⟩
    cases result
    rw [transactionCompleted_eq]
    exact inv.ordered

end SchedulerState.Ordered

/-- In every run in which the timer fires only while `ReadersFirst` holds, of two transactions that
    share an object store and do not both only read the one enqueued first is started first. -/
theorem start_order_of_readersFirst (databaseInfo : IDBDatabaseInfo)
    (objectStoreOrder : IterationOrder UInt64) (simultaneous : Bool) (events : List SchedulerEvent)
    (state : SchedulerState)
    (readersFirst : StepsMeet SchedulerState.step
      (fun state event => event = .operationAndTransactionTimerFired → state.database.ReadersFirst)
      (.opened databaseInfo objectStoreOrder simultaneous) events)
    (ran : run SchedulerState.step (.opened databaseInfo objectStoreOrder simultaneous) events = some state) :
    ∀ first second, [first, second].Sublist state.enqueued →
      Overlapping state.database.objectStoreIdentifiers first second →
      first.isReadOnly = false ∨ second.isReadOnly = false → second ∈ state.started →
      [first, second].Sublist state.started := by
  have start : (SchedulerState.opened databaseInfo objectStoreOrder simultaneous).Ordered := by
    refine ⟨SchedulerState.Exclusive.opened databaseInfo objectStoreOrder simultaneous, ?_⟩
    intro first second _ _ _ started
    cases started
  exact (run_invariant_of_meets SchedulerState.Ordered.step events start readersFirst ran).ordered

theorem readersFirst_of_alone {database : UniqueIDBDatabase} {transaction : IDBTransactionInfo}
    (alone : database.pendingTransactions = [transaction]) : database.ReadersFirst := by
  intro before writer after split _ _ _ reader member
  rw [alone] at split
  rcases cons_eq_append_iff.mp split with ⟨rfl, _⟩ | ⟨tail, _, rest⟩
  · cases member
  · exact absurd rest.symm (append_ne_nil_of_right_ne_nil _ (cons_ne_nil _ _))

def readerBehindWriter : List SchedulerEvent :=
  [.enqueueTransaction (clientTransaction 1 .readwrite [some [97]]), .operationAndTransactionTimerFired,
    .enqueueTransaction (clientTransaction 2 .readonly [some [97], some [98]]),
    .operationAndTransactionTimerFired,
    .prepareToFinishTransaction ⟨1, 1⟩,
    .didPerformTransaction ⟨1, 1⟩,
    .operationAndTransactionTimerFired]

theorem start_order_reader_behind_writer :
    ∃ state, run SchedulerState.step (.opened twoStores ascendingIdentifiers true) readerBehindWriter =
        some state ∧
      [clientTransaction 1 .readwrite [some [97]],
        clientTransaction 2 .readonly [some [97], some [98]]].Sublist state.started := by
  refine ⟨_, rfl, ?_⟩
  refine start_order_of_readersFirst twoStores ascendingIdentifiers true readerBehindWriter _ ?_ rfl _ _
    (by decide) ⟨1, by decide, by decide⟩ (Or.inl rfl) (by decide)
  refine .cons nofun rfl (.cons (fun _ => readersFirst_of_alone rfl) rfl ?_)
  refine .cons nofun rfl (.cons (fun _ => readersFirst_of_alone rfl) rfl ?_)
  refine .cons nofun rfl (.cons nofun rfl ?_)
  exact .cons (fun _ => readersFirst_of_alone rfl) rfl trivial

/-- The writer of the second store starts while the reader of both, enqueued before it, still waits
    for the writer of the first. -/
theorem writer_overtakes_deferred_reader :
    ∃ state, run SchedulerState.step (.opened twoStores ascendingIdentifiers true)
        [.enqueueTransaction (clientTransaction 1 .readwrite [some [97]]), .operationAndTransactionTimerFired,
          .enqueueTransaction (clientTransaction 2 .readonly [some [97], some [98]]),
          .enqueueTransaction (clientTransaction 3 .readwrite [some [98]]),
          .operationAndTransactionTimerFired] = some state ∧
      ∃ first second, [first, second].Sublist state.enqueued ∧
        Overlapping state.database.objectStoreIdentifiers first second ∧
        second.isReadOnly = false ∧ second ∈ state.started ∧ first ∉ state.started := by
  refine ⟨_, rfl, clientTransaction 2 .readonly [some [97], some [98]],
    clientTransaction 3 .readwrite [some [98]], ?_⟩
  exact ⟨by decide, ⟨2, by decide, by decide⟩, by decide, by decide, by decide⟩

end Odyssey.IndexedDB
