import Odyssey.IndexedDB.SchedulerExclusion

namespace Odyssey.IndexedDB

open Containers List Option UniqueIDBDatabase HashMap Multiset
open Systems

/-- The clients' events, and whatever else arms the timer. -/
def SchedulerEvent.fromOutside : SchedulerEvent → Bool
  | .enqueueTransaction _ | .invokeOperationAndTransactionTimer => true
  | _ => false

namespace SchedulerState

/-- A transaction that could start now need not wait for another request: the timer is active, or the
    reply to an activation will arm it. -/
structure Awake (state : SchedulerState) : Prop where
  exclusive : state.Exclusive
  awake : state.database.operationAndTransactionTimerIsActive = true ∨
    state.database.activatingTransactions ≠ [] ∨ state.database.Waits

variable {state : SchedulerState}

theorem Awake.prepareToFinishTransaction (inv : state.Awake) (identifier : IDBResourceIdentifier) :
    ({ state with database := (state.database.prepareToFinishTransaction identifier).2 } : SchedulerState).Awake := by
  refine ⟨inv.exclusive.prepareToFinishTransaction identifier, ?_⟩
  unfold UniqueIDBDatabase.prepareToFinishTransaction
  cases found : state.database.inProgressTransactions.lookup identifier with
  | none => exact inv.awake
  | some transaction =>
    -- One transaction is unfinished before and after, so a store that takes one at a time stays busy.
    rcases inv.awake with active | activating | busy | all
    · exact .inl active
    · exact .inr (.inl activating)
    · right; right; left
      simp only [Bool.and_eq_true] at busy ⊢
      refine ⟨busy.1, ?_⟩
      simp [hasUnfinishedTransactions, keys_insert]
    · exact .inr (.inr (.inr (all.imp (fun _ _ blocked => blocked))))

theorem Awake.step (state : SchedulerState) (event : SchedulerEvent) (next : SchedulerState) (inv : state.Awake)
    (stepped : state.step event = some next) : next.Awake := by
  have exclusive := inv.exclusive.step state event next stepped
  cases step_cases inv.exclusive.pending_scheduled stepped with
  | enqueues | arms | activates => exact ⟨exclusive, .inl rfl⟩
  | waits waits => exact ⟨exclusive, .inr (.inr ((waits_withTimer _ _ _).mpr waits))⟩
  | starts => exact ⟨exclusive, .inr (.inl (append_ne_nil_of_right_ne_nil _ (cons_ne_nil _ _)))⟩
  | prepares identifier => exact inv.prepareToFinishTransaction identifier
  | performs performed =>
    refine ⟨exclusive, .inl ?_⟩
    rcases bind_eq_some_iff.mp performed with ⟨finished, _, result⟩
    cases result
    rw [transactionCompleted_eq]

/-- The steps that are left when nothing is enqueued: a transaction starts, is activated, prepares to
    finish and finishes. -/
def remaining (state : SchedulerState) : Nat :=
  4 * state.database.pendingTransactions.length + card state.database.unfinishedTransactions +
    state.database.inProgressTransactions.keys.card + state.database.activatingTransactions.length

theorem Exclusive.lengths (inv : state.Exclusive) :
    state.enqueued.length = state.database.pendingTransactions.length + state.started.length ∧
      state.started.length = card state.database.unfinishedTransactions + state.completed.length := by
  have partitioned := congrArg card inv.partitioned
  have progressed := congrArg card inv.progressed
  simp only [card_add, coe_card] at partitioned progressed
  exact ⟨partitioned, progressed⟩

/-- Without unfinished transactions there are no locks, so the first one in the queue need not wait. -/
theorem Exclusive.pending_of_waits (inv : state.Exclusive) (waits : state.database.Waits)
    (idle : state.database.inProgressTransactions = ∅) (finished : state.database.finishingTransactions = ∅) :
    state.database.pendingTransactions = [] := by
  have unfinished : state.database.unfinishedTransactions = 0 := by
    rw [unfinishedTransactions, idle, finished]
    rfl
  have counts : state.database.objectStoreTransactionCounts = 0 := by
    rw [inv.locked.counted, unfinished]
    rfl
  have writes : state.database.objectStoreWriteTransactions = ∅ := by
    rw [inv.locked.written, unfinished]
    rfl
  rcases waits with busy | blocked
  · simp [hasUnfinishedTransactions, idle, finished] at busy
  · cases pending : state.database.pendingTransactions with
    | nil => rfl
    | cons first rest =>
      rw [pending] at blocked
      rcases blocked.1 with ⟨store, _, held⟩
      simp [counts, writes] at held

/-- A timer that fires with nothing unfinished starts a transaction. -/
theorem Exclusive.starts (inv : state.Exclusive) (idle : state.database.inProgressTransactions = ∅)
    (finished : state.database.finishingTransactions = ∅) (more : state.database.pendingTransactions ≠ [])
    (active : state.database.operationAndTransactionTimerIsActive = true) :
    ∃ next, state.step .operationAndTransactionTimerFired = some next ∧ next.enqueued = state.enqueued ∧
      next.remaining < state.remaining := by
  rcases fired_spec inv.pending_scheduled active with ⟨next, stepped, does⟩
  have after := (inv.step state _ next stepped).lengths
  have lengths := inv.lengths
  cases does with
  | waits waits => exact absurd (inv.pending_of_waits waits idle finished) more
  | starts split _ _ =>
    refine ⟨_, stepped, rfl, ?_⟩
    rw [split, length_append, length_cons] at lengths
    simp only [startTransaction_eq, withPending, UniqueIDBDatabase.withTimer, remaining, split, length_append, length_cons,
      length_nil, keys_insert, idle, Finmap.keys_empty, insert_empty_eq, Finset.card_singleton, Finset.card_empty] at after ⊢
    omega

/-- Some step that nobody outside takes brings every unfinished state closer to the end. -/
theorem Awake.progresses (inv : state.Awake) (more : state.remaining ≠ 0) : ∃ event next,
    state.step event = some next ∧ event.fromOutside = false ∧ next.enqueued = state.enqueued ∧
      next.remaining < state.remaining := by
  have lengths := inv.exclusive.lengths
  have kept {event : SchedulerEvent} {next : SchedulerState} (stepped : state.step event = some next) :=
    (inv.exclusive.step state event next stepped).lengths
  rcases empty_or_exists_mem state.database.finishingTransactions.values with finished | ⟨transaction, finishing⟩
  · have finished : state.database.finishingTransactions = ∅ := Finmap.ext (map_eq_zero.mp finished)
    rcases empty_or_exists_mem state.database.inProgressTransactions.values with idle | ⟨transaction, running⟩
    · have idle : state.database.inProgressTransactions = ∅ := Finmap.ext (map_eq_zero.mp idle)
      cases activating : state.database.activatingTransactions with
      | nil =>
        have pending : state.database.pendingTransactions ≠ [] := by
          intro empty
          apply more
          rw [remaining, unfinishedTransactions, empty, idle, finished, activating]
          rfl
        rcases inv.awake with active | replies | waits
        · rcases inv.exclusive.starts idle finished pending active with ⟨next, stepped, same, fewer⟩
          exact ⟨_, next, stepped, rfl, same, fewer⟩
        · exact absurd activating replies
        · exact absurd (inv.exclusive.pending_of_waits waits idle finished) pending
      | cons first rest =>
        have stepped : state.step .didPerformActivateTransactionInBackingStore = some { state with
            database := state.database.withTimer true rest } := by
          simp only [SchedulerState.step, UniqueIDBDatabase.didPerformActivateTransactionInBackingStore, activating]
          rfl
        refine ⟨_, _, stepped, rfl, rfl, ?_⟩
        have same : (state.database.withTimer true rest).unfinishedTransactions =
          state.database.unfinishedTransactions := rfl
        simp only [remaining, same, activating, length_cons]
        simp only [UniqueIDBDatabase.withTimer]
        omega
    · rcases mem_values.mp running with ⟨identifier, found⟩
      have stepped : state.step (.prepareToFinishTransaction identifier) = some { state with
          database := (state.database.prepareToFinishTransaction identifier).2 } := rfl
      refine ⟨_, _, stepped, rfl, rfl, ?_⟩
      have after := kept stepped
      have shorter := Finset.card_erase_lt_of_mem (mem_keys_iff.mpr ⟨transaction, found⟩)
      simp only [UniqueIDBDatabase.prepareToFinishTransaction, found, remaining, Finmap.keys_erase] at after ⊢
      omega
  · rcases mem_values.mp finishing with ⟨identifier, found⟩
    have stepped : state.step (.didPerformTransaction identifier) = some { state with
        database := transactionCompleted { state.database with
          finishingTransactions := state.database.finishingTransactions.erase identifier } transaction
        completed := state.completed ++ [transaction] } := by
      simp [SchedulerState.step, UniqueIDBDatabase.didPerformTransaction, found]
    refine ⟨_, _, stepped, rfl, rfl, ?_⟩
    have after := kept stepped
    simp only [transactionCompleted_eq, remaining, length_append, length_singleton] at after ⊢
    omega

/-- Transactions that are pending or running can always be finished, whatever their scopes. -/
theorem Awake.drains (inv : state.Awake) : ∃ events final, run SchedulerState.step state events = some final ∧
    (∀ event ∈ events, event.fromOutside = false) ∧ final.Exclusive ∧ final.enqueued = state.enqueued ∧
      final.remaining = 0 := by
  induction left : state.remaining using Nat.strong_induction_on generalizing state with
  | h left ih =>
    by_cases none : state.remaining = 0
    · exact ⟨[], state, rfl, nofun, inv.exclusive, rfl, none⟩
    · rcases inv.progresses none with ⟨event, next, stepped, inside, enqueued, fewer⟩
      rcases ih _ (left ▸ fewer) (inv.step state event next stepped) rfl with
        ⟨events, final, ran, all, done, same, empty⟩
      refine ⟨event :: events, final, ?_, forall_mem_cons.mpr ⟨inside, all⟩, done, same.trans enqueued, empty⟩
      rw [run, stepped]
      exact ran

end SchedulerState

/-- From every state that clients can bring a database to, the timer, which nobody else has to arm, and
    the replies of the backing store lead to one in which every transaction enqueued so far is completed,
    and each of them once. -/
theorem scheduler_drains (databaseInfo : IDBDatabaseInfo) (objectStoreOrder : IterationOrder UInt64)
    (simultaneous : Bool) (events : List SchedulerEvent) (state : SchedulerState)
    (ran : run SchedulerState.step (.opened databaseInfo objectStoreOrder simultaneous) events = some state) :
    ∃ more final, run SchedulerState.step state more = some final ∧ final.enqueued = state.enqueued ∧
      (∀ event ∈ more, event.fromOutside = false) ∧ final.database.pendingTransactions = [] ∧
      final.database.unfinishedTransactions = 0 ∧ final.completed.Perm state.enqueued := by
  have inv : state.Awake := run_invariant SchedulerState.Awake.step events
    ⟨SchedulerState.Exclusive.opened databaseInfo objectStoreOrder simultaneous, .inr (.inr (.inr trivial))⟩ ran
  rcases inv.drains with ⟨more, final, ended, inside, done, same, empty⟩
  have pending : final.database.pendingTransactions = [] := by
    apply length_eq_zero_iff.mp
    unfold SchedulerState.remaining at empty
    omega
  have unfinished : final.database.unfinishedTransactions = 0 := by
    apply card_eq_zero.mp
    unfold SchedulerState.remaining at empty
    omega
  refine ⟨more, final, ended, same, inside, pending, unfinished, ?_⟩
  have partitioned := done.partitioned
  rw [done.progressed, pending, unfinished, same] at partitioned
  exact coe_eq_coe.mp (by simpa using partitioned.symm)

theorem scheduler_drains_two_readers : ∃ state more final,
    run SchedulerState.step (.opened twoStores ascendingIdentifiers true) twoReaders = some state ∧
      run SchedulerState.step state more = some final ∧ final.completed.Perm state.enqueued ∧
      state.enqueued.length = 3 := by
  rcases scheduler_drains twoStores ascendingIdentifiers true twoReaders _ rfl with ⟨more, final, ended, _, _, _, _, all⟩
  exact ⟨_, more, final, rfl, ended, all, rfl⟩

end Odyssey.IndexedDB
