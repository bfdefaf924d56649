import Odyssey.IndexedDB.BackingStoreSpec
import Odyssey.IndexedDB.RecordFrames

namespace Odyssey.IndexedDB

open Containers Option Function Finset HashMap.FiledBy

variable {K Object : Type} [IDBKeyOrder K]

structure StoreOwner where
  identifier : UInt64
  name : WTFString
  writer : Option IDBResourceIdentifier

structure LiveTransaction where
  info : IDBTransactionInfo
  objectStores : Finset StoreRef
  deletedObjectStores : Finset StoreRef

/-- What the registration of object stores and the start of transactions depend on. -/
structure StoreRegistry where
  byIdentifier : HashMap UInt64 StoreRef
  byName : HashMap WTFString StoreRef
  nextStore : StoreRef
  owner : StoreRef → StoreOwner
  live : IDBResourceIdentifier → Option LiveTransaction
  listed : UInt64 → Option (UInt64 × WTFString)

def IDBObjectStoreInfo.listing (info : IDBObjectStoreInfo) : UInt64 × WTFString :=
  (info.identifier, info.name)

def MemoryBackingStoreTransaction.live (transaction : MemoryBackingStoreTransaction K) :
    LiveTransaction :=
  ⟨transaction.info, transaction.objectStores, MemoryIDBBackingStore.deletedStores transaction⟩

def MemoryObjectStore.owner (store : MemoryObjectStore K) : StoreOwner :=
  ⟨store.info.identifier, store.info.name, store.writeTransaction⟩

def MemoryIDBBackingStore.registry (backingStore : MemoryIDBBackingStore K) : StoreRegistry where
  byIdentifier := backingStore.objectStoresByIdentifier
  byName := backingStore.objectStoresByName
  nextStore := backingStore.nextStore
  owner := fun ref => (backingStore.stores ref).owner
  live := fun identifier => (backingStore.transactions.lookup identifier).map (·.live)
  listed := fun identifier =>
    (backingStore.databaseInfo.objectStoreMap.lookup identifier).map (·.listing)

def IDBTransactionInfo.Writes (info : IDBTransactionInfo) (name : WTFString) : Prop :=
  match info.mode with
  | .versionchange => True
  | .readwrite => name ∈ info.objectStores
  | .readonly => False

namespace StoreRegistry

structure Filed (registry : StoreRegistry) : Prop where
  identified : ∀ identifier ref, registry.byIdentifier.lookup identifier = some ref →
    (registry.owner ref).identifier = identifier ∧
      registry.byName.lookup (registry.owner ref).name = some ref
  named : ∀ name ref, registry.byName.lookup name = some ref →
    (registry.owner ref).name = name ∧
      registry.byIdentifier.lookup (registry.owner ref).identifier = some ref

/-- The stores are filed, the database info lists them, and the transactions write what they are
    meant to write and nothing else. -/
structure InOrder (registry : StoreRegistry) : Prop extends registry.Filed where
  older : ∀ identifier ref, registry.byIdentifier.lookup identifier = some ref → ref < registry.nextStore
  listed : ∀ identifier, registry.listed identifier = (registry.byIdentifier.lookup identifier).map
    (fun ref => (identifier, (registry.owner ref).name))
  keyed : ∀ identifier transaction, registry.live identifier = some transaction →
    transaction.info.identifier = identifier
  inScope : ∀ identifier transaction, registry.live identifier = some transaction → ∀ ref,
    ref ∈ transaction.objectStores ↔ (∃ key, registry.byIdentifier.lookup key = some ref) ∧
      transaction.info.Writes (registry.owner ref).name
  written : ∀ key ref, registry.byIdentifier.lookup key = some ref → ∀ identifier,
    (registry.owner ref).writer = some identifier ↔
      ∃ transaction, registry.live identifier = some transaction ∧ ref ∈ transaction.objectStores
  alone : ∀ identifier transaction, registry.live identifier = some transaction →
    transaction.info.mode = .versionchange → ∀ other, registry.live other ≠ none → other = identifier
  undeleted : ∀ identifier transaction, registry.live identifier = some transaction →
    transaction.info.mode ≠ .versionchange → transaction.deletedObjectStores = ∅

variable {registry : StoreRegistry}

theorem Filed.name_injective (filed : registry.Filed) {first second : UInt64} {left right : StoreRef}
    (foundLeft : registry.byIdentifier.lookup first = some left)
    (foundRight : registry.byIdentifier.lookup second = some right)
    (same : (registry.owner left).name = (registry.owner right).name) : left = right := by
  have filedLeft := (filed.identified first left foundLeft).2
  have filedRight := (filed.identified second right foundRight).2
  rw [same, filedRight] at filedLeft
  exact (some.inj filedLeft).symm

variable (info : IDBTransactionInfo) (refs : Finset StoreRef)

def start (registry : StoreRegistry) : StoreRegistry :=
  { registry with
    owner := fun ref => if ref ∈ refs
      then { registry.owner ref with writer := some info.identifier } else registry.owner ref
    live := Function.update registry.live info.identifier (some ⟨info, refs, ∅⟩) }

theorem start_name (ref : StoreRef) : ((registry.start info refs).owner ref).name = (registry.owner ref).name := by
  unfold start
  dsimp only
  split <;> rfl

theorem start_identifier (ref : StoreRef) :
    ((registry.start info refs).owner ref).identifier = (registry.owner ref).identifier := by
  unfold start
  dsimp only
  split <;> rfl

/-- The scheduler starts no transaction beside a version change, no version change beside another
    transaction, and no two writers of one store. -/
def Admits (registry : StoreRegistry) (info : IDBTransactionInfo) : Prop :=
  ∀ identifier transaction, registry.live identifier = some transaction →
    transaction.info.mode ≠ .versionchange ∧ info.mode ≠ .versionchange ∧
      ∀ name, info.Writes name → ¬ transaction.info.Writes name

theorem InOrder.start (inOrder : registry.InOrder) {info : IDBTransactionInfo} {refs : Finset StoreRef}
    (fresh : registry.live info.identifier = none) (admitted : registry.Admits info)
    (scope : ∀ ref, ref ∈ refs ↔ (∃ key, registry.byIdentifier.lookup key = some ref) ∧
      info.Writes (registry.owner ref).name) : (registry.start info refs).InOrder where
  identified := by
    intro identifier ref found
    rw [start_identifier, start_name]
    exact inOrder.identified identifier ref found
  named := by
    intro name ref found
    rw [start_identifier, start_name]
    exact inOrder.named name ref found
  older := inOrder.older
  listed := by
    intro identifier
    simp only [start_name]
    exact inOrder.listed identifier
  keyed := HashMap.forall_update_some rfl (fun identifier transaction _ => inOrder.keyed identifier transaction)
  inScope := by
    apply HashMap.forall_update_some
    · intro ref
      rw [start_name]
      exact scope ref
    · intro identifier transaction _ found ref
      rw [start_name]
      exact inOrder.inScope identifier transaction found ref
  written := by
    intro key ref found identifier
    -- A store that is written already is in no scope that is admitted.
    have unwritten : ref ∈ refs → (registry.owner ref).writer ≠ some identifier := by
      intro member writer
      rcases (inOrder.written key ref found identifier).mp writer with ⟨transaction, live, inside⟩
      exact (admitted identifier transaction live).2.2 _ ((scope ref).mp member).2
        ((inOrder.inScope identifier transaction live ref).mp inside).2
    by_cases same : identifier = info.identifier
    · subst same
      have dead : (registry.owner ref).writer ≠ some info.identifier := by
        intro writer
        rcases (inOrder.written key ref found info.identifier).mp writer with ⟨_, live, _⟩
        rw [fresh] at live
        cases live
      by_cases member : ref ∈ refs
      · simp [StoreRegistry.start, member]
      · simp [StoreRegistry.start, member, dead]
    · have before := inOrder.written key ref found identifier
      simp only [StoreRegistry.start, update_of_ne same]
      by_cases member : ref ∈ refs
      · rw [if_pos member]
        constructor
        · intro writer
          exact absurd (some.inj writer).symm same
        · intro live
          exact absurd (before.mpr live) (unwritten member)
      · rw [if_neg member]
        exact before
  alone := by
    apply HashMap.forall_update_some
    · intro mode other live
      by_contra different
      simp only [StoreRegistry.start, update_of_ne different] at live
      rcases ne_none_iff_exists.mp live with ⟨running, found⟩
      exact (admitted other running found.symm).2.1 mode
    · intro identifier transaction _ found mode
      exact absurd mode (admitted identifier transaction found).1
  undeleted := by
    apply HashMap.forall_update_some
    · exact fun _ => rfl
    · exact fun identifier transaction _ => inOrder.undeleted identifier transaction

variable (identifier : IDBResourceIdentifier) (refs : Finset StoreRef)

def finish (registry : StoreRegistry) : StoreRegistry :=
  { registry with
    owner := fun ref => if ref ∈ refs then { registry.owner ref with writer := none }
      else registry.owner ref
    live := Function.update registry.live identifier none }

theorem finish_name (ref : StoreRef) :
    ((registry.finish identifier refs).owner ref).name = (registry.owner ref).name := by
  unfold finish
  dsimp only
  split <;> rfl

theorem finish_identifier (ref : StoreRef) :
    ((registry.finish identifier refs).owner ref).identifier = (registry.owner ref).identifier := by
  unfold finish
  dsimp only
  split <;> rfl

variable {transaction : LiveTransaction}

theorem finish_live {identifier other : IDBResourceIdentifier} {refs : Finset StoreRef}
    (found : (registry.finish identifier refs).live other = some transaction) :
    other ≠ identifier ∧ registry.live other = some transaction := by
  by_cases same : other = identifier
  · subst same
    simp [finish] at found
  · simp only [finish, update_of_ne same] at found
    exact ⟨same, found⟩

variable (inOrder : registry.InOrder)
include inOrder

theorem InOrder.finish {identifier : IDBResourceIdentifier} (found : registry.live identifier = some transaction) :
    (registry.finish identifier (transaction.objectStores ∪ transaction.deletedObjectStores)).InOrder where
  identified := by
    intro key ref filed
    rw [finish_identifier, finish_name]
    exact inOrder.identified key ref filed
  named := by
    intro name ref filed
    rw [finish_identifier, finish_name]
    exact inOrder.named name ref filed
  older := inOrder.older
  listed := by
    intro key
    simp only [finish_name]
    exact inOrder.listed key
  keyed := fun other running live => inOrder.keyed other running (finish_live live).2
  inScope := by
    intro other running live ref
    rw [finish_name]
    exact inOrder.inScope other running (finish_live live).2 ref
  written := by
    intro key ref filed other
    have before := inOrder.written key ref filed
    constructor
    · intro writer
      by_cases member : ref ∈ transaction.objectStores ∪ transaction.deletedObjectStores
      · simp only [StoreRegistry.finish, if_pos member] at writer
        cases writer
      · simp only [StoreRegistry.finish, if_neg member] at writer ⊢
        rcases (before other).mp writer with ⟨running, live, inside⟩
        have different : other ≠ identifier := by
          intro same
          rw [same, found] at live
          cases live
          exact member (mem_union_left _ inside)
        exact ⟨running, by rw [update_of_ne different, live], inside⟩
    · rintro ⟨running, live, inside⟩
      rcases finish_live live with ⟨different, live⟩
      have writer := (before other).mpr ⟨running, live, inside⟩
      have outside : ref ∉ transaction.objectStores ∪ transaction.deletedObjectStores := by
        intro member
        rcases mem_union.mp member with member | member
        · have own := (before identifier).mpr ⟨transaction, found, member⟩
          rw [writer] at own
          exact different (some.inj own)
        · by_cases mode : transaction.info.mode = .versionchange
          · exact different (inOrder.alone identifier transaction found mode other (by rw [live]; simp))
          · rw [inOrder.undeleted identifier transaction found mode] at member
            exact notMem_empty ref member
      simp only [StoreRegistry.finish, if_neg outside]
      exact writer
  alone := by
    intro other running live mode third alive
    apply inOrder.alone other running (finish_live live).2 mode
    rcases ne_none_iff_exists.mp alive with ⟨_, alive⟩
    rw [(finish_live alive.symm).2]
    simp
  undeleted := fun other running live => inOrder.undeleted other running (finish_live live).2

theorem InOrder.upgraded {next : StoreRegistry} {changed : LiveTransaction}
    (found : registry.live transaction.info.identifier = some transaction)
    (upgrading : transaction.info.mode = .versionchange)
    (live : next.live = Function.update registry.live transaction.info.identifier (some changed))
    (info : changed.info = transaction.info) (filed : next.Filed)
    (older : ∀ identifier ref, next.byIdentifier.lookup identifier = some ref → ref < next.nextStore)
    (listed : ∀ identifier, next.listed identifier = (next.byIdentifier.lookup identifier).map
      (fun ref => (identifier, (next.owner ref).name)))
    (inScope : ∀ ref, ref ∈ changed.objectStores ↔ ∃ key, next.byIdentifier.lookup key = some ref)
    (written : ∀ key ref, next.byIdentifier.lookup key = some ref →
      (next.owner ref).writer = some transaction.info.identifier) : next.InOrder := by
  have only : ∀ identifier running, next.live identifier = some running →
      identifier = transaction.info.identifier ∧ running = changed := by
    intro identifier running alive
    rw [live] at alive
    by_cases same : identifier = transaction.info.identifier
    · rw [same, update_self] at alive
      exact ⟨same, (some.inj alive).symm⟩
    · rw [update_of_ne same] at alive
      exact absurd (inOrder.alone _ transaction found upgrading identifier (by rw [alive]; simp)) same
  refine ⟨filed, older, listed, ?_, ?_, ?_, ?_, ?_⟩
  · intro identifier running alive
    obtain ⟨rfl, rfl⟩ := only identifier running alive
    rw [info]
  · intro identifier running alive ref
    obtain ⟨rfl, rfl⟩ := only identifier running alive
    rw [inScope]
    simp [IDBTransactionInfo.Writes, info, upgrading]
  · intro key ref isFiled identifier
    rw [written key ref isFiled]
    constructor
    · intro same
      rw [live, ← some.inj same, update_self]
      exact ⟨changed, rfl, (inScope ref).mpr ⟨key, isFiled⟩⟩
    · rintro ⟨running, alive, _⟩
      rw [(only identifier running alive).1]
  · intro identifier running alive _ other alone
    obtain ⟨second, alone⟩ := ne_none_iff_exists.mp alone
    rw [(only other second alone.symm).1, (only identifier running alive).1]
  · intro identifier running alive mode
    obtain ⟨rfl, rfl⟩ := only identifier running alive
    exact absurd (info ▸ upgrading) mode

def create (transaction : LiveTransaction) (identifier : UInt64) (name : WTFString)
    (registry : StoreRegistry) : StoreRegistry where
  byIdentifier := registry.byIdentifier.insert identifier registry.nextStore
  byName := registry.byName.insert name registry.nextStore
  nextStore := registry.nextStore + 1
  owner := Function.update registry.owner registry.nextStore
    ⟨identifier, name, some transaction.info.identifier⟩
  live := Function.update registry.live transaction.info.identifier (some { transaction with
    objectStores := insert registry.nextStore transaction.objectStores })
  listed := Function.update registry.listed identifier (some (identifier, name))

def delete (transaction : LiveTransaction) (identifier : UInt64) (ref : StoreRef)
    (deleted : Finset StoreRef) (registry : StoreRegistry) : StoreRegistry :=
  { registry with
    byIdentifier := registry.byIdentifier.erase identifier
    byName := registry.byName.erase (registry.owner ref).name
    live := Function.update registry.live transaction.info.identifier (some { transaction with
      objectStores := transaction.objectStores.erase ref, deletedObjectStores := deleted })
    listed := Function.update registry.listed identifier none }

variable (found : registry.live transaction.info.identifier = some transaction)
include found

variable (upgrading : transaction.info.mode = .versionchange)
include upgrading

theorem InOrder.written_of_filed {key : UInt64} {ref : StoreRef} (filed : registry.byIdentifier.lookup key = some ref) :
    ref ∈ transaction.objectStores ∧ (registry.owner ref).writer = some transaction.info.identifier := by
  have inside : ref ∈ transaction.objectStores := by
    apply (inOrder.inScope _ transaction found ref).mpr
    exact ⟨⟨key, filed⟩, by simp [IDBTransactionInfo.Writes, upgrading]⟩
  exact ⟨inside, (inOrder.written key ref filed _).mpr ⟨transaction, found, inside⟩⟩

theorem InOrder.create {identifier : UInt64} {name : WTFString}
    (unused : registry.byIdentifier.lookup identifier = none) (unnamed : registry.byName.lookup name = none) :
    (registry.create transaction identifier name).InOrder := by
  have owner_old : ∀ key ref, registry.byIdentifier.lookup key = some ref →
      (registry.create transaction identifier name).owner ref = registry.owner ref := by
    intro key ref filed
    exact update_of_ne (ne_of_lt (inOrder.older key ref filed)) _ _
  have owner_new : (registry.create transaction identifier name).owner registry.nextStore =
      ⟨identifier, name, some transaction.info.identifier⟩ := update_self _ _ _
  have filed_iff : ∀ key ref, (registry.create transaction identifier name).byIdentifier.lookup key = some ref ↔
      key = identifier ∧ ref = registry.nextStore ∨ registry.byIdentifier.lookup key = some ref := by
    intro key ref
    by_cases same : key = identifier
    · subst same
      simp [StoreRegistry.create, unused, eq_comm]
    · simp [StoreRegistry.create, same]
  refine inOrder.upgraded found upgrading rfl rfl ⟨?_, ?_⟩ ?_ ?_ ?_ ?_
  · apply insert inOrder.identified unnamed (by rw [owner_new]; exact ⟨rfl, rfl⟩)
    intro key ref filed
    rw [owner_old key ref filed]
    exact ⟨rfl, rfl⟩
  · apply insert inOrder.named unused (by rw [owner_new]; exact ⟨rfl, rfl⟩)
    intro key ref filed
    rw [owner_old _ ref (inOrder.named key ref filed).2]
    exact ⟨rfl, rfl⟩
  · intro key ref filed
    rcases (filed_iff key ref).mp filed with ⟨_, rfl⟩ | filed
    · exact Nat.lt_succ_self _
    · exact Nat.lt_succ_of_lt (inOrder.older key ref filed)
  · intro key
    by_cases same : key = identifier
    · rw [same]
      simp [StoreRegistry.create]
    · have before := inOrder.listed key
      cases filed : registry.byIdentifier.lookup key with
      | none =>
        simp [StoreRegistry.create, same, filed, before]
      | some ref =>
        rw [(filed_iff ..).mpr (.inr filed), map_some, owner_old key ref filed]
        rw [filed] at before
        simp [StoreRegistry.create, same, before]
  · intro ref
    rw [mem_insert]
    constructor
    · rintro (rfl | inside)
      · exact ⟨identifier, (filed_iff ..).mpr (.inl ⟨rfl, rfl⟩)⟩
      · obtain ⟨⟨key, filed⟩, _⟩ := (inOrder.inScope _ transaction found ref).mp inside
        exact ⟨key, (filed_iff ..).mpr (.inr filed)⟩
    · rintro ⟨key, filed⟩
      rcases (filed_iff key ref).mp filed with ⟨_, rfl⟩ | filed
      · exact .inl rfl
      · exact .inr (inOrder.written_of_filed found upgrading filed).1
  · intro key ref filed
    rcases (filed_iff key ref).mp filed with ⟨_, rfl⟩ | filed
    · rw [owner_new]
    · rw [owner_old key ref filed]
      exact (inOrder.written_of_filed found upgrading filed).2

theorem InOrder.delete {identifier : UInt64} {ref : StoreRef}
    (filed : registry.byIdentifier.lookup identifier = some ref) (deleted : Finset StoreRef) :
    (registry.delete transaction identifier ref deleted).InOrder := by
  rcases inOrder.identified identifier ref filed with ⟨identified, named⟩
  have filed_iff : ∀ key other,
      (registry.delete transaction identifier ref deleted).byIdentifier.lookup key = some other ↔
        registry.byIdentifier.lookup key = some other ∧ other ≠ ref := by
    intro key other
    simp only [StoreRegistry.delete, HashMap.lookup_erase_eq]
    constructor
    · intro kept
      split at kept
      · cases kept
      · rename_i different
        refine ⟨kept, ?_⟩
        rintro rfl
        exact different ((inOrder.identified key other kept).1.symm.trans identified)
    · rintro ⟨kept, different⟩
      rw [if_neg, kept]
      rintro rfl
      rw [filed] at kept
      exact different (some.inj kept).symm
  refine inOrder.upgraded found upgrading rfl rfl ⟨?_, ?_⟩ ?_ ?_ ?_ ?_
  · exact erase inOrder.identified identified named
  · exact erase inOrder.named rfl filed
  · intro key other kept
    exact inOrder.older key other ((filed_iff key other).mp kept).1
  · intro key
    have before := inOrder.listed key
    by_cases same : key = identifier
    · subst same
      simp [StoreRegistry.delete]
    · simpa [StoreRegistry.delete, same] using before
  · intro other
    rw [mem_erase]
    constructor
    · rintro ⟨different, inside⟩
      obtain ⟨⟨key, kept⟩, _⟩ := (inOrder.inScope _ transaction found other).mp inside
      exact ⟨key, (filed_iff key other).mpr ⟨kept, different⟩⟩
    · rintro ⟨key, kept⟩
      rcases (filed_iff key other).mp kept with ⟨kept, different⟩
      exact ⟨different, (inOrder.written_of_filed found upgrading kept).1⟩
  · intro key other kept
    exact (inOrder.written_of_filed found upgrading ((filed_iff key other).mp kept).1).2

end StoreRegistry

end Odyssey.IndexedDB
