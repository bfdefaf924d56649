import Odyssey.IndexedDB.IndexValueStore

namespace Odyssey.IndexedDB

open Containers List Option IndexValueEntry HashMap

variable {K : Type}

namespace IndexValueEntry

theorem create_primaryKeys (unique : Bool) : (create unique : IndexValueEntry K).primaryKeys = ∅ := by
  cases unique <;> rfl

theorem getCount_eq (entry : IndexValueEntry K) : entry.getCount = entry.primaryKeys.card := by
  cases entry with
  | unique held => cases held <;> rfl
  | ordered orderedKeys => rfl

theorem getCount_eq_zero (entry : IndexValueEntry K) : entry.getCount = 0 ↔ entry.primaryKeys = ∅ := by
  rw [getCount_eq, Finset.card_eq_zero]

theorem unique_primaryKeys {entry : IndexValueEntry K} (unique : entry.isUnique = true) {key : K}
    (member : key ∈ entry.primaryKeys) :
    entry.primaryKeys = {key} := by
  cases entry with
  | unique held =>
    have same : held = some key := Option.mem_toFinset.mp member
    rw [same]
    rfl
  | ordered orderedKeys => cases unique

theorem ext_primaryKeys {first second : IndexValueEntry K} (tag : first.isUnique = second.isUnique)
    (keys : first.primaryKeys = second.primaryKeys) : first = second := by
  cases first with
  | unique left =>
    cases second with
    | unique right =>
      have same : left = right := by
        apply ext
        intro key
        change left.toFinset = right.toFinset at keys
        rw [← mem_def, ← mem_def, ← mem_toFinset, ← mem_toFinset, keys]
      rw [same]
    | ordered _ => cases tag
  | ordered left =>
    cases second with
    | unique _ => cases tag
    | ordered right =>
      have same : left = right := keys
      rw [same]

end IndexValueEntry

variable [IDBKeyOrder K]

namespace IndexValueEntry

theorem addKey_isUnique (entry : IndexValueEntry K) (key : K) : (entry.addKey key).isUnique = entry.isUnique := by
  cases entry <;> rfl

theorem addKey_primaryKeys {entry : IndexValueEntry K} {key : K}
    (room : entry.isUnique = false ∨ entry.primaryKeys = ∅) :
    (entry.addKey key).primaryKeys = insert key entry.primaryKeys := by
  cases entry with
  | unique held =>
    rcases room with room | room
    · cases room
    · rw [room]
      rfl
  | ordered orderedKeys => rfl

variable (entry : IndexValueEntry K)

theorem removeKey_isUnique (key : K) : (entry.removeKey key).2.isUnique = entry.isUnique := by
  cases entry with
  | unique held =>
    unfold removeKey
    dsimp only
    split <;> rfl
  | ordered orderedKeys => rfl

theorem removeKey_primaryKeys (key : K) : (entry.removeKey key).2.primaryKeys = entry.primaryKeys.erase key := by
  cases entry with
  | unique held =>
    unfold removeKey
    dsimp only
    split
    · rename_i same
      subst same
      simp [primaryKeys]
    · rename_i other
      symm
      apply Finset.erase_eq_of_notMem
      intro member
      exact other (Option.mem_toFinset.mp member)
  | ordered orderedKeys => rfl

theorem removeKey_removed (key : K) : (entry.removeKey key).1 = true ↔ key ∈ entry.primaryKeys := by
  cases entry with
  | unique held =>
    unfold removeKey primaryKeys
    dsimp only
    split <;> simp_all
  | ordered orderedKeys => simp [removeKey, primaryKeys]

end IndexValueEntry

namespace IndexValueStore

def Holds (store : IndexValueStore K) (indexKey primaryKey : K) : Prop :=
  ∃ entry, store.records.lookup indexKey = some entry ∧ primaryKey ∈ entry.primaryKeys

structure WellFormed (store : IndexValueStore K) : Prop where
  ordered : store.orderedKeys = store.records.keys
  tagged : ∀ indexKey entry, store.records.lookup indexKey = some entry →
    entry.isUnique = store.unique
  nonempty : ∀ indexKey entry, store.records.lookup indexKey = some entry →
    entry.primaryKeys.Nonempty

theorem create_wellFormed (unique : Bool) : (create unique : IndexValueStore K).WellFormed where
  ordered := rfl
  tagged := by
    intro indexKey entry found
    cases found
  nonempty := by
    intro indexKey entry found
    cases found

theorem create_holds (unique : Bool) (indexKey primaryKey : K) :
    ¬ (create unique : IndexValueStore K).Holds indexKey primaryKey := by
  intro holds
  rcases holds with ⟨entry, found, _⟩
  cases found

variable {store : IndexValueStore K} {indexKey : K}

theorem WellFormed.contains_iff (valid : store.WellFormed) :
    indexKey ∈ store.records.keys ↔ ∃ primaryKey, store.Holds indexKey primaryKey := by
  rw [mem_keys_iff]
  constructor
  · intro present
    rcases present with ⟨entry, found⟩
    rcases valid.nonempty indexKey entry found with ⟨primaryKey, member⟩
    exact ⟨primaryKey, entry, found, member⟩
  · intro held
    rcases held with ⟨_, entry, found, _⟩
    exact ⟨entry, found⟩

theorem WellFormed.mem_orderedKeys (valid : store.WellFormed) :
    indexKey ∈ store.orderedKeys ↔ ∃ primaryKey, store.Holds indexKey primaryKey := by
  rw [valid.ordered, valid.contains_iff]

theorem WellFormed.eq_of_holds {first second : IndexValueStore K} (left : first.WellFormed)
    (right : second.WellFormed) (unique : first.unique = second.unique) (same : ∀ indexKey primaryKey,
      first.Holds indexKey primaryKey ↔ second.Holds indexKey primaryKey) : first = second := by
  have records : first.records = second.records := by
    apply Finmap.ext_lookup
    intro indexKey
    cases found : first.records.lookup indexKey with
    | none =>
      symm
      rw [← not_mem_keys_iff, right.contains_iff]
      rw [← not_mem_keys_iff, left.contains_iff] at found
      intro held
      rcases held with ⟨primaryKey, held⟩
      exact found ⟨primaryKey, (same indexKey primaryKey).mpr held⟩
    | some entry =>
      rcases left.nonempty indexKey entry found with ⟨primaryKey, member⟩
      rcases (same indexKey primaryKey).mp ⟨entry, found, member⟩ with ⟨other, again, _⟩
      rw [again]
      congr 1
      apply ext_primaryKeys
      · rw [left.tagged indexKey entry found, right.tagged indexKey other again, unique]
      · ext key
        have pairs := same indexKey key
        simpa only [Holds, found, again, some.injEq, exists_eq_left'] using pairs
  have ordered : first.orderedKeys = second.orderedKeys := by
    rw [left.ordered, right.ordered, records]
  cases first
  simp_all

def withEntry (store : IndexValueStore K) (indexKey : K) (entry : IndexValueEntry K) :
    IndexValueStore K :=
  { store with
    records := store.records.insert indexKey entry
    orderedKeys := insert indexKey store.orderedKeys }

theorem withEntry_wellFormed (valid : store.WellFormed) (indexKey : K) {entry : IndexValueEntry K}
    (tag : entry.isUnique = store.unique) (nonempty : entry.primaryKeys.Nonempty) :
    (store.withEntry indexKey entry).WellFormed := by
  have entries : ∀ key other, (store.withEntry indexKey entry).records.lookup key = some other →
      other.isUnique = store.unique ∧ other.primaryKeys.Nonempty := by
    intro key other found
    rw [withEntry, lookup_insert_eq] at found
    split at found
    · cases found
      exact ⟨tag, nonempty⟩
    · exact ⟨valid.tagged key other found, valid.nonempty key other found⟩
  refine ⟨?_, fun key other found => (entries key other found).1, fun key other found => (entries key other found).2⟩
  rw [withEntry, keys_insert, valid.ordered]

theorem withEntry_holds (store : IndexValueStore K) (indexKey : K) (entry : IndexValueEntry K) (key primaryKey : K) :
    (store.withEntry indexKey entry).Holds key primaryKey ↔
      if key = indexKey then primaryKey ∈ entry.primaryKeys else store.Holds key primaryKey := by
  show (∃ other, (store.records.insert indexKey entry).lookup key = some other ∧ _) ↔ _
  rw [lookup_insert_eq]
  by_cases same : key = indexKey
  · subst same
    simp
  · simp only [if_neg same]
    rfl

theorem withEntry_adds (valid : store.WellFormed) {valueKey : K} {entry : IndexValueEntry K}
    (tag : entry.isUnique = store.unique)
    (keys : ∀ primaryKey, primaryKey ∈ entry.primaryKeys ↔ store.Holds indexKey primaryKey ∨ primaryKey = valueKey) :
    (store.withEntry indexKey entry).WellFormed ∧ (store.withEntry indexKey entry).unique = store.unique ∧
      ∀ key primaryKey, (store.withEntry indexKey entry).Holds key primaryKey ↔
        store.Holds key primaryKey ∨ key = indexKey ∧ primaryKey = valueKey := by
  refine ⟨withEntry_wellFormed valid indexKey tag ⟨valueKey, (keys valueKey).mpr (.inr rfl)⟩, rfl, ?_⟩
  intro key primaryKey
  rw [withEntry_holds]
  split
  · rename_i same
    simp [same, keys]
  · rename_i other
    simp [other]

theorem addRecord_spec (valid : store.WellFormed) (indexKey valueKey : K) :
    (store.unique = true ∧ indexKey ∈ store.records.keys ∧
      store.addRecord indexKey valueKey = (some { code := .ConstraintError }, store)) ∨
    (¬ (store.unique = true ∧ indexKey ∈ store.records.keys) ∧
      ∃ added, store.addRecord indexKey valueKey = (none, added) ∧ added.WellFormed ∧ added.unique = store.unique ∧
        ∀ key primaryKey, added.Holds key primaryKey ↔
          store.Holds key primaryKey ∨ key = indexKey ∧ primaryKey = valueKey) := by
  cases found : store.records.lookup indexKey with
  | some entry =>
    have present : indexKey ∈ store.records.keys := mem_keys_iff.mpr ⟨entry, found⟩
    have tag := valid.tagged indexKey entry found
    by_cases unique : store.unique = true
    · left
      exact ⟨unique, present, by simp only [addRecord, found, if_pos unique]⟩
    · right
      refine ⟨fun both => unique both.1, store.withEntry indexKey (entry.addKey valueKey), ?_, ?_⟩
      · simp only [addRecord, found, if_neg unique]
        rfl
      · apply withEntry_adds valid
        · rw [addKey_isUnique, tag]
        · rw [addKey_primaryKeys (.inl (tag.trans (Bool.eq_false_of_not_eq_true unique)))]
          simp [Holds, found, or_comm]
  | none =>
    right
    refine ⟨fun both => not_mem_keys_iff.mpr found both.2,
      store.withEntry indexKey ((IndexValueEntry.create store.unique).addKey valueKey), ?_, ?_⟩
    · simp only [addRecord, found]
      rfl
    · apply withEntry_adds valid
      · rw [addKey_isUnique]
        cases store.unique <;> rfl
      · rw [addKey_primaryKeys (.inr (create_primaryKeys _)), create_primaryKeys]
        simp [Holds, found]

theorem removeValueKeyFrom_step (valueKey first : K)
    (state : HashMap K (IndexValueEntry K) × List K × List (IndexNotice K)) (key : K) :
    ((removeValueKeyFrom valueKey state first).1.lookup key =
      if key = first then (state.1.lookup key).map (fun entry => (entry.removeKey valueKey).2)
      else state.1.lookup key) ∧
    (key ∈ (removeValueKeyFrom valueKey state first).2.1 ↔
      key ∈ state.2.1 ∨ key = first ∧ ∃ entry, state.1.lookup key = some entry ∧
        (entry.removeKey valueKey).2.getCount = 0) := by
  unfold removeValueKeyFrom
  by_cases head : key = first
  · subst head
    cases found : state.1.lookup key with
    | none => simp [found]
    | some entry => by_cases emptied : (entry.removeKey valueKey).2.getCount = 0 <;> simp [emptied]
  · cases state.1.lookup first with
    | none => simp [head]
    | some entry => by_cases emptied : (entry.removeKey valueKey).2.getCount = 0 <;> simp [head, emptied]

theorem removeValueKeyFrom_fold (valueKey : K) (keys : List K) (nodup : keys.Nodup)
    (state : HashMap K (IndexValueEntry K) × List K × List (IndexNotice K)) :
    (∀ key, (keys.foldl (removeValueKeyFrom valueKey) state).1.lookup key =
      if key ∈ keys then (state.1.lookup key).map (fun entry => (entry.removeKey valueKey).2)
      else state.1.lookup key) ∧
    (∀ key, key ∈ (keys.foldl (removeValueKeyFrom valueKey) state).2.1 ↔
      key ∈ state.2.1 ∨ key ∈ keys ∧ ∃ entry, state.1.lookup key = some entry ∧
        (entry.removeKey valueKey).2.getCount = 0) := by
  induction keys generalizing state with
  | nil => simp
  | cons first keys ih =>
    rcases nodup_cons.mp nodup with ⟨fresh, nodup⟩
    have step := removeValueKeyFrom_step valueKey first state
    rcases ih nodup (removeValueKeyFrom valueKey state first) with ⟨lookups, removals⟩
    refine ⟨fun key => ?_, fun key => ?_⟩
    · rw [foldl_cons, lookups key, (step key).1]
      by_cases head : key = first <;> simp [head, fresh]
    · rw [foldl_cons, removals key, (step key).1, (step key).2]
      by_cases head : key = first <;> simp [head, fresh]

theorem eraseEntry_fold (keys : List K) (store : IndexValueStore K) :
    (keys.foldl eraseEntry store).unique = store.unique ∧
    (∀ key, (keys.foldl eraseEntry store).records.lookup key =
      if key ∈ keys then none else store.records.lookup key) ∧
    ∀ key, key ∈ (keys.foldl eraseEntry store).orderedKeys ↔ key ∈ store.orderedKeys ∧ key ∉ keys := by
  induction keys generalizing store with
  | nil => simp
  | cons first keys ih =>
    rcases ih (store.eraseEntry first) with ⟨unique, lookups, ordered⟩
    refine ⟨unique, ?_, ?_⟩
    · intro key
      rw [foldl_cons, lookups key, eraseEntry, lookup_erase_eq]
      by_cases head : key = first <;> simp [head]
    · intro key
      rw [foldl_cons, ordered key, eraseEntry]
      simp only [Finset.mem_erase, mem_cons]
      tauto

theorem removeEntriesWithValueKey_spec (order : IterationOrder K) (valid : store.WellFormed) (valueKey : K) :
    (store.removeEntriesWithValueKey order valueKey).1.WellFormed ∧
    (store.removeEntriesWithValueKey order valueKey).1.unique = store.unique ∧
    ∀ key primaryKey, (store.removeEntriesWithValueKey order valueKey).1.Holds key primaryKey ↔
      store.Holds key primaryKey ∧ primaryKey ≠ valueKey := by
  rcases removeValueKeyFrom_fold valueKey _ (order.visit_nodup store.records.keys)
    (store.records, [], []) with ⟨lookups, removals⟩
  simp only [not_mem_nil, order.mem_visit] at lookups removals
  unfold removeEntriesWithValueKey
  generalize (order.visit store.records.keys).foldl (removeValueKeyFrom valueKey) (store.records, [], []) = swept
    at lookups removals ⊢
  rcases swept with ⟨records, emptied, _⟩
  have changed : ∀ key, records.lookup key =
      (store.records.lookup key).map (fun entry => (entry.removeKey valueKey).2) := by
    intro key
    rw [lookups]
    split_ifs with present
    · rfl
    · rw [not_mem_keys_iff.mp present]
      rfl
  rcases eraseEntry_fold emptied { store with records := records } with ⟨unique, erased, ordered⟩
  simp only [changed] at erased
  -- An entry of the result is an old entry without the key, and not an empty one.
  have entries : ∀ key other,
      (emptied.foldl eraseEntry { store with records := records }).records.lookup key = some other ↔
      ∃ entry, store.records.lookup key = some entry ∧ (entry.removeKey valueKey).2 = other ∧
        other.primaryKeys.Nonempty := by
    intro key other
    rw [erased key]
    cases found : store.records.lookup key with
    | none => simp
    | some entry =>
      have present := mem_keys_iff.mpr ⟨entry, found⟩
      simp only [removals, present, found, getCount_eq_zero, Finset.nonempty_iff_ne_empty, true_and,
        Option.some.injEq, exists_eq_left', ite_eq_iff, reduceCtorEq, and_false, false_or, map_some]
      exact ⟨fun ⟨kept, same⟩ => ⟨same, same ▸ kept⟩, fun ⟨same, kept⟩ => ⟨same ▸ kept, same⟩⟩
  refine ⟨⟨?_, ?_, ?_⟩, unique, ?_⟩
  · ext key
    rw [ordered key, mem_keys_iff, erased key, valid.ordered, mem_keys_iff]
    split_ifs with removed <;> simp [removed]
  · intro key other found
    rcases (entries key other).mp found with ⟨entry, found, same, _⟩
    rw [← same, removeKey_isUnique, valid.tagged key entry found]
    exact unique.symm
  · intro key other found
    rcases (entries key other).mp found with ⟨_, _, _, nonempty⟩
    exact nonempty
  · intro key primaryKey
    constructor
    · intro held
      rcases held with ⟨other, found, member⟩
      rcases (entries key other).mp found with ⟨entry, found, same, _⟩
      rw [← same, removeKey_primaryKeys, Finset.mem_erase] at member
      exact ⟨⟨entry, found, member.2⟩, member.1⟩
    · intro held
      rcases held with ⟨⟨entry, found, member⟩, different⟩
      have kept : primaryKey ∈ (entry.removeKey valueKey).2.primaryKeys := by
        rw [removeKey_primaryKeys]
        exact Finset.mem_erase.mpr ⟨different, member⟩
      exact ⟨_, (entries key _).mpr ⟨entry, found, rfl, ⟨primaryKey, kept⟩⟩, kept⟩

theorem removeValueKeyFrom_notices (valueKey : K) (keys : List K) (nodup : keys.Nodup)
    (state : HashMap K (IndexValueEntry K) × List K × List (IndexNotice K)) (notice : IndexNotice K) :
    notice ∈ (keys.foldl (removeValueKeyFrom valueKey) state).2.2 ↔
      notice ∈ state.2.2 ∨ ∃ key ∈ keys, ∃ entry, state.1.lookup key = some entry ∧
        (entry.removeKey valueKey).1 = true ∧
        (notice = .primaryKeyErased key valueKey ∨ notice = .valueChanged key valueKey) := by
  induction keys generalizing state with
  | nil => simp
  | cons first keys ih =>
    rcases nodup_cons.mp nodup with ⟨fresh, nodup⟩
    rw [foldl_cons, ih nodup]
    have others : ∀ key ∈ keys, (removeValueKeyFrom valueKey state first).1.lookup key = state.1.lookup key := by
      intro key member
      rw [(removeValueKeyFrom_step valueKey first state key).1, if_neg]
      rintro rfl
      exact fresh member
    have head : notice ∈ (removeValueKeyFrom valueKey state first).2.2 ↔
        notice ∈ state.2.2 ∨ ∃ entry, state.1.lookup first = some entry ∧ (entry.removeKey valueKey).1 = true ∧
          (notice = .primaryKeyErased first valueKey ∨ notice = .valueChanged first valueKey) := by
      unfold removeValueKeyFrom
      cases state.1.lookup first with
      | none => simp
      | some entry => by_cases removed : (entry.removeKey valueKey).1 = true <;> simp [removed]
    simp only [head, mem_cons, exists_eq_or_imp]
    refine or_assoc.trans (or_congr_right (or_congr_right (exists_congr fun key => and_congr_right fun member => ?_)))
    rw [others key member]

theorem removeEntriesWithValueKey_notices (order : IterationOrder K) (store : IndexValueStore K) (valueKey : K) :
    (∀ key, store.Holds key valueKey →
      .valueChanged key valueKey ∈ (store.removeEntriesWithValueKey order valueKey).2) ∧
    ∀ notice ∈ (store.removeEntriesWithValueKey order valueKey).2, ∀ key primaryKey,
      store.Holds key primaryKey → primaryKey ≠ valueKey →
      notice ≠ .keyErased key ∧ notice ≠ .entryErased key ∧ notice ≠ .primaryKeyErased key primaryKey := by
  have nodup := order.visit_nodup store.records.keys
  have sent := removeValueKeyFrom_notices valueKey _ nodup (store.records, [], [])
  have emptied := (removeValueKeyFrom_fold valueKey _ nodup (store.records, [], [])).2
  simp only [not_mem_nil, false_or, order.mem_visit] at sent emptied
  have remains : ∀ key primaryKey, store.Holds key primaryKey → primaryKey ≠ valueKey →
      key ∉ ((order.visit store.records.keys).foldl (removeValueKeyFrom valueKey) (store.records, [], [])).2.1 := by
    intro key primaryKey holds other removed
    rcases holds with ⟨entry, found, member⟩
    rcases (emptied key).mp removed with ⟨_, again, refound, empty⟩
    rw [found] at refound
    cases refound
    rw [getCount_eq_zero, removeKey_primaryKeys] at empty
    exact Finset.notMem_empty primaryKey (empty ▸ Finset.mem_erase.mpr ⟨other, member⟩)
  refine ⟨?_, ?_⟩
  · intro key holds
    rcases holds with ⟨entry, found, member⟩
    apply mem_append_left
    exact (sent _).mpr ⟨key, mem_keys_iff.mpr ⟨entry, found⟩, entry, found,
      (removeKey_removed entry valueKey).mpr member, .inr rfl⟩
  · intro notice announced key primaryKey holds other
    rcases mem_append.mp announced with early | late
    · rcases (sent notice).mp early with ⟨_, _, _, _, _, rfl | rfl⟩
      · refine ⟨nofun, nofun, ?_⟩
        intro same
        cases same
        exact other rfl
      · exact ⟨nofun, nofun, nofun⟩
    · rcases mem_flatMap.mp late with ⟨gone, removed, sort⟩
      have apart : gone ≠ key := by
        intro same
        exact remains key primaryKey holds other (same ▸ removed)
      simp only [mem_cons, not_mem_nil, or_false] at sort
      rcases sort with rfl | rfl
      · exact ⟨fun same => apart (IndexNotice.keyErased.inj same), nofun, nofun⟩
      · exact ⟨nofun, fun same => apart (IndexNotice.entryErased.inj same), nofun⟩

end IndexValueStore

end Odyssey.IndexedDB
