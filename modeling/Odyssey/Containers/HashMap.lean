import Mathlib.Data.List.Sort
import Mathlib.Data.Finmap

namespace Odyssey.Containers

open Function Finmap

/-- A hash table up to the order of its buckets. -/
abbrev HashMap (α β : Type*) := Finmap (fun _ : α => β)

namespace HashMap

variable {α β : Type*} [DecidableEq α]

theorem lookup_insert_eq (table : HashMap α β) (a x : α) (b : β) :
    (table.insert a b).lookup x = if x = a then some b else table.lookup x := by
  by_cases same : x = a
  · subst same
    rw [lookup_insert, if_pos rfl]
  · rw [lookup_insert_of_ne _ same, if_neg same]

theorem lookup_erase_eq (table : HashMap α β) (a x : α) :
    (table.erase a).lookup x = if x = a then none else table.lookup x := by
  by_cases same : x = a
  · subst same
    rw [lookup_erase, if_pos rfl]
  · rw [lookup_erase_ne same, if_neg same]

theorem map_lookup_insert {γ : Type*} (view : β → γ) (table : HashMap α β) (a : α) (b : β) :
    (fun x => ((table.insert a b).lookup x).map view) =
      Function.update (fun x => (table.lookup x).map view) a (some (view b)) := by
  funext x
  rw [lookup_insert_eq, update_apply]
  split <;> rfl

theorem map_lookup_erase {γ : Type*} (view : β → γ) (table : HashMap α β) (a : α) :
    (fun x => ((table.erase a).lookup x).map view) = Function.update (fun x => (table.lookup x).map view) a none := by
  funext x
  rw [lookup_erase_eq, update_apply]
  split <;> rfl

variable {table : HashMap α β} {a : α} {b : β}

theorem mem_keys_iff : a ∈ table.keys ↔ ∃ b, table.lookup a = some b := by
  rw [mem_keys, mem_iff]

theorem not_mem_keys_iff : a ∉ table.keys ↔ table.lookup a = none := by
  rw [mem_keys, lookup_eq_none]

theorem keys_insert (table : HashMap α β) (a : α) (b : β) : (table.insert a b).keys = insert a table.keys := by
  ext x
  rw [mem_keys, mem_insert, Finset.mem_insert, mem_keys]

theorem erase_absent (absent : table.lookup a = none) : table.erase a = table := by
  apply ext_lookup
  intro x
  rw [lookup_erase_eq]
  by_cases same : x = a
  · rw [if_pos same, same, absent]
  · rw [if_neg same]

theorem erase_insert (table : HashMap α β) (a : α) (b : β) : (table.insert a b).erase a = table.erase a := by
  apply ext_lookup
  intro x
  rw [lookup_erase_eq, lookup_erase_eq, lookup_insert_eq]
  split <;> rfl

theorem insert_erase_lookup (found : table.lookup a = some b) : (table.erase a).insert a b = table := by
  apply ext_lookup
  intro x
  rw [lookup_insert_eq, lookup_erase_eq]
  by_cases same : x = a
  · rw [if_pos same, same, found]
  · rw [if_neg same, if_neg same]

def values (table : HashMap α β) : Multiset β := table.entries.map Sigma.snd

theorem values_insert (absent : table.lookup a = none) (b : β) : values (table.insert a b) = b ::ₘ values table := by
  rw [values, entries_insert_of_notMem (lookup_eq_none.mp absent), Multiset.map_cons]
  rfl

theorem values_erase (found : table.lookup a = some b) : values table = b ::ₘ values (table.erase a) := by
  have restored := insert_erase_lookup found
  have absent : (table.erase a).lookup a = none := lookup_erase a table
  rw [← values_insert absent b, restored]

theorem mem_values : b ∈ values table ↔ ∃ a, table.lookup a = some b := by
  constructor
  · intro member
    obtain ⟨⟨a, value⟩, entry, rfl⟩ := Multiset.mem_map.mp member
    exact ⟨a, mem_lookup_iff.mpr entry⟩
  · rintro ⟨a, found⟩
    exact Multiset.mem_map.mpr ⟨⟨a, b⟩, mem_lookup_iff.mp found, rfl⟩

theorem forall_update_some {entries : α → Option β} {a₀ : α} {b₀ : β} {property : α → β → Prop}
    (new : property a₀ b₀) (old : ∀ a b, a ≠ a₀ → entries a = some b → property a b) (a : α) (b : β)
    (found : Function.update entries a₀ (some b₀) a = some b) : property a b := by
  by_cases same : a = a₀
  · subst same
    rw [update_self] at found
    exact Option.some.inj found ▸ new
  · rw [update_of_ne same] at found
    exact old a b same found

variable {γ : Type*} [DecidableEq γ] {second : HashMap γ β} {key newKey : β → α} {other newOther : β → γ}

/-- One of two tables of the same entries: each entry is here under its key and in the second table
    under its other key. -/
def FiledBy (key : β → α) (other : β → γ) (table : HashMap α β) (second : HashMap γ β) : Prop :=
  ∀ a b, table.lookup a = some b → key b = a ∧ second.lookup (other b) = some b

theorem FiledBy.insert (filed : FiledBy key other table second) {c : γ} (absent : second.lookup c = none)
    (new : newKey b = a ∧ newOther b = c)
    (kept : ∀ a b, table.lookup a = some b → newKey b = key b ∧ newOther b = other b) :
    FiledBy newKey newOther (table.insert a b) (second.insert c b) := by
  intro x entry found
  rw [lookup_insert_eq] at found ⊢
  split at found
  · rename_i same
    cases found
    exact ⟨new.1.trans same.symm, if_pos new.2⟩
  · rcases filed x entry found with ⟨here, there⟩
    rw [(kept x entry found).1, (kept x entry found).2]
    refine ⟨here, ?_⟩
    rw [if_neg, there]
    intro same
    rw [same, absent] at there
    cases there

theorem FiledBy.erase (filed : FiledBy key other table second) {c : γ} (here : key b = a)
    (there : second.lookup c = some b) : FiledBy key other (table.erase a) (second.erase c) := by
  intro x entry found
  rw [lookup_erase_eq] at found ⊢
  split at found
  · cases found
  · rename_i different
    rcases filed x entry found with ⟨keyed, own⟩
    refine ⟨keyed, ?_⟩
    rw [if_neg, own]
    intro same
    rw [same, there] at own
    cases own
    exact different (keyed.symm.trans here)

end HashMap

/-- The order in which a loop visits the keys of a table. Every loop may see its own. -/
structure IterationOrder (α : Type*) where
  visit : Finset α → List α
  visit_nodup : ∀ keys, (visit keys).Nodup
  mem_visit : ∀ keys a, a ∈ visit keys ↔ a ∈ keys

namespace IterationOrder

variable {α : Type*}

def ascending {β : Type*} [LinearOrder β] (rank : α → β) (injective : Function.Injective rank) :
    IterationOrder α where
  visit keys := Quot.liftOn keys.val (List.insertionSort (fun a b => rank a ≤ rank b)) (by
    intro left right perm
    apply List.Perm.eq_of_pairwise (fun a b _ _ below above => injective (le_antisymm below above))
    · exact List.pairwise_insertionSort (fun a b => rank a ≤ rank b) left
    · exact List.pairwise_insertionSort (fun a b => rank a ≤ rank b) right
    · exact ((List.perm_insertionSort _ left).trans perm).trans
        (List.perm_insertionSort _ right).symm)
  visit_nodup := by
    rintro ⟨⟨entries⟩, nodup⟩
    exact (List.perm_insertionSort _ entries).nodup_iff.mpr nodup
  mem_visit := by
    rintro ⟨⟨entries⟩, nodup⟩ a
    exact (List.perm_insertionSort _ entries).mem_iff

theorem toNat_injective : Function.Injective UInt64.toNat := fun _ _ => UInt64.toNat_inj.mp

theorem mem_visit_values [DecidableEq α] {β : Type*} (order : IterationOrder α) (table : HashMap α β)
    (b : β) : b ∈ (order.visit table.keys).filterMap table.lookup ↔ ∃ a, table.lookup a = some b := by
  rw [List.mem_filterMap]
  constructor
  · rintro ⟨a, _, found⟩
    exact ⟨a, found⟩
  · rintro ⟨a, found⟩
    exact ⟨a, (order.mem_visit _ _).mpr (HashMap.mem_keys_iff.mpr ⟨b, found⟩), found⟩

theorem any_visit_values [DecidableEq α] {β : Type*} (order : IterationOrder α) (table : HashMap α β)
    (p : β → Bool) : ((order.visit table.keys).filterMap table.lookup).any p = true ↔
      ∃ a b, table.lookup a = some b ∧ p b = true := by
  simp only [List.any_eq_true, order.mem_visit_values, exists_and_right.symm]
  exact exists_comm

end IterationOrder

end Odyssey.Containers
