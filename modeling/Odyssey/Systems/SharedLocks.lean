import Mathlib.Data.Finset.Basic
import Mathlib.Data.Multiset.Bind

namespace Odyssey.Systems

open Multiset

variable {Holder Resource : Type*}

def Overlapping (scope : Holder → List Resource) (first second : Holder) : Prop :=
  ∃ resource ∈ scope first, resource ∈ scope second

variable {scope : Holder → List Resource}

theorem Overlapping.symm {first second : Holder} (overlapping : Overlapping scope first second) :
    Overlapping scope second first := by
  rcases overlapping with ⟨resource, left, right⟩
  exact ⟨resource, right, left⟩

def heldCounts (scope : Holder → List Resource) (holders : Multiset Holder) : Multiset Resource :=
  holders.bind (fun holder => ↑(scope holder))

theorem mem_heldCounts {holders : Multiset Holder} {resource : Resource} :
    resource ∈ heldCounts scope holders ↔ ∃ holder ∈ holders, resource ∈ scope holder := by
  simp [heldCounts]

variable [DecidableEq Resource]

def heldWrites (scope : Holder → List Resource) (reads : Holder → Bool)
    (holders : Multiset Holder) : Finset Resource :=
  (heldCounts scope (holders.filter (reads · = false))).toFinset

theorem mem_heldWrites {reads : Holder → Bool} {holders : Multiset Holder} {resource : Resource} :
    resource ∈ heldWrites scope reads holders ↔
      ∃ holder ∈ holders, reads holder = false ∧ resource ∈ scope holder := by
  simp [heldWrites, mem_heldCounts, and_assoc]

/-- The counts and the write set describe the holders, of whom only readers share a resource. -/
structure LocksHeld (scope : Holder → List Resource) (reads : Holder → Bool)
    (holders : Multiset Holder) (counts : Multiset Resource) (writes : Finset Resource) : Prop where
  distinct : holders.Nodup
  counted : counts = heldCounts scope holders
  written : writes = heldWrites scope reads holders
  exclusive : ∀ first ∈ holders, ∀ second ∈ holders, first ≠ second →
    Overlapping scope first second → reads first = true ∧ reads second = true

namespace LocksHeld

variable {scope : Holder → List Resource} {reads : Holder → Bool} {holders : Multiset Holder}
  {counts : Multiset Resource} {writes : Finset Resource}

theorem empty (scope : Holder → List Resource) (reads : Holder → Bool) : LocksHeld scope reads 0 0 ∅ where
  distinct := nodup_zero
  counted := rfl
  written := rfl
  exclusive := by
    intro first member
    exact absurd member (notMem_zero first)

/-- What a new holder must find free: a reader the write set, a writer the counts. -/
def Free (scope : Holder → List Resource) (reads : Holder → Bool) (counts : Multiset Resource)
    (writes : Finset Resource) (holder : Holder) : Prop :=
  ∀ resource ∈ scope holder,
    ¬ (if reads holder then resource ∈ writes else resource ∈ counts)

theorem compatible (held : LocksHeld scope reads holders counts writes) {holder other : Holder}
    (free : Free scope reads counts writes holder) (member : other ∈ holders)
    (overlapping : Overlapping scope holder other) : reads holder = true ∧ reads other = true := by
  rcases overlapping with ⟨resource, left, right⟩
  have unused := free resource left
  by_cases reading : reads holder = true
  · refine ⟨reading, ?_⟩
    by_contra writing
    rw [if_pos reading, held.written] at unused
    exact unused (mem_heldWrites.mpr ⟨other, member, by simpa using writing, right⟩)
  · rw [if_neg reading, held.counted] at unused
    exact absurd (mem_heldCounts.mpr ⟨other, member, right⟩) unused

theorem acquire (held : LocksHeld scope reads holders counts writes) {holder : Holder}
    (fresh : holder ∉ holders) (free : Free scope reads counts writes holder) :
    LocksHeld scope reads (holder ::ₘ holders) (↑(scope holder) + counts)
      (if reads holder then writes else (scope holder).toFinset ∪ writes) where
  distinct := nodup_cons.mpr ⟨fresh, held.distinct⟩
  counted := by rw [heldCounts, cons_bind, held.counted]; rfl
  written := by
    ext resource
    rw [held.written]
    cases reading : reads holder <;> simp [mem_heldWrites, reading]
  exclusive := by
    intro first left second right different overlapping
    rcases mem_cons.mp left with same | older
    · subst same
      rcases mem_cons.mp right with same | older
      · exact absurd same.symm different
      · exact held.compatible free older overlapping
    · rcases mem_cons.mp right with same | other
      · subst same
        exact (held.compatible free older overlapping.symm).symm
      · exact held.exclusive first older second other different overlapping

theorem release {holder : Holder} (held : LocksHeld scope reads (holder ::ₘ holders) counts writes) :
    LocksHeld scope reads holders (counts - ↑(scope holder))
      (if reads holder then writes else writes \ (scope holder).toFinset) where
  distinct := (nodup_cons.mp held.distinct).2
  counted := by
    rw [held.counted, heldCounts, cons_bind, add_tsub_cancel_left]
    rfl
  written := by
    ext resource
    rw [held.written]
    cases reading : reads holder with
    | true => simp [mem_heldWrites, reading]
    | false =>
      simp only [Bool.false_eq_true, if_false, Finset.mem_sdiff, mem_heldWrites, List.mem_toFinset]
      constructor
      · rintro ⟨⟨other, member, writing, used⟩, unused⟩
        rcases mem_cons.mp member with same | member
        · exact absurd (same ▸ used) unused
        · exact ⟨other, member, writing, used⟩
      · rintro ⟨other, member, writing, used⟩
        refine ⟨⟨other, mem_cons_of_mem member, writing, used⟩, ?_⟩
        intro shared
        have different : holder ≠ other := by
          intro same
          exact (nodup_cons.mp held.distinct).1 (same ▸ member)
        have both := held.exclusive holder (mem_cons_self _ _) other
          (mem_cons_of_mem member) different ⟨resource, shared, used⟩
        rw [reading] at both
        exact absurd both.1 Bool.false_ne_true
  exclusive := by
    intro first left second right
    exact held.exclusive first (mem_cons_of_mem left) second (mem_cons_of_mem right)

end LocksHeld

end Odyssey.Systems
