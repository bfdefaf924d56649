import Odyssey.Collections.InsertionOrder
import Odyssey.Collections.MapKeys

namespace Odyssey.Collections

open Containers HashMapImpl List Option

variable {K V : Type}

structure Iteration (K V : Type) where
  map : HashMapImpl K V
  iterators : List (Option Nat)

inductive IterationEvent (K V : Type) where
  | mutate (operation : Operation K V)
  | iterate
  | advance (iterator : Nat)

/-- The records of a map as the language defines them, with iterators that hold an index or are
    exhausted. -/
structure RecordIteration (K V : Type) where
  records : List (Option (K × Option V))
  iterators : List (Option Nat)

section Steps

variable (traits : KeyTraits K)

def Iteration.step (world : Iteration K V) :
    IterationEvent K V → Option (Iteration K V × List (Option (K × Option V)))
  | .mutate operation => (world.map.apply traits operation).map (fun map => ({ world with map }, []))
  | .iterate => some ({ world with iterators := world.iterators ++ [some world.map.head] }, [])
  | .advance iterator =>
    match world.iterators[iterator]? with
    | none => some (world, [])
    | some position => (world.map.advanceIter position).map (fun next =>
        ({ world with iterators := world.iterators.set iterator next }, [next.bind world.map.record]))

def Iteration.run : Iteration K V → List (IterationEvent K V) →
    Option (Iteration K V × List (Option (K × Option V)))
  | world, [] => some (world, [])
  | world, event :: events => do
    let (next, reports) ← world.step traits event
    let (final, more) ← Iteration.run next events
    some (final, reports ++ more)

def IterationEvent.HashesAlike (map : HashMapImpl K V) : IterationEvent K V → Prop
  | .mutate operation => operation.HashesAlike traits map
  | .iterate | .advance _ => True

/-- No step looks for a key while an entry that is equal to it is hashed apart from it. -/
def Iteration.RunsAlike : Iteration K V → List (IterationEvent K V) → Prop
  | _, [] => True
  | world, event :: events => event.HashesAlike traits world.map ∧
      ∀ next reports, world.step traits event = some (next, reports) → Iteration.RunsAlike next events

def advanceIndex (records : List (Option (K × Option V))) :
    Option Nat → Option Nat × Option (K × Option V)
  | none => (none, none)
  | some index =>
    match nextRecord records index with
    | none => (none, none)
    | some (next, entry) => (some next, some entry)

def RecordIteration.step (model : RecordIteration K V) :
    IterationEvent K V → RecordIteration K V × List (Option (K × Option V))
  | .mutate operation => ({ model with records := applyToRecords traits model.records operation }, [])
  | .iterate => ({ model with iterators := model.iterators ++ [some 0] }, [])
  | .advance iterator =>
    match model.iterators[iterator]? with
    | none => (model, [])
    | some position =>
      let (next, report) := advanceIndex model.records position
      ({ model with iterators := model.iterators.set iterator next }, [report])

def RecordIteration.run : RecordIteration K V → List (IterationEvent K V) →
    RecordIteration K V × List (Option (K × Option V))
  | model, [] => (model, [])
  | model, event :: events =>
    let (next, reports) := model.step traits event
    let (final, more) := RecordIteration.run next events
    (final, reports ++ more)

end Steps

/-- Bucket numbers are indexes of records: the bucket of a record is the one after its index, which is
    where an iterator stands once it has reported the record. -/
structure Follows (traits : KeyTraits K) (world : Iteration K V) (model : RecordIteration K V) : Prop where
  consistent : Consistent traits world.map
  records : world.map.records = model.records
  iterators : world.iterators = model.iterators
  within : ∀ index, some index ∈ model.iterators → index ≤ model.records.length

variable {traits : KeyTraits K} {map : HashMapImpl K V} {world : Iteration K V} {stray : Nat}
  {model : RecordIteration K V}

theorem HashMapImpl.length_records (map : HashMapImpl K V) : map.records.length = map.tail - 1 := by
  rw [records, length_map, length_range']

theorem length_le_applyToRecords (records : List (Option (K × Option V))) (operation : Operation K V) :
    records.length ≤ (applyToRecords traits records operation).length := by
  cases operation with
  | add key value => exact length_le_setRecord records
  | remove key => exact le_of_eq (length_deleteRecord records).symm
  | clear => exact le_of_eq (length_map _).symm

theorem nextRecord_records (linked : map.Linked) (index : Nat) : match nextRecord map.records index with
    | none => map.NextEntry index none
    | some (next, entry) => map.NextEntry index (some next) ∧ map.record next = some entry ∧
        next ≤ map.records.length := by
  have size := map.length_records
  have dropped : map.records.drop index = (range' (index + 1) (map.tail - 1 - index)).map map.record := by
    rw [records, ← map_drop, drop_range', mul_one, add_comm 1]
  have scanned := scanRecords_range map.record index (map.tail - 1 - index)
  have empty : ∀ place, map.Live place → map.record place ≠ none := by
    intro place lives
    exact isSome_iff_ne_none.mp (record_isSome.mpr lives)
  rw [nextRecord, dropped]
  split at scanned
  · rename_i ends
    rw [ends]
    intro other lives
    by_contra later
    have := (linked.within other lives).2
    exact empty other lives (scanned other (by omega) (by omega))
  · rename_i next entry finds
    rw [finds]
    obtain ⟨low, high, stored, passed⟩ := scanned
    have lives : map.Live next := record_isSome.mp (by rw [stored]; rfl)
    refine ⟨⟨lives, low, ?_⟩, stored, by omega⟩
    intro other otherLives later
    by_contra before
    exact empty other otherLives (passed other later (by omega))

theorem Follows.created (created : Created map) : Follows traits ⟨map, []⟩ ⟨[], []⟩ := by
  obtain ⟨consistent, _, none⟩ := created.consistent traits
  exact ⟨consistent, none, rfl, fun _ impossible => nomatch impossible⟩

theorem advanceIter_records (linked : map.Linked) {position : Option Nat}
    (within : ∀ index, position = some index → index ≤ map.records.length) :
    map.advanceIter position = some (advanceIndex map.records position).1 ∧
      (advanceIndex map.records position).1.bind map.record = (advanceIndex map.records position).2 ∧
      ∀ index, (advanceIndex map.records position).1 = some index → index ≤ map.records.length := by
  rcases position with _ | index
  · exact ⟨rfl, rfl, fun _ impossible => nomatch impossible⟩
  · have size := map.length_records
    have inside := within index rfl
    have next := nextRecord_records linked index
    rw [advanceIndex]
    split at next
    · exact ⟨linked.advanceIter_eq (by omega) next, rfl, fun _ impossible => nomatch impossible⟩
    · obtain ⟨next, stored, bound⟩ := next
      refine ⟨linked.advanceIter_eq (by omega) next, stored, ?_⟩
      rintro _ ⟨⟩
      exact bound

section Follows

variable (follows : Follows traits world model)
include follows

theorem Follows.advance (iterator : Nat) : ∃ next, world.step traits (.advance iterator) =
        some (next, (model.step traits (.advance iterator)).2) ∧ next.map = world.map ∧
      Follows traits next (model.step traits (.advance iterator)).1 := by
  obtain ⟨consistent, records, iterators, within⟩ := follows
  simp only [Iteration.step, RecordIteration.step, iterators]
  cases held : model.iterators[iterator]? with
  | none => exact ⟨world, rfl, rfl, consistent, records, iterators, within⟩
  | some position =>
    have inside : ∀ index, position = some index → index ≤ world.map.records.length := by
      rintro index rfl
      rw [records]
      exact within index (mem_of_getElem? held)
    obtain ⟨moved, report, bound⟩ := advanceIter_records consistent.linked inside
    rw [records] at moved report bound
    refine ⟨⟨world.map, model.iterators.set iterator (advanceIndex model.records position).1⟩, ?_, rfl,
      consistent, records, rfl, ?_⟩
    · simp [moved, report]
    · intro index member
      rcases mem_or_eq_of_mem_set member with member | same
      · exact within index member
      · exact bound index same.symm

theorem Follows.mutate {operation : Operation K V} {next : HashMapImpl K V}
    (alike : operation.HashesAlike traits world.map) (done : world.map.apply traits operation = some next) :
    Follows traits { world with map := next } (model.step traits (.mutate operation)).1 := by
  obtain ⟨kept, effect⟩ := apply_records follows.consistent alike done
  refine ⟨kept, ?_, follows.iterators, ?_⟩
  · rw [effect, follows.records]
    rfl
  · intro index member
    exact (follows.within index member).trans (length_le_applyToRecords _ operation)

theorem Follows.iterate : Follows traits { world with iterators := world.iterators ++ [some world.map.head] }
      (model.step traits .iterate).1 := by
  refine ⟨follows.consistent, follows.records, ?_, ?_⟩
  · change world.iterators ++ [some world.map.head] = model.iterators ++ [some 0]
    rw [follows.iterators, follows.consistent.linked.head]
  · intro index member
    rcases mem_append.mp member with member | member
    · exact follows.within index member
    · obtain rfl := some.inj (mem_singleton.mp member)
      exact Nat.zero_le _

theorem Follows.step {event : IterationEvent K V} {next : Iteration K V} {reports : List (Option (K × Option V))}
    (alike : event.HashesAlike traits world.map) (stepped : world.step traits event = some (next, reports)) :
    reports = (model.step traits event).2 ∧ Follows traits next (model.step traits event).1 := by
  cases event with
  | mutate operation =>
    obtain ⟨map, done, same⟩ := map_eq_some_iff.mp stepped
    obtain ⟨rfl, rfl⟩ := Prod.mk.inj same
    exact ⟨rfl, follows.mutate alike done⟩
  | iterate =>
    obtain ⟨rfl, rfl⟩ := Prod.mk.inj (some.inj stepped)
    exact ⟨rfl, follows.iterate⟩
  | advance iterator =>
    obtain ⟨other, moved, _, kept⟩ := follows.advance iterator
    obtain ⟨rfl, rfl⟩ := Prod.mk.inj (some.inj (stepped.symm.trans moved))
    exact ⟨rfl, kept⟩

theorem Follows.run {events : List (IterationEvent K V)} {final : Iteration K V}
    {reports : List (Option (K × Option V))} (alike : world.RunsAlike traits events)
    (ran : world.run traits events = some (final, reports)) :
    reports = (model.run traits events).2 ∧ Follows traits final (model.run traits events).1 := by
  induction events generalizing world model reports with
  | nil =>
    obtain ⟨rfl, rfl⟩ := Prod.mk.inj (some.inj ran)
    exact ⟨rfl, follows⟩
  | cons event events ih =>
    obtain ⟨⟨next, first⟩, stepped, rest⟩ := bind_eq_some_iff.mp ran
    obtain ⟨⟨last, more⟩, ranRest, same⟩ := bind_eq_some_iff.mp rest
    obtain ⟨rfl, rfl⟩ := Prod.mk.inj (some.inj same)
    obtain ⟨firstSame, kept⟩ := follows.step alike.1 stepped
    obtain ⟨moreSame, finalKept⟩ := ih kept (alike.2 next first stepped) ranRest
    exact ⟨congrArg₂ (· ++ ·) firstSame moreSame, finalKept⟩

theorem Follows.step_returns (loaded : world.map.Loaded stray) (small : model.records.reduceOption.length < entryLimit)
    (event : IterationEvent K V) :
    ∃ next reports, world.step traits event = some (next, reports) ∧ next.map.Loaded stray := by
  cases event with
  | mutate operation =>
    obtain ⟨next, done, nextLoaded⟩ := loaded.apply follows.consistent.toCoherent (follows.records ▸ small) operation
    refine ⟨{ world with map := next }, [], ?_, nextLoaded⟩
    rw [Iteration.step, done]
    rfl
  | iterate => exact ⟨_, _, rfl, loaded⟩
  | advance iterator =>
    obtain ⟨next, moved, same, _⟩ := follows.advance iterator
    exact ⟨next, _, moved, same ▸ loaded⟩

theorem Follows.run_returns (loaded : world.map.Loaded stray) (events : List (IterationEvent K V))
    (alike : world.RunsAlike traits events)
    (small : ∀ front, front <+: events → (model.run traits front).1.records.reduceOption.length < entryLimit) :
    ∃ final reports, world.run traits events = some (final, reports) := by
  induction events generalizing world model with
  | nil => exact ⟨world, [], rfl⟩
  | cons event events ih =>
    obtain ⟨next, reports, stepped, nextLoaded⟩ := follows.step_returns loaded (small [] nil_prefix) event
    have rest : ∀ front, front <+: events →
        ((model.step traits event).1.run traits front).1.records.reduceOption.length < entryLimit := by
      intro front isFront
      exact small (event :: front) (cons_prefix_cons.mpr ⟨rfl, isFront⟩)
    obtain ⟨final, more, ran⟩ := ih (follows.step alike.1 stepped).2 nextLoaded (alike.2 next reports stepped) rest
    rw [Iteration.run, stepped]
    simp [ran]

theorem Follows.runsAlike (lawful : traits.EqualKeysHashEqually) (events : List (IterationEvent K V)) :
    world.RunsAlike traits events := by
  induction events generalizing world model with
  | nil => trivial
  | cons event events ih =>
    have alike : event.HashesAlike traits world.map := by
      cases event with
      | mutate operation => exact (runs_alike follows.consistent.toCoherent lawful [operation]).1
      | iterate => trivial
      | advance iterator => trivial
    exact ⟨alike, fun next reports stepped => ih (follows.step alike stepped).2⟩

end Follows

def clearedEvents : List (IterationEvent Nat Nat) :=
  [.iterate, .mutate (.add 1 (some 10)), .mutate (.add 2 (some 20)), .advance 0, .mutate (.remove 1), .mutate .clear,
    .mutate (.add 3 (some 30)), .advance 0, .advance 0, .mutate (.add 4 (some 40)), .advance 0]

def nanKeys : KeyTraits JSValue :=
  jsKeys (fun _ => (.symbol : JSCell ⟨true, false⟩)) (fun _ => 0) encoding64 keyHasher

/-- Both NaNs are added, and an iterator advances twice. -/
def nanEvents : List (IterationEvent JSValue Nat) :=
  [.mutate (.add (.double 0x7FF8000000000000) (some 1)), .mutate (.add (.double 0xFFF8000000000000) (some 2)),
    .iterate, .advance 0, .advance 0]

end Odyssey.Collections
