import Mathlib.Data.List.Basic

namespace Odyssey.Systems

open List

/-- A machine that takes its input from the front of a buffer. A step has no result if more input is
    needed; one that has is not changed by input that arrives later. -/
structure Consumer (State Byte : Type*) where
  step : State → List Byte → Option (State × List Byte)
  shorter {state next : State} {input rest : List Byte} :
    step state input = some (next, rest) → rest.length < input.length
  stable {state next : State} {input rest : List Byte} (more : List Byte) :
    step state input = some (next, rest) → step state (input ++ more) = some (next, rest ++ more)

namespace Consumer

variable {State Byte : Type*} (consumer : Consumer State Byte)

def settle (state : State) (input : List Byte) : State × List Byte :=
  match _ : consumer.step state input with
  | none => (state, input)
  | some (next, rest) => settle next rest
termination_by input.length
decreasing_by exact consumer.shorter ‹_›

def feed (current : State × List Byte) (chunk : List Byte) : State × List Byte :=
  consumer.settle current.1 (current.2 ++ chunk)

variable {consumer}

theorem settle_of_none {state : State} {input : List Byte} (waits : consumer.step state input = none) :
    consumer.settle state input = (state, input) := by
  rw [settle]
  split
  · rfl
  · rename_i stepped
    rw [waits] at stepped
    cases stepped

theorem settle_of_some {state next : State} {input rest : List Byte}
    (stepped : consumer.step state input = some (next, rest)) :
    consumer.settle state input = consumer.settle next rest := by
  rw [settle]
  split
  · rename_i waits
    rw [stepped] at waits
    cases waits
  · rename_i same
    rw [stepped] at same
    cases same
    rfl

theorem settle_induction {motive : State → List Byte → Prop}
    (waits : ∀ state input, consumer.step state input = none → motive state input)
    (steps : ∀ state input next rest, consumer.step state input = some (next, rest) → motive next rest →
      motive state input) (state : State) (input : List Byte) : motive state input := by
  induction size : input.length using Nat.strongRecOn generalizing state input with
  | _ length ih =>
    cases stepped : consumer.step state input with
    | none => exact waits state input stepped
    | some result =>
      rcases result with ⟨next, rest⟩
      have less := consumer.shorter stepped
      rw [size] at less
      exact steps state input next rest stepped (ih rest.length less next rest rfl)

theorem settle_waits (state : State) (input : List Byte) :
    consumer.step (consumer.settle state input).1 (consumer.settle state input).2 = none := by
  induction state, input using consumer.settle_induction with
  | waits state input waits =>
    rw [settle_of_none waits]
    exact waits
  | steps state input next rest stepped ih =>
    rw [settle_of_some stepped]
    exact ih

theorem settle_append (state : State) (input more : List Byte) :
    consumer.settle state (input ++ more) = consumer.feed (consumer.settle state input) more := by
  induction state, input using consumer.settle_induction with
  | waits state input waits => rw [settle_of_none waits, feed]
  | steps state input next rest stepped ih =>
    rw [settle_of_some (consumer.stable more stepped), settle_of_some stepped]
    exact ih

theorem foldl_feed {current : State × List Byte} (waits : consumer.step current.1 current.2 = none)
    (chunks : List (List Byte)) :
    chunks.foldl consumer.feed current = consumer.settle current.1 (current.2 ++ chunks.flatten) := by
  induction chunks generalizing current with
  | nil =>
    rw [flatten_nil, append_nil, settle_of_none waits]
    rfl
  | cons chunk chunks ih =>
    have waiting : consumer.step (consumer.feed current chunk).1 (consumer.feed current chunk).2 = none :=
      settle_waits _ _
    rw [foldl_cons, ih waiting, flatten_cons, ← append_assoc, settle_append current.1 (current.2 ++ chunk)]
    rfl

end Consumer

end Odyssey.Systems
