import Odyssey.Systems.Chunks
import Odyssey.WebSockets.ChannelFrames

namespace Odyssey.WebSockets

open Systems WebSocketFrame ChannelEvent List Consumer Nat Bool

variable {Text : Type} {platform : ChannelPlatform Text} {accepted unfinished : List WebSocketFrame}
  {groups : List (List WebSocketFrame)}

namespace ChannelState

inductive Splits (size : SizeType) : List UInt8 → List WebSocketFrame → List UInt8 → Prop
  | nil (stream : List UInt8) : Splits size stream [] stream
  | cons {stream : List UInt8} {frame : WebSocketFrame} {frameEnd : Nat} {frames : List WebSocketFrame}
      {tail : List UInt8} (parsed : (parseFrame size stream).1 = .FrameOK frame frameEnd)
      (rest : Splits size (stream.drop frameEnd) frames tail) : Splits size stream (frame :: frames) tail

theorem Splits.append {size : SizeType} {stream tail : List UInt8} {frames : List WebSocketFrame}
    (splits : Splits size stream frames tail) {frame : WebSocketFrame} {frameEnd : Nat}
    (parsed : (parseFrame size tail).1 = .FrameOK frame frameEnd) :
    Splits size stream (frames ++ [frame]) (tail.drop frameEnd) := by
  induction splits with
  | nil stream => exact .cons parsed (.nil _)
  | cons first _ ih => exact .cons first (ih parsed)

/-- How the events end, after those of the frames that were accepted: with nothing as long as no further
    frame is complete, or with the failure or the closure that the next frame leads to. -/
inductive Outcome (platform : ChannelPlatform Text) (unfinished : List WebSocketFrame) (tail : List UInt8)
    (opening : List (ChannelEvent Text)) : List (ChannelEvent Text) → Prop
  | waits (incomplete : (parseFrame platform.size tail).1 = .FrameIncomplete) :
      Outcome platform unfinished tail opening opening
  | malformed (reason : String) (parsed : (parseFrame platform.size tail).1 = .FrameError reason) :
      Outcome platform unfinished tail opening (opening ++ failure reason)
  | violates (reason : String) {frame : WebSocketFrame} {frameEnd : Nat}
      (parsed : (parseFrame platform.size tail).1 = .FrameOK frame frameEnd)
      (violation : Violates platform unfinished frame) :
      Outcome platform unfinished tail opening (opening ++ failure reason)
  | closes {frame : WebSocketFrame} {frameEnd code : Nat}
      (parsed : (parseFrame platform.size tail).1 = .FrameOK frame frameEnd) (lawful : Lawful frame)
      (kind : frame.opCode = opCodeClose) (valid : closeCode frame.payload = .ok code) :
      Outcome platform unfinished tail opening (opening ++ closure code (closeReason platform frame.payload))

def nextState (platform : ChannelPlatform Text) (state : ChannelState Text) :
    List UInt8 → Option (ChannelState Text × List UInt8)
  | [] => none
  | byte :: rest =>
    if state.stopped then some (state, rest)
    else match (parseFrame platform.size (byte :: rest)).1 with
      | .FrameIncomplete => none
      | .FrameError errorString => some (state.fail platform errorString, rest)
      | .FrameOK frame frameEnd =>
        match state.takeFrame platform frame with
        | (some reason, next) => some (next.fail platform reason, (byte :: rest).drop frameEnd)
        | (none, next) => some (next, (byte :: rest).drop frameEnd)

section Steps

variable {state next : ChannelState Text} {input rest : List UInt8}

theorem nextState_reads (stepped : nextState platform state input = some (next, rest)) :
    rest.length < input.length ∧ ∀ more, nextState platform state (input ++ more) = some (next, rest ++ more) := by
  cases input with
  | nil => cases stepped
  | cons byte bytes =>
    simp only [cons_append, nextState] at stepped ⊢
    split at stepped
    · cases stepped
      exact ⟨Nat.lt_succ_self _, fun _ => if_pos ‹_›⟩
    · simp only [if_neg ‹¬_›]
      cases parsed : parseFrame platform.size (byte :: bytes) with
      | mk result data =>
        simp only [parsed] at stepped
        have complete : result ≠ .FrameIncomplete := by
          intro incomplete
          rw [incomplete] at stepped
          cases stepped
        have same := parseFrame_append (by rw [parsed]; exact complete)
        simp only [parsed, cons_append] at same
        simp only [same]
        cases result with
        | FrameIncomplete => cases stepped
        | FrameError errorString =>
          cases stepped
          exact ⟨Nat.lt_succ_self _, fun _ => rfl⟩
        | FrameOK frame frameEnd =>
          have inside := (parseFrame_consumed parsed).2
          have less : ((byte :: bytes).drop frameEnd).length < (byte :: bytes).length := by
            rw [length_drop]
            omega
          simp only [← cons_append, drop_append_of_le_length inside.2] at stepped ⊢
          split at stepped <;> cases stepped <;> exact ⟨less, fun _ => rfl⟩

theorem Live.nextState (live : Live state) (heard : Heard platform accepted groups unfinished state)
    (stepped : nextState platform state input = some (next, rest)) :
    (∃ frame frameEnd groups' unfinished', (parseFrame platform.size input).1 = .FrameOK frame frameEnd ∧
      rest = input.drop frameEnd ∧ Live next ∧
      Heard platform (accepted ++ [frame]) groups' unfinished' next) ∨
    ∃ events, Ended next events ∧ Outcome platform unfinished input state.events events := by
  cases input with
  | nil => cases stepped
  | cons byte bytes =>
    rw [nextState, live.not_stopped] at stepped
    cases result : (parseFrame platform.size (byte :: bytes)).1 with
    | FrameIncomplete =>
      rw [result] at stepped
      cases stepped
    | FrameError errorString =>
      rw [result] at stepped
      cases stepped
      exact .inr ⟨_, live.fail errorString, .malformed errorString result⟩
    | FrameOK frame frameEnd =>
      rw [result] at stepped
      have took := live.takeFrame heard frame
      simp only at stepped
      generalize state.takeFrame platform frame = outcome at took stepped
      cases took with
      | fails reason failed violates live' events =>
        cases stepped
        rw [← events]
        exact .inr ⟨_, live'.fail reason, .violates reason result violates⟩
      | goesOn _ live' groups' unfinished' heard' =>
        cases stepped
        exact .inl ⟨frame, frameEnd, groups', unfinished', rfl, rfl, live', heard'⟩
      | closes _ code lawful kind valid ended =>
        cases stepped
        exact .inr ⟨_, ended, .closes result lawful kind valid⟩

theorem Live.incomplete (live : Live state) (waits : ChannelState.nextState platform state input = none) :
    (parseFrame platform.size input).1 = .FrameIncomplete := by
  cases input with
  | nil => rfl
  | cons byte bytes =>
    rw [ChannelState.nextState, live.not_stopped, if_neg Bool.false_ne_true] at waits
    cases result : (parseFrame platform.size (byte :: bytes)).1 with
    | FrameIncomplete => rfl
    | FrameError errorString =>
      rw [result] at waits
      cases waits
    | FrameOK frame frameEnd =>
      rw [result] at waits
      simp only at waits
      split at waits
      · cases waits
      · cases waits

end Steps

def receiver (platform : ChannelPlatform Text) : Consumer (ChannelState Text) UInt8 where
  step := nextState platform
  shorter := fun stepped => (nextState_reads stepped).1
  stable := fun more stepped => (nextState_reads stepped).2 more

variable {state : ChannelState Text}

theorem settle_stopped (stopped : state.stopped = true) (input : List UInt8) :
    (receiver platform).settle state input = (state, []) := by
  induction input with
  | nil => exact settle_of_none rfl
  | cons byte rest ih =>
    have stepped : (receiver platform).step state (byte :: rest) = some (state, rest) := if_pos stopped
    rw [settle_of_some stepped, ih]

def Sound (platform : ChannelPlatform Text) (state : ChannelState Text) : Prop :=
  (Live state ∧ ∃ accepted groups unfinished, Heard platform accepted groups unfinished state) ∨
    (state.stopped = true ∧ state.document = state.client)

theorem Sound.settle (sound : Sound platform state) (input : List UInt8) :
    Sound platform ((receiver platform).settle state input).1 := by
  induction state, input using (receiver platform).settle_induction with
  | waits state input waits =>
    rw [settle_of_none waits]
    exact sound
  | steps state input next rest stepped ih =>
    rw [settle_of_some stepped]
    rcases sound with ⟨live, accepted, groups, unfinished, heard⟩ | ⟨stopped, document⟩
    · rcases live.nextState heard stepped with ⟨_, _, _, _, _, _, live', heard'⟩ | ⟨_, ended, _⟩
      · exact ih (.inl ⟨live', _, _, _, heard'⟩)
      · exact ih (.inr ⟨ended.stopped, ended.document⟩)
    · rw [← settle_of_some stepped, settle_stopped stopped]
      exact .inr ⟨stopped, document⟩

/-- What is delivered for a stream: the messages of the frames it begins with, with the replies to pings, and
    the end, if the next frame leads to it. -/
def Report (platform : ChannelPlatform Text) (stream : List UInt8) (events : List (ChannelEvent Text)) :
    Prop :=
  ∃ (accepted : List WebSocketFrame) (tail : List UInt8) (groups : List (List WebSocketFrame))
      (unfinished : List WebSocketFrame) (opening : List (ChannelEvent Text)),
    Splits platform.size stream accepted tail ∧
    (∀ frame ∈ accepted, Lawful frame ∧ frame.opCode ≠ opCodeClose) ∧
    accepted.filter isDataFrame = groups.flatten ++ unfinished ∧
    (∀ group ∈ groups, WholeMessage group) ∧ (unfinished = [] ∨ PartialMessage unfinished) ∧
    (opening.filter isMessage).map some = groups.map (messageOf platform) ∧
    (∀ event ∈ opening, isMessage event = true ∨ isPong event = true) ∧
    Outcome platform unfinished tail opening events

theorem Heard.report {stream tail : List UInt8} {events : List (ChannelEvent Text)}
    (heard : Heard platform accepted groups unfinished state) (splits : Splits platform.size stream accepted tail)
    (outcome : Outcome platform unfinished tail state.events events) : Report platform stream events := by
  have pending : unfinished = [] ∨ PartialMessage unfinished := by
    have continues := heard.continues
    split at continues
    · exact .inr continues.1
    · exact .inl continues
  exact ⟨accepted, tail, groups, unfinished, state.events, splits, heard.lawful, heard.frames, heard.whole,
    pending, heard.delivered, heard.quiet, outcome⟩

theorem settle_report {stream input : List UInt8} (live : Live state)
    (heard : Heard platform accepted groups unfinished state) (splits : Splits platform.size stream accepted input) :
    Report platform stream ((receiver platform).settle state input).1.finish.events := by
  induction state, input using (receiver platform).settle_induction generalizing accepted groups unfinished
  with
  | waits state input waits =>
    rw [settle_of_none waits]
    have incomplete := live.incomplete waits
    have same : state.finish = state := by
      rw [finish, live.disconnecting, if_neg Bool.false_ne_true]
    rw [same]
    exact heard.report splits (.waits incomplete)
  | steps state input next rest stepped ih =>
    rw [settle_of_some stepped]
    rcases live.nextState heard stepped with ⟨frame, frameEnd, groups', unfinished', parsed, rfl, live', heard'⟩ |
      ⟨events, ended, outcome⟩
    · exact ih live' heard' (splits.append parsed)
    · rw [settle_stopped ended.stopped, ended.events]
      exact heard.report splits outcome

end ChannelState

namespace WebSocketChannel

open ChannelState

structure Refines (channel : WebSocketChannel Text) (current : ChannelState Text × List UInt8) : Prop where
  state : channel.toChannelState = current.1
  buffer : if current.1.stopped then current.2 = [] else channel.buffer = current.2

variable {channel : WebSocketChannel Text} {pieces : List (List UInt8)}

theorem processReceived_stopped (stopped : channel.toChannelState.stopped = true) :
    (channel.processReceived platform).toChannelState = channel.toChannelState := by
  rw [processReceived]
  split
  · rename_i receives
    have client : channel.client = true := (and_eq_true_iff.mp receives).1
    simp only [ChannelState.stopped, client, Bool.not_true] at stopped
    unfold processBuffer
    cases discards : channel.shouldDiscardReceivedData with
    | true => rfl
    | false =>
      rw [discards] at stopped
      have closed : channel.receivedClosingHandshake = true := by simpa using stopped
      rw [closed]
      rfl
  · rfl

theorem refines_stopped {state : ChannelState Text} (same : channel.toChannelState = state)
    (stopped : state.stopped = true) (input : List UInt8) :
    Refines channel ((receiver platform).settle state input) := by
  rw [settle_stopped stopped]
  exact ⟨same, by rw [if_pos stopped]⟩

theorem processFrame_step (live : Live channel.toChannelState)
    (heard : Heard platform accepted groups unfinished channel.toChannelState) {next : ChannelState Text}
    {rest : List UInt8} (stepped : nextState platform channel.toChannelState channel.buffer = some (next, rest)) :
    (channel.processFrame platform).2.toChannelState = next ∧
      (next.stopped = false → (channel.processFrame platform).2.buffer = rest) ∧
      ((channel.processFrame platform).1 = false → next.stopped = true ∨ rest = []) := by
  cases bytes : channel.buffer with
  | nil =>
    rw [bytes] at stepped
    cases stepped
  | cons byte others =>
    rw [bytes, nextState, live.not_stopped] at stepped
    cases parsed : parseFrame platform.size (byte :: others) with
    | mk result data =>
      simp only [parsed] at stepped
      unfold processFrame
      simp only [bytes, parsed]
      cases result with
      | FrameIncomplete => cases stepped
      | FrameError errorString =>
        cases stepped
        have ended : (channel.toChannelState.fail platform errorString).stopped = true :=
          (live.fail errorString).stopped
        exact ⟨rfl, fun going => absurd (going.symm.trans ended) false_ne_true, fun _ => .inl ended⟩
      | FrameOK frame frameEnd =>
        have kept := (parseFrame_consumed parsed).1
        have took := live.takeFrame heard frame
        simp only at stepped ⊢
        generalize channel.toChannelState.takeFrame platform frame = outcome at took stepped ⊢
        cases took with
        | fails reason failed _ live' events =>
          cases stepped
          have ended : (failed.fail platform reason).stopped = true := (live'.fail reason).stopped
          exact ⟨rfl, fun going => absurd (going.symm.trans ended) false_ne_true, fun _ => .inl ended⟩
        | goesOn _ _ _ _ _ =>
          cases stepped
          simp only [skipBuffer, kept, not_eq_false', List.isEmpty_iff]
          exact ⟨trivial, fun _ => trivial, .inr⟩
        | closes _ _ _ _ _ ended =>
          cases stepped
          simp only [skipBuffer, kept]
          exact ⟨trivial, fun _ => trivial, fun _ => .inl ended.stopped⟩

theorem processReceived_refines (channel : WebSocketChannel Text) (sound : Sound platform channel.toChannelState) :
    Refines (channel.processReceived platform)
      ((receiver platform).settle channel.toChannelState channel.buffer) := by
  induction size : channel.buffer.length using Nat.strongRecOn generalizing channel with
  | _ length ih =>
    rcases sound with ⟨live, accepted, groups, unfinished, heard⟩ | ⟨stopped, document⟩
    · have processed : processBuffer platform channel = processFrame platform channel := by
        rw [processBuffer, live.shouldDiscardReceivedData, if_neg Bool.false_ne_true,
          live.receivedClosingHandshake, if_neg Bool.false_ne_true]
      rw [processReceived]
      cases waits : nextState platform channel.toChannelState channel.buffer with
      | none =>
        have incomplete := live.incomplete waits
        have stays : processFrame platform channel = (false, channel) := by
          unfold processFrame
          cases parsed : parseFrame platform.size channel.buffer with
          | mk result data =>
            rw [parsed] at incomplete
            simp only at incomplete
            rw [incomplete]
        rw [processed, stays, if_neg Bool.false_ne_true, ite_self, settle_of_none waits]
        exact ⟨rfl, by rw [live.not_stopped, if_neg Bool.false_ne_true]⟩
      | some result =>
        rcases result with ⟨next, rest⟩
        rcases processFrame_step live heard waits with ⟨state, buffer, last⟩
        have nonempty : (channel.client && !channel.buffer.isEmpty) = true := by
          rw [live.client]
          cases bytes : channel.buffer with
          | nil =>
            rw [bytes] at waits
            cases waits
          | cons _ _ => rfl
        rw [if_pos nonempty, processed, settle_of_some waits]
        have sound' : Sound platform next := by
          rcases live.nextState heard waits with ⟨_, _, _, _, _, _, live', heard'⟩ | ⟨_, ended, _⟩
          · exact .inl ⟨live', _, _, _, heard'⟩
          · exact .inr ⟨ended.stopped, ended.document⟩
        cases continues : (processFrame platform channel).1 with
        | true =>
          have less := (processFrame_shrinks platform channel).2 continues
          rw [size] at less
          cases stopped : next.stopped with
          | true =>
            rw [← state] at stopped ⊢
            exact refines_stopped (processReceived_stopped stopped) stopped _
          | false =>
            have refined := ih _ less _ (state.symm ▸ sound') rfl
            rw [state, buffer stopped] at refined
            exact refined
        | false =>
          rcases last continues with stopped | rfl
          · exact refines_stopped state stopped _
          · have empty : (receiver platform).settle next [] = (next, []) := settle_of_none rfl
            rw [empty]
            refine ⟨state, ?_⟩
            split
            · rfl
            · exact buffer (eq_false_iff.mpr ‹_›)
    · exact refines_stopped (processReceived_stopped stopped) stopped _

def FitsInMemory (platform : ChannelPlatform Text) (channel : WebSocketChannel Text) :
    List (List UInt8) → Prop
  | [] => True
  | data :: pieces => channel.buffer.length + data.length ≤ platform.size.max ∧
      FitsInMemory platform (channel.didReceiveSocketStreamData platform data) pieces

theorem didReceiveSocketStreamData_refines {current : ChannelState Text × List UInt8}
    (refines : Refines channel current) (sound : Sound platform current.1) {data : List UInt8}
    (nonempty : data ≠ []) (fits : channel.buffer.length + data.length ≤ platform.size.max) :
    Refines (channel.didReceiveSocketStreamData platform data) ((receiver platform).feed current data) := by
  have isData : data.isEmpty = false := by
    rw [eq_false_iff, ne_eq, List.isEmpty_iff]
    exact nonempty
  have appended : channel.appendToBuffer platform data =
      some { channel with buffer := channel.buffer ++ data } := if_neg (not_lt.mpr fits)
  rcases current with ⟨state, waiting⟩
  rcases refines with ⟨rfl, buffer⟩
  unfold didReceiveSocketStreamData
  rcases sound with ⟨live, heard⟩ | ⟨stopped, document⟩
  · rw [live.not_stopped] at buffer
    rw [live.document, live.client, live.shouldDiscardReceivedData, isData, appended]
    have refined := processReceived_refines { channel with buffer := channel.buffer ++ data } (.inl ⟨live, heard⟩)
    rw [buffer] at refined ⊢
    exact refined
  · have unchanged : (channel.didReceiveSocketStreamData platform data).toChannelState = channel.toChannelState := by
      unfold didReceiveSocketStreamData
      cases present : channel.document with
      | false => rfl
      | true =>
        have client : channel.client = true := document.symm.trans present
        rw [client, isData, appended]
        cases discards : channel.shouldDiscardReceivedData with
        | true => rfl
        | false => exact processReceived_stopped stopped
    exact refines_stopped unchanged stopped _

section

variable (platform) (channel : WebSocketChannel Text)

theorem processReceived_buffer : (channel.processReceived platform).buffer.length ≤ channel.buffer.length := by
  induction size : channel.buffer.length using Nat.strongRecOn generalizing channel with
  | _ length ih =>
    obtain ⟨kept, shorter⟩ := processBuffer_shrinks platform channel
    rw [processReceived]
    split
    · split
      · have less := shorter ‹_›
        have rest := ih _ (size ▸ less) (channel.processBuffer platform).2 rfl
        omega
      · omega
    · omega

theorem didReceiveSocketStreamData_buffer (data : List UInt8) :
    (channel.didReceiveSocketStreamData platform data).buffer.length ≤ channel.buffer.length + data.length := by
  have same : channel.buffer.length ≤ channel.buffer.length + data.length := le_add_right _ _
  unfold didReceiveSocketStreamData
  split
  · exact same
  · split
    · exact same
    · split
      · exact same
      · split
        · exact same
        · unfold appendToBuffer
          split
          · exact zero_le _
          · rename_i appended
            split at appended
            · cases appended
            · cases appended
              have processed := processReceived_buffer platform { channel with buffer := channel.buffer ++ data }
              rw [length_append] at processed
              exact processed

end

theorem fitsInMemory_of_length (fits : channel.buffer.length + pieces.flatten.length ≤ platform.size.max) :
    FitsInMemory platform channel pieces := by
  induction pieces generalizing channel with
  | nil => trivial
  | cons data pieces ih =>
    rw [flatten_cons, length_append] at fits
    refine ⟨by omega, ih ?_⟩
    have grows := didReceiveSocketStreamData_buffer platform channel data
    omega

theorem received_refines {current : ChannelState Text × List UInt8} (refines : Refines channel current)
    (sound : Sound platform current.1) (nonempty : ∀ data ∈ pieces, data ≠ [])
    (fits : FitsInMemory platform channel pieces) :
    Refines (pieces.foldl (didReceiveSocketStreamData platform) channel)
      (pieces.foldl (receiver platform).feed current) := by
  induction pieces generalizing channel current with
  | nil => exact refines
  | cons data pieces ih =>
    have first := didReceiveSocketStreamData_refines refines sound (nonempty data mem_cons_self) fits.1
    exact ih first (sound.settle _) (fun other member => nonempty other (mem_cons_of_mem _ member)) fits.2

def eventsFor (platform : ChannelPlatform Text) (pieces : List (List UInt8)) : List (ChannelEvent Text) :=
  (pieces.foldl (didReceiveSocketStreamData platform) {}).toChannelState.finish.events

theorem live_initial : Live ({} : ChannelState Text) := by
  constructor <;> rfl

theorem heard_initial (platform : ChannelPlatform Text) : Heard platform [] [] [] ({} : ChannelState Text) where
  lawful _ member := absurd member not_mem_nil
  frames := rfl
  whole _ member := absurd member not_mem_nil
  delivered := rfl
  quiet _ member := absurd member not_mem_nil
  data := rfl
  continues := rfl

theorem eventsFor_eq (nonempty : ∀ data ∈ pieces, data ≠ []) (fits : FitsInMemory platform {} pieces) :
    eventsFor platform pieces = ((receiver platform).settle {} pieces.flatten).1.finish.events := by
  have start : Refines ({} : WebSocketChannel Text) ({}, []) := ⟨rfl, rfl⟩
  have sound : Sound platform ({} : ChannelState Text) := .inl ⟨live_initial, _, _, _, heard_initial platform⟩
  have refined := received_refines start sound nonempty fits
  have waits : (receiver platform).step {} [] = none := rfl
  rw [eventsFor, refined.state, foldl_feed waits, nil_append]

/-- However the stream is cut, the same is delivered, and it is what the frames of the stream say. -/
theorem receive_independent_of_packets (platform : ChannelPlatform Text) (stream : List UInt8)
    (pieces pieces' : List (List UInt8)) (cut : pieces.flatten = stream) (cut' : pieces'.flatten = stream)
    (nonempty : ∀ data ∈ pieces, data ≠ []) (nonempty' : ∀ data ∈ pieces', data ≠ [])
    (fits : FitsInMemory platform {} pieces) (fits' : FitsInMemory platform {} pieces') :
    eventsFor platform pieces = eventsFor platform pieces' ∧
      Report platform stream (eventsFor platform pieces) := by
  rw [eventsFor_eq nonempty fits, eventsFor_eq nonempty' fits', cut, cut']
  refine ⟨rfl, ?_⟩
  exact settle_report live_initial (heard_initial platform) (.nil stream)

def bytesPlatform : ChannelPlatform (List UInt8) where
  size := .bits32
  fromUTF8 := some
  utf8 := (·.getD [])
  emptyString := []
  disconnectsAtOnce := true
  closesAtOnce := true

theorem receive_letter_in_two_pieces :
    eventsFor bytesPlatform [[0x81], [1, 0x61]] = eventsFor bytesPlatform [[0x81, 1, 0x61]] ∧
      Report bytesPlatform [0x81, 1, 0x61] (eventsFor bytesPlatform [[0x81], [1, 0x61]]) := by
  have cut : FitsInMemory bytesPlatform {} [[0x81], [1, 0x61]] := fitsInMemory_of_length (by decide)
  have whole : FitsInMemory bytesPlatform {} [[0x81, 1, 0x61]] := fitsInMemory_of_length (by decide)
  exact receive_independent_of_packets bytesPlatform [0x81, 1, 0x61] [[0x81], [1, 0x61]] [[0x81, 1, 0x61]] rfl
    rfl (by decide) (by decide) cut whole

example : eventsFor bytesPlatform [[0x81], [1, 0x61]] = [.didReceiveMessage [0x61]] := by
  decide +kernel

end WebSocketChannel

end Odyssey.WebSockets
