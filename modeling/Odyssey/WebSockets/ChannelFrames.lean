import Odyssey.WebSockets.Channel

namespace Odyssey.WebSockets

open WebSocketFrame List Option Bool

variable {Text : Type} {platform : ChannelPlatform Text}

namespace ChannelState

def stopped (state : ChannelState Text) : Bool :=
  state.shouldDiscardReceivedData || state.receivedClosingHandshake || !state.client

def finish (state : ChannelState Text) : ChannelState Text :=
  if state.disconnecting then didCloseSocketStream state else state

structure Live (state : ChannelState Text) : Prop where
  document : state.document = true
  client : state.client = true
  handle : state.handle = true
  disconnecting : state.disconnecting = false
  closing : state.closing = false
  receivedClosingHandshake : state.receivedClosingHandshake = false
  closed : state.closed = false
  shouldDiscardReceivedData : state.shouldDiscardReceivedData = false
  closeEventCode : state.closeEventCode = closeEventCodeAbnormalClosure
  closeEventReason : state.closeEventReason = none
  outgoingFrameQueue : state.outgoingFrameQueue = []
  outgoingFrameQueueStatus : state.outgoingFrameQueueStatus = .OutgoingFrameQueueOpen

variable {state : ChannelState Text}

theorem Live.not_stopped (live : Live state) : state.stopped = false := by
  simp [stopped, live.client, live.receivedClosingHandshake, live.shouldDiscardReceivedData]

theorem Live.emit (live : Live state) (event : ChannelEvent Text) : Live (state.emit event) := { live with }

structure Ended (state : ChannelState Text) (events : List (ChannelEvent Text)) : Prop where
  stopped : state.stopped = true
  document : state.document = state.client
  events : state.finish.events = events

def failure (reason : String) : List (ChannelEvent Text) :=
  [.addConsoleMessage reason, .didReceiveMessageError, .didClose false closeEventCodeAbnormalClosure none]

def closure (code : Nat) (reason : Option Text) : List (ChannelEvent Text) :=
  [.sendFrame opCodeClose [], .didStartClosingHandshake, .didClose true code reason]

theorem didCloseSocketStream_spec (state : ChannelState Text) (client : state.client = true)
    (handle : state.handle = true) :
    let final := state.didCloseSocketStream
    final.client = false ∧ final.document = false ∧ final.disconnecting = false ∧ final.events =
      state.events ++ [.didClose state.receivedClosingHandshake state.closeEventCode state.closeEventReason] := by
  by_cases status : state.outgoingFrameQueueStatus ≠ .OutgoingFrameQueueClosed
  · simp [didCloseSocketStream, abortOutgoingFrameQueue, emit, client, handle, status]
  · simp [didCloseSocketStream, emit, client, handle, status]

theorem ended_of_told (state : ChannelState Text) (atOnce : Bool) (document : state.document = true)
    (client : state.client = true) (handle : state.handle = true)
    (told : (state.shouldDiscardReceivedData || state.receivedClosingHandshake) = true) :
    Ended (if atOnce then state.didCloseSocketStream else { state with disconnecting := true }) (state.events ++
        [.didClose state.receivedClosingHandshake state.closeEventCode state.closeEventReason]) := by
  cases atOnce with
  | false =>
    constructor
    · show (state.shouldDiscardReceivedData || state.receivedClosingHandshake || !state.client) = true
      rw [told, Bool.true_or]
    · exact document.trans client.symm
    · exact (didCloseSocketStream_spec { state with disconnecting := true } client handle).2.2.2
  | true =>
    rcases didCloseSocketStream_spec state client handle with ⟨noClient, noDocument, done, events⟩
    constructor
    · simp only [if_true, stopped, noClient, Bool.not_false, Bool.or_true]
    · exact noDocument.trans noClient.symm
    · simp only [if_true, finish, done, false_eq_true, if_false, events]

theorem Live.fail (live : Live state) (reason : String) :
    Ended (state.fail platform reason) (state.events ++ failure reason) := by
  have told := ended_of_told { state with
    shouldDiscardReceivedData := true
    hasContinuousFrame := false
    continuousFrameData := []
    events := state.events ++ [.addConsoleMessage reason] ++ [.didReceiveMessageError] }
    platform.disconnectsAtOnce live.document live.client live.handle rfl
  simp only [ChannelState.fail, ChannelState.emit, live.document, live.client, live.handle,
    live.closed, live.receivedClosingHandshake, live.closeEventCode, live.closeEventReason, if_true,
    append_assoc] at told ⊢
  exact told

theorem Live.receiveClose_ok (live : Live state) {frame : WebSocketFrame} {code : Nat}
    (parsed : closeCode frame.payload = .ok code) :
    (state.receiveClose platform frame).1 = none ∧ Ended (state.receiveClose platform frame).2
        (state.events ++ closure code (closeReason platform frame.payload)) := by
  have told := ended_of_told { state with
    closeEventCode := code
    closeEventReason := closeReason platform frame.payload
    receivedClosingHandshake := true
    closing := true
    outgoingFrameQueueStatus := .OutgoingFrameQueueClosed
    outgoingFrameQueue := []
    events := state.events ++ [.sendFrame opCodeClose []] ++ [.didStartClosingHandshake] }
    platform.closesAtOnce live.document live.client live.handle (or_true _)
  simp only [receiveClose, parsed, startClosingHandshake, processOutgoingFrameQueue, enqueueRawFrame,
    ChannelState.emit, live.client, live.closing, live.closed,
    live.outgoingFrameQueue, live.outgoingFrameQueueStatus, foldl_cons, foldl_nil, nil_append,
    if_false, if_true, reduceCtorEq,
    append_assoc] at told ⊢
  exact ⟨trivial, told⟩

end ChannelState

variable (group : List WebSocketFrame)

def Fragments : Prop :=
  ∃ first rest, group = first :: rest ∧ (first.opCode = opCodeText ∨ first.opCode = opCodeBinary) ∧
    ∀ frame ∈ rest, frame.opCode = opCodeContinuation

def WholeMessage : Prop :=
  Fragments group ∧ ∃ front last, group = front ++ [last] ∧ (∀ frame ∈ front, frame.final = false) ∧
    last.final = true

def PartialMessage : Prop :=
  Fragments group ∧ ∀ frame ∈ group, frame.final = false

def payloads : List UInt8 := group.flatMap (·.payload)

def messageOf (platform : ChannelPlatform Text) (group : List WebSocketFrame) : Option (ChannelEvent Text) :=
  match group.head? with
  | none => none
  | some first =>
    if first.opCode = opCodeText
    then (ChannelState.decodeMessage platform (payloads group)).map .didReceiveMessage
    else some (.didReceiveBinaryData (payloads group))

namespace ChannelEvent

def isMessage : ChannelEvent Text → Bool
  | didReceiveMessage _ => true
  | didReceiveBinaryData _ => true
  | _ => false

def isPong : ChannelEvent Text → Bool
  | sendFrame opCode _ => opCode = opCodePong
  | _ => false

end ChannelEvent

open ChannelEvent

def isDataFrame (frame : WebSocketFrame) : Bool := !isControlOpCode frame.opCode

variable {frame : WebSocketFrame}

theorem Fragments.append {group : List WebSocketFrame} (fragments : Fragments group)
    (continues : frame.opCode = opCodeContinuation) : Fragments (group ++ [frame]) := by
  rcases fragments with ⟨first, rest, rfl, kind, others⟩
  exact ⟨first, rest ++ [frame], rfl, kind, forall_mem_append.mpr ⟨others, forall_mem_singleton.mpr continues⟩⟩

theorem payloads_single (frame : WebSocketFrame) : payloads [frame] = frame.payload := flatMap_singleton _ _

section Code

variable (kind : frame.opCode = opCodeText ∨ frame.opCode = opCodeBinary)
include kind

theorem Fragments.single : Fragments [frame] := ⟨frame, [], rfl, kind, fun _ member => absurd member not_mem_nil⟩

theorem WholeMessage.single (final : frame.final = true) : WholeMessage [frame] :=
  ⟨.single kind, [], frame, rfl, fun _ member => absurd member not_mem_nil, final⟩

theorem isDataFrame_of_kind : isDataFrame frame = true := by
  unfold isDataFrame
  rcases kind with text | binary
  · rw [text]
    rfl
  · rw [binary]
    rfl

end Code

theorem not_close_of_data (kind : isDataFrame frame = true) : frame.opCode ≠ opCodeClose := by
  intro close
  rw [isDataFrame, close] at kind
  cases kind

/-- What every frame of a server keeps to. -/
structure Lawful (frame : WebSocketFrame) : Prop where
  compress : frame.compress = false
  opCode : isReservedOpCode frame.opCode = false
  reserved : frame.reserved2 = false ∧ frame.reserved3 = false
  masked : frame.masked = false
  control : isControlOpCode frame.opCode = true →
    frame.final = true ∧ needsExtendedLengthField frame.payload.length = false

/-- The frames that violate the protocol behind those of an unfinished message: a frame that is not
    lawful, a continuation of nothing, a new message within another, the end of a text message that
    cannot be decoded, and a close frame with a body of one byte or a code that is never sent. -/
inductive Violates (platform : ChannelPlatform Text) (unfinished : List WebSocketFrame) (frame : WebSocketFrame) :
    Prop
  | unlawful (unlawful : ¬ Lawful frame)
  | unexpected (kind : frame.opCode = opCodeContinuation) (nothing : unfinished = [])
  | interleaved (kind : isDataFrame frame = true) (fresh : frame.opCode ≠ opCodeContinuation)
      (pending : unfinished ≠ [])
  | undecodable (whole : WholeMessage (unfinished ++ [frame]))
      (undecoded : messageOf platform (unfinished ++ [frame]) = none)
  | broken (kind : frame.opCode = opCodeClose) {reason : String}
      (body : ChannelState.closeCode frame.payload = .error reason)

namespace ChannelState

/-- What the frames so far have come to: the messages that were delivered, and the one that is not
    complete. -/
structure Heard (platform : ChannelPlatform Text) (accepted : List WebSocketFrame)
    (groups : List (List WebSocketFrame)) (unfinished : List WebSocketFrame) (state : ChannelState Text) :
    Prop where
  lawful : ∀ frame ∈ accepted, Lawful frame ∧ frame.opCode ≠ opCodeClose
  frames : accepted.filter isDataFrame = groups.flatten ++ unfinished
  whole : ∀ group ∈ groups, WholeMessage group
  delivered : (state.events.filter isMessage).map some = groups.map (messageOf platform)
  quiet : ∀ event ∈ state.events, isMessage event = true ∨ isPong event = true
  data : state.continuousFrameData = payloads unfinished
  continues : if state.hasContinuousFrame then PartialMessage unfinished ∧
    unfinished.head?.map (·.opCode) = some state.continuousFrameOpCode else unfinished = []

variable {accepted : List WebSocketFrame} {groups : List (List WebSocketFrame)}
  {unfinished : List WebSocketFrame} {state : ChannelState Text} {frame : WebSocketFrame}

namespace Heard

variable (heard : Heard platform accepted groups unfinished state)
include heard

theorem lawful_append (lawful : Lawful frame) (notClose : frame.opCode ≠ opCodeClose) :
    ∀ other ∈ accepted ++ [frame], Lawful other ∧ other.opCode ≠ opCodeClose :=
  forall_mem_append.mpr ⟨heard.lawful, forall_mem_singleton.mpr ⟨lawful, notClose⟩⟩

theorem control (lawful : Lawful frame) (kind : isDataFrame frame = false) (notClose : frame.opCode ≠ opCodeClose) :
    Heard platform (accepted ++ [frame]) groups unfinished state := by
  have frames : (accepted ++ [frame]).filter isDataFrame = groups.flatten ++ unfinished := by
    rw [filter_append, filter_cons_of_neg (by rw [kind]; exact false_ne_true), filter_nil, append_nil, heard.frames]
  exact { heard with frames := frames, lawful := heard.lawful_append lawful notClose }

theorem pong (payload : List UInt8) :
    Heard platform accepted groups unfinished (state.emit (.sendFrame opCodePong payload)) := by
  refine { heard with delivered := ?_, quiet := ?_ }
  · show (((state.events ++ [_]).filter isMessage).map some) = _
    rw [filter_append, filter_cons_of_neg (by exact false_ne_true), filter_nil, append_nil, heard.delivered]
  · exact forall_mem_append.mpr ⟨heard.quiet, forall_mem_singleton.mpr (Or.inr rfl)⟩

theorem complete (lawful : Lawful frame) (kind : isDataFrame frame = true)
    (whole : WholeMessage (unfinished ++ [frame]))
    {event : ChannelEvent Text} (message : isMessage event = true)
    (same : messageOf platform (unfinished ++ [frame]) = some event) :
    Heard platform (accepted ++ [frame]) (groups ++ [unfinished ++ [frame]]) []
      (({ state with hasContinuousFrame := false, continuousFrameData := [] } : ChannelState Text).emit event) := by
  constructor
  · exact heard.lawful_append lawful (not_close_of_data kind)
  · rw [filter_append, heard.frames, filter_cons_of_pos kind]
    simp
  · exact forall_mem_append.mpr ⟨heard.whole, forall_mem_singleton.mpr whole⟩
  · show ((state.events ++ [event]).filter isMessage).map some = _
    rw [filter_append, filter_cons_of_pos message, filter_nil, map_append,
      heard.delivered, map_append, map_singleton, map_singleton, same]
  · exact forall_mem_append.mpr ⟨heard.quiet, forall_mem_singleton.mpr (Or.inl message)⟩
  · rfl
  · rfl

theorem extend (lawful : Lawful frame) (kind : isDataFrame frame = true)
    (parts : PartialMessage (unfinished ++ [frame])) {opCode : UInt8}
    (first : (unfinished ++ [frame]).head?.map (·.opCode) = some opCode) :
    Heard platform (accepted ++ [frame]) groups (unfinished ++ [frame]) { state with
        hasContinuousFrame := true
        continuousFrameOpCode := opCode
        continuousFrameData := state.continuousFrameData ++ frame.payload } := by
  refine { heard with
    lawful := heard.lawful_append lawful (not_close_of_data kind), frames := ?_, data := ?_,
    continues := ⟨parts, first⟩ }
  · rw [filter_append, heard.frames, filter_cons_of_pos kind, filter_nil, append_assoc]
  · rw [heard.data, payloads, payloads, flatMap_append, flatMap_singleton]

theorem alone (single : state.hasContinuousFrame = false) :
    unfinished = [] ∧ { state with hasContinuousFrame := false, continuousFrameData := [] } = state := by
  have continues := heard.continues
  rw [single] at continues
  have data := heard.data
  rw [continues] at data
  refine ⟨continues, ?_⟩
  rw [← single, show ([] : List UInt8) = state.continuousFrameData from data.symm]

end Heard

theorem Heard.continues_iff (heard : Heard platform accepted groups unfinished state) :
    state.hasContinuousFrame = true ↔ unfinished ≠ [] := by
  have continues := heard.continues
  cases continuous : state.hasContinuousFrame with
  | false =>
    rw [continuous] at continues
    exact iff_of_false nofun (fun pending => pending continues)
  | true =>
    rw [continuous] at continues
    rcases continues with ⟨⟨⟨first, rest, shape, _⟩, _⟩, _⟩
    exact iff_of_true rfl (by rw [shape]; exact cons_ne_nil _ _)

theorem validate_of_lawful (lawful : Lawful frame) : state.validate frame =
    if state.hasContinuousFrame && frame.opCode ≠ opCodeContinuation && !isControlOpCode frame.opCode then
      some "Received new data frame but previous continuous frame is unfinished." else none := by
  have control := lawful.control
  unfold validate inflate
  rw [lawful.compress, lawful.opCode, lawful.reserved.1, lawful.reserved.2, lawful.masked]
  cases kind : isControlOpCode frame.opCode with
  | false => rfl
  | true => simp [control kind]

theorem violates_of_validate (heard : Heard platform accepted groups unfinished state) {reason : String}
    (refused : state.validate frame = some reason) : Violates platform unfinished frame := by
  by_cases lawful : Lawful frame
  · rw [validate_of_lawful lawful] at refused
    obtain ⟨interleaved, _⟩ := ite_none_right_eq_some.mp refused
    simp only [and_eq_true, decide_eq_true_eq] at interleaved
    exact .interleaved interleaved.2 interleaved.1.2 (heard.continues_iff.mp interleaved.1.1)
  · exact .unlawful lawful

theorem lawful_of_validate (valid : state.validate frame = none) : Lawful frame := by
  unfold validate inflate at valid
  split at valid
  · cases valid
  · rename_i inflated
    repeat' split at valid
    all_goals try exact absurd valid (some_ne_none _)
    rename_i known reserved masked fragmented long _
    have plain : frame.compress = false := by
      cases compressed : frame.compress with
      | false => rfl
      | true =>
        rw [compressed] at inflated
        cases inflated
    simp only [not_eq_true, Bool.or_eq_false_iff] at known reserved masked
    simp only [and_eq_true, Decidable.not_and_iff_not_or_not, not_eq_true, Bool.not_eq_false'] at fragmented long
    refine ⟨plain, known, reserved, masked, fun control => ?_⟩
    have notFree : ¬ isControlOpCode frame.opCode = false := by simp [control]
    exact ⟨fragmented.resolve_left notFree, long.resolve_left notFree⟩

/-- What has become of the channel after a frame: it failed with the frame, it goes on, or the peer closed
    it. -/
inductive Took (platform : ChannelPlatform Text) (accepted unfinished : List WebSocketFrame)
    (state : ChannelState Text) (frame : WebSocketFrame) : Option String × ChannelState Text → Prop
  | fails (reason : String) (next : ChannelState Text) (violates : Violates platform unfinished frame)
      (live : Live next) (events : next.events = state.events) :
      Took platform accepted unfinished state frame (some reason, next)
  | goesOn (next : ChannelState Text) (live : Live next) (groups : List (List WebSocketFrame))
      (unfinished' : List WebSocketFrame)
      (heard : Heard platform (accepted ++ [frame]) groups unfinished' next) :
      Took platform accepted unfinished state frame (none, next)
  | closes (next : ChannelState Text) (code : Nat) (lawful : Lawful frame) (kind : frame.opCode = opCodeClose)
      (parsed : closeCode frame.payload = .ok code)
      (ended : Ended next (state.events ++ closure code (closeReason platform frame.payload))) :
      Took platform accepted unfinished state frame (none, next)

theorem Live.withFragments (live : Live state) (continuous : Bool) (opCode : UInt8) (data : List UInt8) :
    Live { state with
      hasContinuousFrame := continuous, continuousFrameOpCode := opCode, continuousFrameData := data } :=
  { live with }

section Fragments

variable (live : Live state) (heard : Heard platform accepted groups unfinished state) (lawful : Lawful frame)
include live heard lawful

theorem Live.receiveText (kind : isDataFrame frame = true) (whole : WholeMessage (unfinished ++ [frame]))
    (text : (unfinished ++ [frame]).head?.map (·.opCode) = some opCodeText) :
    Took platform accepted unfinished state frame (ChannelState.receiveText platform (payloads (unfinished ++ [frame]))
      { state with hasContinuousFrame := false, continuousFrameData := [] }) := by
  have cleared := live.withFragments false state.continuousFrameOpCode []
  rcases map_eq_some_iff.mp text with ⟨first, head, opCode⟩
  unfold ChannelState.receiveText
  cases decoded : decodeMessage platform (payloads (unfinished ++ [frame])) with
  | none =>
    refine .fails _ _ (.undecodable whole ?_) cleared rfl
    simp only [messageOf, head, opCode, if_true, decoded, map_none]
  | some message =>
    apply Took.goesOn _ (cleared.emit _)
    apply heard.complete lawful kind whole rfl
    simp only [messageOf, head, opCode, if_true, decoded, map_some]

theorem Live.receiveBinaryData (kind : isDataFrame frame = true) (whole : WholeMessage (unfinished ++ [frame]))
    (binary : (unfinished ++ [frame]).head?.map (·.opCode) = some opCodeBinary) :
    Took platform accepted unfinished state frame (none, ChannelState.emit
      (.didReceiveBinaryData (payloads (unfinished ++ [frame])))
      { state with hasContinuousFrame := false, continuousFrameData := [] }) := by
  have cleared := live.withFragments false state.continuousFrameOpCode []
  apply Took.goesOn _ (cleared.emit _)
  apply heard.complete lawful kind whole rfl
  rcases map_eq_some_iff.mp binary with ⟨first, head, opCode⟩
  have other : ¬ opCodeBinary = opCodeText := by decide
  simp only [messageOf, head, opCode, if_neg other]

theorem Live.continueFrame (kind : frame.opCode = opCodeContinuation) :
    Took platform accepted unfinished state frame (state.continueFrame platform frame) := by
  have data : isDataFrame frame = true := by
    rw [isDataFrame, kind]
    rfl
  unfold ChannelState.continueFrame
  cases continuous : state.hasContinuousFrame with
  | false => exact .fails _ _ (.unexpected kind (heard.alone continuous).1) live rfl
  | true =>
    have continues := heard.continues
    rw [continuous] at continues
    rcases continues with ⟨⟨fragments, notFinal⟩, first⟩
    have longer := fragments.append kind
    have head : (unfinished ++ [frame]).head?.map (·.opCode) = some state.continuousFrameOpCode := by
      rcases map_eq_some_iff.mp first with ⟨frame', head, opCode⟩
      rw [head?_append, head]
      exact congrArg some opCode
    have joined : state.continuousFrameData ++ frame.payload = payloads (unfinished ++ [frame]) := by
      rw [heard.data, payloads, payloads, flatMap_append, flatMap_singleton]
    cases final : frame.final with
    | false =>
      apply Took.goesOn _ (live.withFragments _ _ _) groups (unfinished ++ [frame])
      exact heard.extend lawful data ⟨longer, forall_mem_append.mpr ⟨notFinal, forall_mem_singleton.mpr final⟩⟩ head
    | true =>
      have whole : WholeMessage (unfinished ++ [frame]) := ⟨longer, unfinished, frame, rfl, notFinal, final⟩
      simp only [Bool.not_true, joined]
      rcases longer with ⟨leading, rest, shape, text | binary, _⟩
      · have opCode : state.continuousFrameOpCode = opCodeText := by
          rw [shape] at head
          exact (some.inj head).symm.trans text
        rw [if_pos opCode]
        exact live.receiveText heard lawful data whole (opCode ▸ head)
      · have opCode : state.continuousFrameOpCode = opCodeBinary := by
          rw [shape] at head
          exact (some.inj head).symm.trans binary
        have other : ¬ state.continuousFrameOpCode = opCodeText := by
          rw [opCode]
          decide
        rw [if_neg other, if_pos opCode]
        exact live.receiveBinaryData heard lawful data whole (opCode ▸ head)

theorem Live.beginContinuousFrame (alone : state.hasContinuousFrame = false)
    (kind : frame.opCode = opCodeText ∨ frame.opCode = opCodeBinary) (final : frame.final = false) :
    Took platform accepted unfinished state frame (none, state.beginContinuousFrame frame) := by
  cases (heard.alone alone).1
  apply Took.goesOn _ (live.withFragments _ _ _) groups [frame]
  exact heard.extend lawful (isDataFrame_of_kind kind) ⟨.single kind, forall_mem_singleton.mpr final⟩ rfl

theorem Live.receiveData (alone : state.hasContinuousFrame = false)
    (kind : frame.opCode = opCodeText ∨ frame.opCode = opCodeBinary) :
    Took platform accepted unfinished state frame (state.receiveFrame platform frame) := by
  rcases heard.alone alone with ⟨rfl, same⟩
  have data := isDataFrame_of_kind kind
  unfold receiveFrame
  cases final : frame.final with
  | false =>
    have first := live.beginContinuousFrame heard lawful alone kind final
    rcases kind with text | binary
    · rw [if_neg (by rw [text]; decide), if_pos text]
      exact first
    · rw [if_neg (by rw [binary]; decide), if_neg (by rw [binary]; decide), if_pos binary]
      exact first
  | true =>
    have whole : WholeMessage ([] ++ [frame]) := .single kind final
    rcases kind with text | binary
    · have received := live.receiveText heard lawful data whole (congrArg some text)
      rw [same, nil_append, payloads_single] at received
      rw [if_neg (by rw [text]; decide), if_pos text]
      exact received
    · have received := live.receiveBinaryData heard lawful data whole (congrArg some binary)
      rw [same, nil_append, payloads_single] at received
      rw [if_neg (by rw [binary]; decide), if_neg (by rw [binary]; decide), if_pos binary]
      exact received

theorem Live.receiveControl (kind : isControlOpCode frame.opCode = true) :
    Took platform accepted unfinished state frame (state.receiveFrame platform frame) := by
  have control : isDataFrame frame = false := by
    rw [isDataFrame, kind]
    rfl
  simp only [isControlOpCode, or_eq_true, decide_eq_true_eq] at kind
  have notData : ¬ frame.opCode = opCodeContinuation ∧ ¬ frame.opCode = opCodeText ∧
      ¬ frame.opCode = opCodeBinary := by
    rcases kind with (code | code) | code <;> rw [code] <;> decide
  unfold receiveFrame
  rw [if_neg notData.1, if_neg notData.2.1, if_neg notData.2.2]
  rcases kind with (close | ping) | pong
  · rw [if_pos close]
    cases parsed : closeCode frame.payload with
    | error reason =>
      simp only [receiveClose, parsed]
      rw [← live.closeEventCode]
      exact .fails reason state (.broken close parsed) live rfl
    | ok code =>
      rcases live.receiveClose_ok parsed with ⟨accepts, ended⟩
      rw [← Prod.mk.eta (p := state.receiveClose platform frame), accepts]
      exact .closes _ code lawful close parsed ended
  · have notClose : ¬ frame.opCode = opCodeClose := by
      rw [ping]
      decide
    rw [if_neg notClose, if_pos ping]
    have replied : processOutgoingFrameQueue platform (enqueueRawFrame opCodePong frame.payload state) =
        state.emit (.sendFrame opCodePong frame.payload) := by
      have queue := live.outgoingFrameQueue
      simp only [processOutgoingFrameQueue, enqueueRawFrame, live.outgoingFrameQueueStatus, queue,
        nil_append, foldl_cons, foldl_nil, reduceCtorEq, if_false, ChannelState.emit]
    rw [replied]
    exact .goesOn _ (live.emit _) groups unfinished ((heard.control lawful control notClose).pong _)
  · have others : ¬ frame.opCode = opCodeClose ∧ ¬ frame.opCode = opCodePing := by
      rw [pong]
      decide
    rw [if_neg others.1, if_neg others.2]
    exact .goesOn state live groups unfinished (heard.control lawful control others.1)

end Fragments

theorem kind_of_known (known : isReservedOpCode frame.opCode = false) :
    frame.opCode = opCodeContinuation ∨ (frame.opCode = opCodeText ∨ frame.opCode = opCodeBinary) ∨
      isControlOpCode frame.opCode = true := by
  simp only [isReservedOpCode, isNonControlOpCode, and_eq_false_iff, not_eq_false', or_eq_true,
    decide_eq_true_eq] at known
  tauto

theorem Live.takeFrame (live : Live state) (heard : Heard platform accepted groups unfinished state)
    (frame : WebSocketFrame) : Took platform accepted unfinished state frame (state.takeFrame platform frame) := by
  unfold ChannelState.takeFrame
  cases checked : state.validate frame with
  | some reason => exact .fails reason state (violates_of_validate heard checked) live rfl
  | none =>
    have lawful := lawful_of_validate checked
    rcases kind_of_known lawful.opCode with continuation | kind | control
    · have received := live.continueFrame heard lawful continuation
      simp only [receiveFrame, if_pos continuation]
      exact received
    · have single : state.hasContinuousFrame = false := by
        cases continuous : state.hasContinuousFrame with
        | false => rfl
        | true =>
          rw [validate_of_lawful lawful, continuous] at checked
          rcases kind with code | code
          all_goals
            rw [code] at checked
            cases checked
      exact live.receiveData heard lawful single kind
    · exact live.receiveControl heard lawful control

end ChannelState

end Odyssey.WebSockets
