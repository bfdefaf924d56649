import Odyssey.WebSockets.FrameRoundTrip

namespace Odyssey.WebSockets

open WebSocketFrame

/-- What the client, the console and the peer get from a channel. A reason is null if it could not be
    decoded. -/
inductive ChannelEvent (Text : Type) where
  | addConsoleMessage (reason : String)
  | didReceiveMessageError
  | didReceiveMessage (message : Text)
  | didReceiveBinaryData (binaryData : List UInt8)
  | didStartClosingHandshake
  | sendFrame (opCode : UInt8) (payload : List UInt8)
  | didClose (closingHandshakeComplete : Bool) (code : Nat) (reason : Option Text)
  deriving DecidableEq

inductive OutgoingFrameQueueStatus where
  | OutgoingFrameQueueOpen
  | OutgoingFrameQueueClosing
  | OutgoingFrameQueueClosed
  deriving DecidableEq

def closeEventCodeNotSpecified : Int := -1
def closeEventCodeNoStatusRcvd : Nat := 1005
def closeEventCodeAbnormalClosure : Nat := 1006
def closeEventCodeTLSHandshake : Nat := 1015

/-- What the channel is used with: the platform, its strings, and a socket that says it is closed from
    within `disconnect` and `close`, or only later. -/
structure ChannelPlatform (Text : Type) where
  size : SizeType
  fromUTF8 : List UInt8 → Option Text
  utf8 : Option Text → List UInt8
  emptyString : Text
  disconnectsAtOnce : Bool
  closesAtOnce : Bool

/-- The members of a channel but for the receive buffer. The document, the client and the socket are there
    or not; `disconnecting` is a socket that was told to close and has not said that it did. -/
structure ChannelState (Text : Type) where
  document : Bool := true
  client : Bool := true
  handle : Bool := true
  disconnecting : Bool := false
  closing : Bool := false
  receivedClosingHandshake : Bool := false
  closed : Bool := false
  shouldDiscardReceivedData : Bool := false
  hasContinuousFrame : Bool := false
  continuousFrameOpCode : UInt8 := 0
  continuousFrameData : List UInt8 := []
  closeEventCode : Nat := closeEventCodeAbnormalClosure
  closeEventReason : Option Text := none
  outgoingFrameQueue : List (UInt8 × List UInt8) := []
  outgoingFrameQueueStatus : OutgoingFrameQueueStatus := .OutgoingFrameQueueOpen
  events : List (ChannelEvent Text) := []

namespace ChannelState

variable {Text : Type} (platform : ChannelPlatform Text)

def emit (event : ChannelEvent Text) (state : ChannelState Text) : ChannelState Text :=
  { state with events := state.events ++ [event] }

variable (state : ChannelState Text)

def abortOutgoingFrameQueue : ChannelState Text :=
  { state with outgoingFrameQueue := [], outgoingFrameQueueStatus := .OutgoingFrameQueueClosed }

def didCloseSocketStream : ChannelState Text :=
  let state := { state with closed := true, disconnecting := false }
  let state := if state.outgoingFrameQueueStatus ≠ .OutgoingFrameQueueClosed
    then abortOutgoingFrameQueue state else state
  if state.handle then
    let client := state.client
    let state := { state with client := false, document := false, handle := false }
    if client then
      emit (.didClose state.receivedClosingHandshake state.closeEventCode state.closeEventReason) state
    else state
  else state

def disconnect : ChannelState Text :=
  if platform.disconnectsAtOnce then didCloseSocketStream state
  else { state with disconnecting := true }

/-- `close` of the socket, which first sends what is left to send. -/
def close : ChannelState Text :=
  if platform.closesAtOnce then didCloseSocketStream state
  else { state with disconnecting := true }

def fail (reason : String) (state : ChannelState Text) : ChannelState Text :=
  let state := if state.document then emit (.addConsoleMessage reason) state else state
  let state := { state with
    shouldDiscardReceivedData := true
    hasContinuousFrame := false
    continuousFrameData := [] }
  let state := if state.client then emit .didReceiveMessageError state else state
  if state.handle && !state.closed then disconnect platform state else state

def enqueueRawFrame (opCode : UInt8) (data : List UInt8) (state : ChannelState Text) : ChannelState Text :=
  { state with outgoingFrameQueue := state.outgoingFrameQueue ++ [(opCode, data)] }

def processOutgoingFrameQueue (state : ChannelState Text) : ChannelState Text :=
  if state.outgoingFrameQueueStatus = .OutgoingFrameQueueClosed then state
  else
    let state := state.outgoingFrameQueue.foldl (fun state frame => emit (.sendFrame frame.1 frame.2) state)
      { state with outgoingFrameQueue := [] }
    if state.outgoingFrameQueueStatus = .OutgoingFrameQueueClosing then
      close platform { state with outgoingFrameQueueStatus := .OutgoingFrameQueueClosed }
    else state

def startClosingHandshake (code : Int) (reason : Option Text) (state : ChannelState Text) :
    ChannelState Text :=
  if state.closing then state
  else
    let buf := if !state.receivedClosingHandshake && code ≠ closeEventCodeNotSpecified
      then UInt8.ofInt (code / 256) :: UInt8.ofInt code :: platform.utf8 reason else []
    let state := processOutgoingFrameQueue platform (enqueueRawFrame opCodeClose buf state)
    if state.closed then state
    else
      let state := { state with closing := true }
      if state.client then emit .didStartClosingHandshake state else state

/-- The deflate-frame extension was not negotiated. -/
def inflate (frame : WebSocketFrame) : Option String :=
  if frame.compress then some "Compressed bit must be 0 if no negotiated deflate-frame extension" else none

def validate (state : ChannelState Text) (frame : WebSocketFrame) : Option String :=
  match inflate frame with
  | some failureReason => some failureReason
  | none =>
    if isReservedOpCode frame.opCode then some s!"Unrecognized frame opcode: {frame.opCode.toNat}"
    else if frame.reserved2 || frame.reserved3 then
      some (s!"One or more reserved bits are on: reserved2 = {frame.reserved2.toNat}" ++
        s!", reserved3 = {frame.reserved3.toNat}")
    else if frame.masked then some "A server must not mask any frames that it sends to the client."
    else if isControlOpCode frame.opCode && !frame.final then
      some s!"Received fragmented control frame: opcode = {frame.opCode.toNat}"
    else if isControlOpCode frame.opCode && needsExtendedLengthField frame.payload.length then
      some s!"Received control frame having too long payload: {frame.payload.length} bytes"
    else if state.hasContinuousFrame && frame.opCode ≠ opCodeContinuation && !isControlOpCode frame.opCode then
      some "Received new data frame but previous continuous frame is unfinished."
    else none

/-- The text of a message; one without bytes is not decoded. -/
def decodeMessage (data : List UInt8) : Option Text :=
  if data = [] then some platform.emptyString else platform.fromUTF8 data

def receiveText (data : List UInt8) (state : ChannelState Text) : Option String × ChannelState Text :=
  match decodeMessage platform data with
  | none => (some "Could not decode a text frame as UTF-8.", state)
  | some message => (none, emit (.didReceiveMessage message) state)

def continueFrame (frame : WebSocketFrame) (state : ChannelState Text) :
    Option String × ChannelState Text :=
  if !state.hasContinuousFrame then (some "Received unexpected continuation frame.", state)
  else
    let continuousFrameData := state.continuousFrameData ++ frame.payload
    if frame.final then
      let state := { state with continuousFrameData := [], hasContinuousFrame := false }
      if state.continuousFrameOpCode = opCodeText then receiveText platform continuousFrameData state
      else if state.continuousFrameOpCode = opCodeBinary
      then (none, emit (.didReceiveBinaryData continuousFrameData) state)
      else (none, state)
    else (none, { state with continuousFrameData := continuousFrameData })

def beginContinuousFrame (frame : WebSocketFrame) (state : ChannelState Text) : ChannelState Text :=
  { state with
    hasContinuousFrame := true
    continuousFrameOpCode := frame.opCode
    continuousFrameData := state.continuousFrameData ++ frame.payload }

def closeCode : List UInt8 → Except String Nat
  | [] => .ok closeEventCodeNoStatusRcvd
  | [_] => .error "Received a broken close frame containing an invalid size body."
  | highByte :: lowByte :: _ =>
    let code := highByte.toNat * 256 + lowByte.toNat
    if code = closeEventCodeNoStatusRcvd || code = closeEventCodeAbnormalClosure ||
        code = closeEventCodeTLSHandshake
    then .error "Received a broken close frame containing a reserved status code."
    else .ok code

def closeReason (payload : List UInt8) : Option Text :=
  if payload.length ≥ 3 then platform.fromUTF8 (payload.drop 2) else some platform.emptyString

variable (frame : WebSocketFrame) (state : ChannelState Text)

def receiveClose : Option String × ChannelState Text :=
  match closeCode frame.payload with
  | .error reason => (some reason, { state with closeEventCode := closeEventCodeAbnormalClosure })
  | .ok code =>
    let state := { state with
      closeEventCode := code
      closeEventReason := closeReason platform frame.payload
      receivedClosingHandshake := true }
    let state := startClosingHandshake platform state.closeEventCode state.closeEventReason state
    if state.closing then
      let state := if state.outgoingFrameQueueStatus = .OutgoingFrameQueueOpen
        then { state with outgoingFrameQueueStatus := .OutgoingFrameQueueClosing } else state
      (none, processOutgoingFrameQueue platform state)
    else (none, state)

/-- A frame of each kind: the channel afterwards, and why it fails if it does. -/
def receiveFrame : Option String × ChannelState Text :=
  if frame.opCode = opCodeContinuation then continueFrame platform frame state
  else if frame.opCode = opCodeText then
    if frame.final then receiveText platform frame.payload state
    else (none, beginContinuousFrame frame state)
  else if frame.opCode = opCodeBinary then
    if frame.final then (none, emit (.didReceiveBinaryData frame.payload) state)
    else (none, beginContinuousFrame frame state)
  else if frame.opCode = opCodeClose then receiveClose platform frame state
  else if frame.opCode = opCodePing then
    (none, processOutgoingFrameQueue platform (enqueueRawFrame opCodePong frame.payload state))
  else (none, state)

def takeFrame : Option String × ChannelState Text :=
  match validate state frame with
  | some reason => (some reason, state)
  | none => receiveFrame platform frame state

end ChannelState

structure WebSocketChannel (Text : Type) extends ChannelState Text where
  buffer : List UInt8 := []

namespace WebSocketChannel

variable {Text : Type} (platform : ChannelPlatform Text)

/-- `fail`, which drops what was received. -/
def fail (reason : String) (channel : WebSocketChannel Text) : WebSocketChannel Text where
  toChannelState := channel.toChannelState.fail platform reason
  buffer := []

def appendToBuffer (data : List UInt8) (channel : WebSocketChannel Text) : Option (WebSocketChannel Text) :=
  if channel.buffer.length + data.length > platform.size.max then none
  else some { channel with buffer := channel.buffer ++ data }

def skipBuffer (length : Nat) (channel : WebSocketChannel Text) : WebSocketChannel Text :=
  { channel with buffer := channel.buffer.drop length }

variable (channel : WebSocketChannel Text)

def processFrame : Bool × WebSocketChannel Text :=
  match parseFrame platform.size channel.buffer with
  | (.FrameIncomplete, _) => (false, channel)
  | (.FrameError errorString, _) => (false, channel.fail platform errorString)
  | (.FrameOK frame frameEnd, data) =>
    let (failure, state) := channel.toChannelState.takeFrame platform frame
    let channel : WebSocketChannel Text := { toChannelState := state, buffer := data }
    match failure with
    | some reason => (false, channel.fail platform reason)
    | none =>
      let channel := channel.skipBuffer frameEnd
      (!channel.buffer.isEmpty, channel)

def processBuffer : Bool × WebSocketChannel Text :=
  if channel.shouldDiscardReceivedData then (false, channel)
  else if channel.receivedClosingHandshake then (false, channel.skipBuffer channel.buffer.length)
  else processFrame platform channel

def Shrinks (processed : Bool × WebSocketChannel Text) : Prop :=
  processed.2.buffer.length ≤ channel.buffer.length ∧
    (processed.1 = true → processed.2.buffer.length < channel.buffer.length)

theorem processFrame_shrinks : channel.Shrinks (processFrame platform channel) := by
  unfold processFrame
  cases parsed : parseFrame platform.size channel.buffer with
  | mk result data =>
    cases result with
    | FrameIncomplete => exact ⟨Nat.le_refl _, nofun⟩
    | FrameError errorString => exact ⟨Nat.zero_le _, nofun⟩
    | FrameOK frame frameEnd =>
      rcases parseFrame_consumed parsed with ⟨kept, progress, inside⟩
      cases failure : (channel.toChannelState.takeFrame platform frame).1 with
      | some reason =>
        simp only [failure]
        exact ⟨Nat.zero_le _, nofun⟩
      | none =>
        simp only [failure, skipBuffer, Shrinks]
        rw [kept, List.length_drop]
        omega

theorem processBuffer_shrinks : channel.Shrinks (processBuffer platform channel) := by
  unfold processBuffer
  split
  · exact ⟨Nat.le_refl _, nofun⟩
  · split
    · exact ⟨by simp only [skipBuffer, List.length_drop, Nat.sub_le], nofun⟩
    · exact processFrame_shrinks platform channel

def processReceived (channel : WebSocketChannel Text) : WebSocketChannel Text :=
  if channel.client && !channel.buffer.isEmpty then
    if (processBuffer platform channel).1 then processReceived (processBuffer platform channel).2
    else (processBuffer platform channel).2
  else channel
termination_by channel.buffer.length
decreasing_by exact (processBuffer_shrinks platform channel).2 ‹_›

def didReceiveSocketStreamData (data : List UInt8) : WebSocketChannel Text :=
  if !channel.document then channel
  else if data.isEmpty then
    { channel with toChannelState := channel.toChannelState.disconnect platform }
  else if !channel.client then
    { channel with
      toChannelState := { channel.toChannelState with shouldDiscardReceivedData := true }.disconnect platform }
  else if channel.shouldDiscardReceivedData then channel
  else
    match channel.appendToBuffer platform data with
    | none => { channel with shouldDiscardReceivedData := true }.fail platform
        "Ran out of memory while receiving WebSocket data."
    | some channel => processReceived platform channel

end WebSocketChannel

end Odyssey.WebSockets
