import Odyssey.Bytes.BigEndian

namespace Odyssey.WebSockets

open Bytes

inductive SizeType where
  | bits32
  | bits64

def SizeType.max : SizeType → Nat
  | .bits32 => 2^32 - 1
  | .bits64 => 2^64 - 1

def finalBit : UInt8 := 0x80
def compressBit : UInt8 := 0x40
def reserved2Bit : UInt8 := 0x20
def reserved3Bit : UInt8 := 0x10
def opCodeMask : UInt8 := 0xF
def maskBit : UInt8 := 0x80
def payloadLengthMask : UInt8 := 0x7F
def maxPayloadLengthWithoutExtendedLengthField : Nat := 125
def payloadLengthWithTwoByteExtendedLengthField : Nat := 126
def payloadLengthWithEightByteExtendedLengthField : Nat := 127
def maskingKeyWidthInBytes : Nat := 4
def maxPayloadLength : Nat := 0x7FFFFFFFFFFFFFFF

/-- The payload is the memory from the pointer on; opcodes are not only the named ones. -/
structure WebSocketFrame where
  opCode : UInt8
  final : Bool
  compress : Bool
  reserved2 : Bool
  reserved3 : Bool
  masked : Bool
  payload : List UInt8
  deriving DecidableEq

namespace WebSocketFrame

def opCodeContinuation : UInt8 := 0x0
def opCodeText : UInt8 := 0x1
def opCodeBinary : UInt8 := 0x2
def opCodeClose : UInt8 := 0x8
def opCodePing : UInt8 := 0x9
def opCodePong : UInt8 := 0xA

def isNonControlOpCode (opCode : UInt8) : Bool :=
  opCode = opCodeContinuation || opCode = opCodeText || opCode = opCodeBinary

def isControlOpCode (opCode : UInt8) : Bool :=
  opCode = opCodeClose || opCode = opCodePing || opCode = opCodePong

def isReservedOpCode (opCode : UInt8) : Bool := !isNonControlOpCode opCode && !isControlOpCode opCode

def needsExtendedLengthField (payloadLength : Nat) : Bool :=
  payloadLength > maxPayloadLengthWithoutExtendedLengthField

/-- A frame is given with the position after its end. -/
inductive ParseFrameResult where
  | FrameOK (frame : WebSocketFrame) (frameEnd : Nat)
  | FrameIncomplete
  | FrameError (errorString : String)
  deriving DecidableEq

def notMinimal : String := "The minimal number of bytes MUST be used to encode the length"

/-- The exclusive or of the payload with the masking key, over and over. -/
def applyMask (maskingKey payload : List UInt8) : List UInt8 :=
  payload.mapIdx (fun i byte => byte ^^^ maskingKey.getD (i % maskingKeyWidthInBytes) 0)

/-- The length of the payload and the position after it, counted from the second byte on. -/
def parsePayloadLength (length7 : Nat) (data : List UInt8) : Except ParseFrameResult (Nat × Nat) :=
  if length7 > maxPayloadLengthWithoutExtendedLengthField then
    let extendedPayloadLengthSize :=
      if length7 = payloadLengthWithTwoByteExtendedLengthField then 2 else 8
    if data.length < extendedPayloadLengthSize then .error .FrameIncomplete
    else
      let payloadLength64 := shiftedValue (data.take extendedPayloadLengthSize)
      if extendedPayloadLengthSize = 2 && payloadLength64 ≤ maxPayloadLengthWithoutExtendedLengthField
      then .error (.FrameError notMinimal)
      else if extendedPayloadLengthSize = 8 && payloadLength64 ≤ 0xFFFF
      then .error (.FrameError notMinimal)
      else .ok (payloadLength64, extendedPayloadLengthSize)
  else .ok (length7, 0)

/-- Returns the buffer as well, which is unmasked in place if the frame is complete. -/
def parseFrame (size : SizeType) (data : List UInt8) : ParseFrameResult × List UInt8 :=
  match data with
  | firstByte :: secondByte :: rest =>
    let masked : Bool := (secondByte &&& maskBit) ≠ 0
    match parsePayloadLength (secondByte &&& payloadLengthMask).toNat rest with
    | .error result => (result, data)
    | .ok (payloadLength, extendedPayloadLengthSize) =>
      let maskingKeyLength := if masked then maskingKeyWidthInBytes else 0
      let p := rest.drop extendedPayloadLengthSize
      if payloadLength > maxPayloadLength || payloadLength + maskingKeyLength > size.max then
        (.FrameError s!"WebSocket frame length too large: {payloadLength} bytes", data)
      else if p.length < maskingKeyLength + payloadLength then (.FrameIncomplete, data)
      else
        let maskingKey := p.take maskingKeyLength
        let inPlace := (p.drop maskingKeyLength).take payloadLength
        let payload := if masked then applyMask maskingKey inPlace else inPlace
        (.FrameOK
          { opCode := firstByte &&& opCodeMask
            final := (firstByte &&& finalBit) ≠ 0
            compress := (firstByte &&& compressBit) ≠ 0
            reserved2 := (firstByte &&& reserved2Bit) ≠ 0
            reserved3 := (firstByte &&& reserved3Bit) ≠ 0
            masked := masked
            payload := payload }
          (2 + extendedPayloadLengthSize + maskingKeyLength + payloadLength),
        firstByte :: secondByte :: rest.take extendedPayloadLengthSize ++ maskingKey ++ payload ++
          p.drop (maskingKeyLength + payloadLength))
  | _ => (.FrameIncomplete, data)

/-- The masking key is random. -/
def appendFramePayload (maskingKey : List UInt8) (frame : WebSocketFrame) : List UInt8 :=
  if frame.masked then maskingKey ++ applyMask maskingKey frame.payload else frame.payload

def lengthFields (payloadLength : Nat) : Nat × List UInt8 :=
  if payloadLength ≤ maxPayloadLengthWithoutExtendedLengthField then (payloadLength, [])
  else if payloadLength ≤ 0xFFFF then
    (payloadLengthWithTwoByteExtendedLengthField, highBytes 2 payloadLength)
  else (payloadLengthWithEightByteExtendedLengthField, highBytes 8 payloadLength)

def makeFrameData (maskingKey : List UInt8) (frame : WebSocketFrame) : List UInt8 :=
  let firstByte := (if frame.final then finalBit else 0) ||| (if frame.compress then compressBit else 0) |||
    frame.opCode
  let secondByte : UInt8 := if frame.masked then maskBit else 0
  let (length7, extendedPayloadLength) := lengthFields frame.payload.length
  [firstByte, secondByte ||| UInt8.ofNat length7] ++ extendedPayloadLength ++
    appendFramePayload maskingKey frame

def create (opCode : UInt8) (final compress masked : Bool) (payload : List UInt8) : WebSocketFrame where
  opCode := opCode
  final := final
  compress := compress
  reserved2 := false
  reserved3 := false
  masked := masked
  payload := payload

end WebSocketFrame

end Odyssey.WebSockets
