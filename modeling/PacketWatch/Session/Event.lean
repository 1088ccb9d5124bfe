import PacketWatch.Log
import PacketWatch.Wire.Basic

namespace PacketWatch

inductive SessionError where
  | io (reason : String)
  | connectionClosed
  | unexpectedEnd (buffered : Nat)
  | decode (cause : DecodeError)
  | encode (cause : EncodeError)
  | messageTooLarge (size max : Nat)
  | closed
deriving DecidableEq, Repr

namespace SessionError

def message : SessionError → String
  | io reason => s!"I/O error: {reason}"
  | connectionClosed => "connection closed"
  | unexpectedEnd buffered => s!"connection closed with {buffered} bytes of an incomplete message"
  | decode cause => s!"decode error: {cause.message}"
  | encode cause => s!"encode error: {cause.message}"
  | messageTooLarge size max => s!"message of {size} bytes exceeds limit of {max}"
  | closed => "stream closed"

def isConnectionFault : SessionError → Bool
  | io _ | connectionClosed | unexpectedEnd _ => true
  | _ => false

end SessionError

inductive Event where
  | started
  | received (bytes : Nat)
  | carved (bytes : Nat)
  | writing (bytes : Nat)
  | connectionClosed
  | connectionCut (buffered : Nat)
  | readFailed (reason : String)
  | failed (error : SessionError)
  | stoppedPublishing
  | stoppedWaiting
  | stoppedWriting
  | ended
deriving DecidableEq

namespace Event

/-- An orderly close is no failure and gives no line. -/
def line? : Event → Option LogLine
  | started => some ⟨.info, "message stream started"⟩
  | received n => some ⟨.debug, s!"message stream: received {n} bytes"⟩
  | carved n => some ⟨.debug, s!"message stream: carved {n} byte frame"⟩
  | writing n => some ⟨.debug, s!"message stream: writing {n} bytes"⟩
  | connectionClosed => some ⟨.debug, "message stream: connection closed"⟩
  | connectionCut n =>
    some ⟨.debug, s!"message stream: connection closed with {n} bytes buffered"⟩
  | readFailed reason => some ⟨.debug, s!"message stream: read error: {reason}"⟩
  | failed .connectionClosed => none
  | failed (.decode cause) => some ⟨.warn, s!"message stream: decode failed: {cause.message}"⟩
  | failed e => some ⟨.warn, s!"message stream: {e.message}"⟩
  | stoppedPublishing => some ⟨.debug, "message stream stopped while publishing"⟩
  | stoppedWaiting => some ⟨.info, "message stream closed by owner"⟩
  | stoppedWriting => some ⟨.info, "message stream closed by owner during write"⟩
  | ended => some ⟨.info, "message stream ended"⟩

end Event

end PacketWatch
