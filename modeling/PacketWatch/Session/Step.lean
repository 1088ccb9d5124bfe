import PacketWatch.Session.Basic

namespace PacketWatch.Session

inductive Scan where
  | incomplete
  | message (packet : Packet) (size : Nat)
  /-- A complete frame that is no packet. -/
  | badFrame (cause : DecodeError) (size : Nat)
  /-- No frame at all, or one that is too large. -/
  | fault (error : SessionError)

def scan (limit : Nat) (buffer : Bytes) : Scan :=
  match frameSize? buffer with
  | .error cause => .fault (.decode cause)
  | .ok none => .incomplete
  | .ok (some size) =>
    if limit < size then .fault (.messageTooLarge size limit)
    else if !Wire.reaches buffer size then .incomplete
    else
      match parseFrame (buffer.take size) with
      | .ok packet => .message packet size
      | .error cause => .badFrame cause size

/-- Leaves the connection for good; what was still to be written is dropped. -/
def fail (error : SessionError) (s : Session) : Session :=
  { s with phase := .failing error, outbound := [] }

def stop (s : Session) : Session := { s with phase := .stopped, outbound := [] }

/-- The session after one step of its task and what the task tells meanwhile, or nothing if the
task waits or has stopped. A signal to stop goes first, and what there is to write goes before
what there is to read. -/
def step (s : Session) : Option (Session × List Event) :=
  match s.phase with
  | .starting => some ({ s with phase := .scanning }, [.started])
  | .scanning =>
    match scan s.settings.maxMessageSize s.buffer with
    | .incomplete => some ({ s with phase := .waiting }, [])
    | .message packet size =>
      some ({ s with phase := .publishing packet, buffer := s.buffer.drop size }, [.carved size])
    | .badFrame cause size =>
      some (fail (.decode cause) { s with buffer := s.buffer.drop size },
        [.carved size, .failed (.decode cause)])
    | .fault error => some (s.fail error, [.failed error])
  | .publishing packet =>
    if s.shutdown then some (s.stop, [.stoppedPublishing])
    else if s.inboundRoom then
      some ({ s with phase := .scanning, inbound := s.inbound ++ [.ok packet] }, [])
    else none
  | .waiting =>
    if s.shutdown then some (s.stop, [.stoppedWaiting])
    else
      match s.outbound with
      | b :: rest => some ({ s with phase := .writing b, outbound := rest }, [.writing b.length])
      | [] =>
        match s.connection.read s.settings.readBufferSize with
        | .wait => none
        | .fault reason connection =>
          some (fail (.io reason) { s with connection },
            [.readFailed reason, .failed (.io reason)])
        | .data [] connection =>
          let (error, event) : SessionError × Event :=
            if s.buffer.isEmpty then (.connectionClosed, .connectionClosed)
            else (.unexpectedEnd s.buffer.length, .connectionCut s.buffer.length)
          some (fail error { s with connection }, [event, .failed error])
        | .data b connection =>
          some ({ s with phase := .scanning, connection, buffer := s.buffer ++ b },
            [.received b.length])
  | .writing left =>
    if s.shutdown then some (s.stop, [.stoppedWriting])
    else if left.isEmpty then
      match s.connection.flush with
      | .error reason => some (s.fail (.io reason), [.failed (.io reason)])
      | .ok connection => some ({ s with phase := .scanning, connection }, [])
    else
      match s.connection.write left with
      | .wait => none
      | .fault reason => some (s.fail (.io reason), [.failed (.io reason)])
      | .sent left connection => some ({ s with phase := .writing left, connection }, [])
  | .failing error =>
    if s.shutdown then some (s.stop, [.ended])
    else if s.inboundRoom then
      some (stop { s with inbound := s.inbound ++ [.error error] }, [.ended])
    else none
  | .stopped => none

end PacketWatch.Session
