import PacketWatch.Packet.Basic
import PacketWatch.Session.Connection
import PacketWatch.Session.Event
import PacketWatch.Settings.Basic

namespace PacketWatch

inductive Phase where
  | starting
  /-- Looks for a complete message in the buffer. -/
  | scanning
  /-- Holds a message until there is room for it in the inbound queue. -/
  | publishing (packet : Packet)
  | waiting
  | writing (left : Bytes)
  /-- Is done with the connection; holds the last item until there is room for it. -/
  | failing (error : SessionError)
  | stopped
deriving DecidableEq

abbrev Item := Except SessionError Packet

/-- A task that owns a connection, with the queues between it and the owner of the session. -/
structure Session where
  settings : Settings := {}
  connection : Connection := {}
  phase : Phase := .starting
  /-- Bytes that have been read and not yet taken as messages. -/
  buffer : Bytes := []
  inbound : List Item := []
  outbound : List Bytes := []
  shutdown : Bool := false

namespace Session

def isStopped (s : Session) : Bool := s.phase = .stopped

def isOpen (s : Session) : Bool :=
  match s.phase with
  | .failing _ | .stopped => false
  | _ => true

def inboundRoom (s : Session) : Bool := s.inbound.length < max s.settings.inboundCapacity 1

def outboundRoom (s : Session) : Bool := s.outbound.length < max s.settings.outboundCapacity 1

/-! What the owner does. -/

inductive Received where
  | pending
  | ended
  | item (item : Item)

def receive (s : Session) : Received × Session :=
  match s.inbound with
  | i :: rest => (.item i, { s with inbound := rest })
  | [] => (if s.isStopped then .ended else .pending, s)

inductive Sent where
  | queued
  | blocked
  | refused (error : SessionError)

def sendBytes (b : Bytes) (s : Session) : Sent × Session :=
  if !s.isOpen then (.refused .closed, s)
  else if s.outboundRoom then (.queued, { s with outbound := s.outbound ++ [b] })
  else (.blocked, s)

/-- A packet that cannot be encoded is refused and leaves the session as it is. -/
def send (p : Packet) (s : Session) : Sent × Session :=
  match encode p with
  | .ok b => s.sendBytes b
  | .error e => (.refused (.encode e), s)

def signal (s : Session) : Session := { s with shutdown := true }

def abort (s : Session) : Session := { s with phase := .stopped, outbound := [] }

end Session

inductive Action where
  | deliver (incoming : Incoming)
  /-- The peer takes that many more bytes from now on, or as many as come. -/
  | allow (bytes : Option Nat)
  | failWrites (reason : String)
  | failFlushes (reason : String)
  /-- Writes take no bytes from now on. -/
  | stopWrites
  | receive
  | sendBytes (bytes : Bytes)
  | send (packet : Packet)
  | signal
  | abort

inductive Response where
  | nothing
  | received (received : Session.Received)
  | sent (sent : Session.Sent)

namespace Session

def onConnection (f : Connection → Connection) (s : Session) : Session :=
  { s with connection := f s.connection }

def act (s : Session) : Action → Response × Session
  | .deliver i => (.nothing, s.onConnection (·.deliver i))
  | .allow n => (.nothing, s.onConnection ({ · with room := n }))
  | .failWrites reason => (.nothing, s.onConnection ({ · with writeFault := some reason }))
  | .failFlushes reason => (.nothing, s.onConnection ({ · with flushFault := some reason }))
  | .stopWrites => (.nothing, s.onConnection ({ · with writesNothing := true }))
  | .receive => let (r, t) := s.receive; (.received r, t)
  | .sendBytes b => let (r, t) := s.sendBytes b; (.sent r, t)
  | .send p => let (r, t) := s.send p; (.sent r, t)
  | .signal => (.nothing, s.signal)
  | .abort => (.nothing, s.abort)

end Session

end PacketWatch
