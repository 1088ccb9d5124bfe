import PacketWatch.Icmpv6.Message
import PacketWatch.Packet.Extension

namespace PacketWatch

structure Udp where
  sourcePort : UInt16
  destinationPort : UInt16
  checksum : UInt16 := 0
  payload : Bytes
deriving DecidableEq

namespace Udp

def size (u : Udp) : Nat := 8 + u.payload.length

def write (u : Udp) : Writer Unit := do
  Writer.fit .udpLength u.size 0xffff
  Writer.u16 u.sourcePort
  Writer.u16 u.destinationPort
  Writer.word 2 u.size
  Writer.u16 u.checksum
  Writer.bytes u.payload

def read : Reader Udp := do
  let start ← get
  Reader.need 8
  let sourcePort ← Reader.u16
  let destinationPort ← Reader.u16
  let length ← Reader.word 2
  let checksum ← Reader.u16
  if length < 8 then throw (.inconsistentLength .udpLength length start.length)
  Reader.declare .udpLength length start
  let payload ← Reader.take (← Reader.minus length 8)
  return { sourcePort, destinationPort, checksum, payload }

instance : WireFormat Udp := ⟨size, write, read⟩

end Udp

inductive Payload where
  | icmpv6 (message : Icmpv6.Message)
  | udp (datagram : Udp)
  | raw (code : UInt8) (data : Bytes)
deriving DecidableEq

namespace Payload

def code : Payload → UInt8
  | icmpv6 _ => HeaderCode.icmpv6
  | udp _ => HeaderCode.udp
  | raw c _ => c

def size : Payload → Nat
  | icmpv6 m => m.size
  | udp u => u.size
  | raw _ data => data.length

def write : Payload → Writer Unit
  | icmpv6 m => m.write
  | udp u => u.write
  | raw _ data => Writer.bytes data

def readAs (code : UInt8) : Reader Payload := do
  if code = HeaderCode.icmpv6 then return icmpv6 (← Icmpv6.Message.read)
  else if code = HeaderCode.udp then return udp (← Udp.read)
  else return raw code (← Reader.rest)

end Payload

end PacketWatch
