import PacketWatch.Packet.Payload

namespace PacketWatch

/-- An IPv6 packet. The codes that name the next header are kept as given; `build` and `thread`
set them from the chain. -/
structure Packet where
  version : UInt8 := 6
  trafficClass : UInt8 := 0
  /-- Twenty bits on the wire. -/
  flowLabel : UInt32 := 0
  nextHeader : UInt8
  hopLimit : UInt8
  source : Ipv6Address
  destination : Ipv6Address
  extensions : List Extension
  payload : Payload
  /-- What the payload length covers and the payload leaves unread. -/
  trailer : Bytes := []
deriving DecidableEq

namespace Packet

abbrev headerSize : Nat := 40

abbrev maxExtensions : Nat := 16

def payloadLength (p : Packet) : Nat :=
  Wire.total Extension.size p.extensions + p.payload.size + p.trailer.length

def size (p : Packet) : Nat := headerSize + p.payloadLength

/-- Makes each header name its successor, the last one first. -/
def thread (p : Packet) : Packet :=
  let (nextHeader, extensions) := p.extensions.foldr
    (fun e (code, done) => (e.code, e.setNextHeader code :: done)) (p.payload.code, [])
  { p with nextHeader, extensions }

def build (source destination : Ipv6Address) (hopLimit : UInt8) (extensions : List Extension)
    (payload : Payload) : Packet :=
  thread { nextHeader := 0, hopLimit, source, destination, extensions, payload }

def write (p : Packet) : Writer Unit := do
  Writer.fit .ipVersion p.version.toNat 0xf
  Writer.fit .flowLabel p.flowLabel.toNat 0xfffff
  Writer.fit .payloadLength p.payloadLength 0xffff
  Writer.word 4
    (p.version.toNat * 0x10000000 + p.trafficClass.toNat * 0x100000 + p.flowLabel.toNat)
  Writer.word 2 p.payloadLength
  Writer.u8 p.nextHeader
  Writer.u8 p.hopLimit
  p.source.write
  p.destination.write
  p.extensions.forM Extension.write
  p.payload.write
  Writer.bytes p.trailer

/-- Follows a chain of extension headers, at most `allowed` of them, and gives the code of what
stands behind it. Nothing is chained behind a fragment header. -/
def readChain : Nat → UInt8 → Reader (List Extension × UInt8)
  | allowed, code => do
    if Extension.isNamedBy code then
      match allowed with
      | 0 => throw (.chainTooLong maxExtensions)
      | allowed + 1 =>
        let e ← Extension.readAs code
        if e.isFragment then return ([e], e.nextHeader)
        else
          let (rest, last) ← readChain allowed e.nextHeader
          return (e :: rest, last)
    else return ([], code)

/-- Reads what the payload length covers. Behind a fragment header that starts in the middle of a
message, the payload is not read as one. -/
def readBody (nextHeader : UInt8) : Reader (List Extension × Payload) := do
  let (extensions, code) ← readChain maxExtensions nextHeader
  if extensions.any Extension.isTrailingFragment then
    return (extensions, .raw code (← Reader.rest))
  else return (extensions, ← Payload.readAs code)

def read : Reader Packet := do
  let start ← get
  Reader.need headerSize
  let version := UInt8.ofNat ((← Reader.peekByte).toNat / 16)
  if version ≠ 6 then throw (.invalidVersion version)
  let first ← Reader.word 4
  let payloadLength ← Reader.word 2
  let nextHeader ← Reader.u8
  let hopLimit ← Reader.u8
  let source ← Address.read
  let destination ← Address.read
  Reader.declare .payloadLength (headerSize + payloadLength) start
  let body ← Reader.take payloadLength
  let ((extensions, payload), trailer) ← (readBody nextHeader).run body
  return {
    version
    trafficClass := UInt8.ofNat (first / 0x100000)
    flowLabel := UInt32.ofNat (first % 0x100000)
    nextHeader, hopLimit, source, destination, extensions, payload, trailer }

instance : WireFormat Packet := ⟨size, write, read⟩

end Packet

def Icmpv6.Message.summary : Icmpv6.Message → String
  | echo m =>
    let kind := if m.isRequest then "request" else "reply"
    s!"ICMPv6 echo {kind} id={m.identifier} seq={m.sequence} ({m.data.length} bytes)"
  | query m => s!"MLD query group={m.group} sources={m.sources.length}"
  | listener m => s!"MLD type={m.header.kind} group={m.group}"
  | report m => s!"MLDv2 report records={m.records.length}"
  | unknown h body => s!"ICMPv6 type={h.kind} code={h.code} ({body.length} bytes)"

def Payload.summary : Payload → String
  | icmpv6 m => m.summary
  | udp u => s!"UDP {u.sourcePort} -> {u.destinationPort} ({u.payload.length} bytes)"
  | raw code data => s!"protocol {code} ({data.length} bytes)"

def Packet.summary (p : Packet) : String :=
  let chain := ",".intercalate (p.extensions.map fun e => hexCode e.code)
  s!"{p.source} -> {p.destination} hop_limit={p.hopLimit} chain=[{chain}] {p.payload.summary}"

/-! Packets follow each other in a byte stream without separators; the payload length tells where
one ends. -/

namespace Packet

def peekPayloadLength (b : Bytes) : Except DecodeError Nat :=
  (do
    Reader.need 6
    Reader.skip 4
    Reader.word 2 : Reader Nat).run' b

end Packet

/-- The size of the packet at the front of a byte string, or `none` when more bytes are needed to
tell. -/
def frameSize? (b : Bytes) : Except DecodeError (Option Nat) :=
  match b with
  | [] => .ok none
  | first :: _ =>
    let version := UInt8.ofNat (first.toNat / 16)
    if version ≠ 6 then .error (.invalidVersion version)
    else
      match Packet.peekPayloadLength b with
      | .ok length => .ok (some (Packet.headerSize + length))
      | .error e => if e.isTruncated then .ok none else .error e

theorem frameSize?_pos {b : Bytes} {n : Nat} (h : frameSize? b = .ok (some n)) : 0 < n := by
  unfold frameSize? at h
  split at h
  · simp at h
  · dsimp only at h
    split at h
    · simp at h
    · split at h
      · cases h
        exact Nat.add_pos_left (by decide) _
      · split at h <;> simp at h

def parseFrame (frame : Bytes) : Except DecodeError Packet := do
  let (packet, used) ← decode Packet frame
  if used ≠ frame.length then throw (.inconsistentLength .payloadLength used frame.length)
  return packet

end PacketWatch
