import PacketWatch.Address.Basic

namespace PacketWatch

abbrev Protocol.addressWidth : Protocol → Nat
  | .mld => 16
  | .igmp => 4

variable {p : Protocol}

/-- What the newer queries of both protocols add behind the older query: the flag byte, the query
interval code and the sources asked about. -/
structure Querier (p : Protocol) where
  suppress : Bool := false
  /-- Three bits on the wire. -/
  robustness : UInt8
  interval : UInt8
  sources : List (Address p.addressWidth)
deriving DecidableEq

namespace Querier

def size (q : Querier p) : Nat := 4 + p.addressWidth * q.sources.length

def write (q : Querier p) : Writer Unit := do
  Writer.fit .robustness q.robustness.toNat 7
  Writer.fit (.sourceCount p) q.sources.length 0xffff
  Writer.word 1 (8 * q.suppress.toNat + q.robustness.toNat)
  Writer.u8 q.interval
  Writer.word 2 q.sources.length
  q.sources.forM Address.write

/-- Reads on behind the older query of `older` bytes that began at `start`. -/
def read (p : Protocol) (older : Nat) (start : Bytes) : Reader (Querier p) := do
  let flags ← Reader.word 1
  let interval ← Reader.u8
  let count ← Reader.word 2
  Reader.declare (.sourceCount p) (older + 4 + p.addressWidth * count) start
  let sources ← Reader.times Address.read count
  return {
    suppress := flags / 8 % 2 = 1
    robustness := UInt8.ofNat (flags % 8)
    interval, sources }

end Querier

structure GroupRecord (p : Protocol) where
  kind : UInt8
  group : Address p.addressWidth
  sources : List (Address p.addressWidth)
  aux : List UInt32 := []
deriving DecidableEq

namespace GroupRecord

abbrev minSize (p : Protocol) : Nat := 4 + p.addressWidth

def size (r : GroupRecord p) : Nat :=
  minSize p + p.addressWidth * r.sources.length + 4 * r.aux.length

def write (r : GroupRecord p) : Writer Unit := do
  Writer.fit (.auxLength p) r.aux.length 0xff
  Writer.fit (.sourceCount p) r.sources.length 0xffff
  Writer.u8 r.kind
  Writer.word 1 r.aux.length
  Writer.word 2 r.sources.length
  r.group.write
  r.sources.forM Address.write
  r.aux.forM Writer.u32

def read : Reader (GroupRecord p) := do
  let start ← get
  Reader.need (minSize p)
  let kind ← Reader.u8
  let words ← Reader.word 1
  let count ← Reader.word 2
  Reader.declare (.recordLength p) (minSize p + p.addressWidth * count + 4 * words) start
  let group ← Address.read
  let sources ← Reader.times Address.read count
  let aux ← Reader.times Reader.u32 words
  return { kind, group, sources, aux }

instance : WireFormat (GroupRecord p) := ⟨size, write, read⟩

/-! The records of a report, with the reserved word and the count in front of them. -/

def listSize (l : List (GroupRecord p)) : Nat := 4 + Wire.total size l

def writeList (l : List (GroupRecord p)) : Writer Unit := do
  Writer.fit (.recordCount p) l.length 0xffff
  Writer.word 2 0
  Writer.word 2 l.length
  l.forM write

def readList (p : Protocol) (start : Bytes) : Reader (List (GroupRecord p)) := do
  Reader.skip 2
  let count ← Reader.word 2
  Reader.declare (.recordCount p) (8 + minSize p * count) start
  Reader.times read count

end GroupRecord

end PacketWatch
