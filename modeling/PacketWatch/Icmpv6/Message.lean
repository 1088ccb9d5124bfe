import PacketWatch.Membership

namespace PacketWatch.Icmpv6

/-- The four bytes that begin every ICMPv6 message. The checksum is carried, never computed. -/
structure Header where
  kind : UInt8
  code : UInt8 := 0
  checksum : UInt16 := 0
deriving DecidableEq

namespace Header

def write (h : Header) : Writer Unit := do
  Writer.u8 h.kind
  Writer.u8 h.code
  Writer.u16 h.checksum

def read : Reader Header := do
  Reader.need 4
  let kind ← Reader.u8
  let code ← Reader.u8
  let checksum ← Reader.u16
  return { kind, code, checksum }

instance : WireFormat Header := ⟨fun _ => 4, write, read⟩

end Header

structure Echo where
  header : Header
  identifier : UInt16
  sequence : UInt16
  data : Bytes
deriving DecidableEq

namespace Echo

def requestKind : UInt8 := 128

def replyKind : UInt8 := 129

def request (identifier sequence : UInt16) (data : Bytes) : Echo :=
  ⟨{ kind := requestKind }, identifier, sequence, data⟩

def reply (identifier sequence : UInt16) (data : Bytes) : Echo :=
  ⟨{ kind := replyKind }, identifier, sequence, data⟩

def isRequest (e : Echo) : Bool := e.header.kind == requestKind

def size (e : Echo) : Nat := 8 + e.data.length

def write (e : Echo) : Writer Unit := do
  e.header.write
  Writer.u16 e.identifier
  Writer.u16 e.sequence
  Writer.bytes e.data

def read : Reader Echo := do
  Reader.need 8
  let header ← Header.read
  let identifier ← Reader.u16
  let sequence ← Reader.u16
  let data ← Reader.rest
  return { header, identifier, sequence, data }

instance : WireFormat Echo := ⟨size, write, read⟩

end Echo

/-- The 24-byte multicast listener message: a query, report or done message of the older version,
and the beginning of a query of the newer one. -/
structure Listener where
  header : Header
  maxDelay : UInt16 := 0
  group : Ipv6Address
deriving DecidableEq

namespace Listener

def queryKind : UInt8 := 130

def reportKind : UInt8 := 131

def doneKind : UInt8 := 132

def query (maxDelay : UInt16) (group : Ipv6Address) : Listener :=
  ⟨{ kind := queryKind }, maxDelay, group⟩

def report (group : Ipv6Address) : Listener := { header := { kind := reportKind }, group }

def done (group : Ipv6Address) : Listener := { header := { kind := doneKind }, group }

abbrev length : Nat := 24

def write (m : Listener) : Writer Unit := do
  m.header.write
  Writer.u16 m.maxDelay
  Writer.word 2 0
  m.group.write

def read : Reader Listener := do
  Reader.need length
  let header ← Header.read
  let maxDelay ← Reader.u16
  Reader.skip 2
  let group ← Address.read
  return { header, maxDelay, group }

instance : WireFormat Listener := ⟨fun _ => length, write, read⟩

end Listener

structure SourceQuery where
  base : Listener
  querier : Querier .mld
deriving DecidableEq

namespace SourceQuery

abbrev minSize : Nat := Listener.length + 4

def size (q : SourceQuery) : Nat := Listener.length + q.querier.size

def write (q : SourceQuery) : Writer Unit := do
  q.base.write
  q.querier.write

def read : Reader SourceQuery := do
  let start ← get
  Reader.need minSize
  let base ← Listener.read
  let querier ← Querier.read .mld Listener.length start
  return { base, querier }

instance : WireFormat SourceQuery := ⟨size, write, read⟩

end SourceQuery

inductive Query where
  | v1 (query : Listener)
  | v2 (query : SourceQuery)
deriving DecidableEq

namespace Query

def ofGroup (maxDelay : UInt16) (group : Ipv6Address) : Query := v1 (Listener.query maxDelay group)

def ofSources (maxDelay : UInt16) (group : Ipv6Address) (robustness interval : UInt8)
    (sources : List Ipv6Address) : Query :=
  v2 ⟨Listener.query maxDelay group, { robustness, interval, sources }⟩

def group : Query → Ipv6Address
  | v1 q => q.group
  | v2 q => q.base.group

def sources : Query → List Ipv6Address
  | v1 _ => []
  | v2 q => q.querier.sources

def header : Query → Header
  | v1 q => q.header
  | v2 q => q.base.header

def size : Query → Nat
  | v1 _ => Listener.length
  | v2 q => q.size

def write : Query → Writer Unit
  | v1 q => q.write
  | v2 q => q.write

/-- The version is told by the length alone: only what is longer than a newer query without
sources is read as one. -/
def read : Reader Query := do
  let start ← get
  Reader.need Listener.length
  if Wire.reaches start (SourceQuery.minSize + 1) then return v2 (← SourceQuery.read)
  else return v1 (← Listener.read)

instance : WireFormat Query := ⟨size, write, read⟩

end Query

structure Report where
  header : Header
  records : List (GroupRecord .mld)
deriving DecidableEq

namespace Report

def kind : UInt8 := 143

def ofRecords (records : List (GroupRecord .mld)) : Report := ⟨{ kind }, records⟩

def size (r : Report) : Nat := 4 + GroupRecord.listSize r.records

def write (r : Report) : Writer Unit := do
  r.header.write
  GroupRecord.writeList r.records

def read : Reader Report := do
  let start ← get
  Reader.need 8
  let header ← Header.read
  let records ← GroupRecord.readList .mld start
  return { header, records }

instance : WireFormat Report := ⟨size, write, read⟩

end Report

inductive Message where
  | echo (message : Echo)
  | query (message : Query)
  | listener (message : Listener)
  | report (message : Report)
  | unknown (header : Header) (body : Bytes)
deriving DecidableEq

namespace Message

def header : Message → Header
  | echo m => m.header
  | query m => m.header
  | listener m => m.header
  | report m => m.header
  | unknown h _ => h

def size : Message → Nat
  | echo m => m.size
  | query m => m.size
  | listener _ => Listener.length
  | report m => m.size
  | unknown _ body => 4 + body.length

def write : Message → Writer Unit
  | echo m => m.write
  | query m => m.write
  | listener m => m.write
  | report m => m.write
  | unknown h body => do
    h.write
    Writer.bytes body

def read : Reader Message := do
  Reader.need 4
  let kind ← Reader.peekByte
  if kind = Echo.requestKind ∨ kind = Echo.replyKind then return echo (← Echo.read)
  else if kind = Listener.queryKind then return query (← Query.read)
  else if kind = Listener.reportKind ∨ kind = Listener.doneKind then
    return listener (← Listener.read)
  else if kind = Report.kind then return report (← Report.read)
  else
    let header ← Header.read
    let body ← Reader.rest
    return unknown header body

instance : WireFormat Message := ⟨size, write, read⟩

end Message

end PacketWatch.Icmpv6
