import PacketWatch.Membership

namespace PacketWatch.Igmp

structure Short where
  kind : UInt8
  maxResponse : UInt8 := 0
  checksum : UInt16 := 0
  group : Ipv4Address
deriving DecidableEq

namespace Short

def queryKind : UInt8 := 0x11

def v1ReportKind : UInt8 := 0x12

def v2ReportKind : UInt8 := 0x16

def v2LeaveKind : UInt8 := 0x17

def query (maxResponse : UInt8) (group : Ipv4Address) : Short :=
  { kind := queryKind, maxResponse, group }

def v1Report (group : Ipv4Address) : Short := { kind := v1ReportKind, group }

def v2Report (group : Ipv4Address) : Short := { kind := v2ReportKind, group }

def v2Leave (group : Ipv4Address) : Short := { kind := v2LeaveKind, group }

abbrev length : Nat := 8

def write (m : Short) : Writer Unit := do
  Writer.u8 m.kind
  Writer.u8 m.maxResponse
  Writer.u16 m.checksum
  m.group.write

def read : Reader Short := do
  Reader.need length
  let kind ← Reader.u8
  let maxResponse ← Reader.u8
  let checksum ← Reader.u16
  let group ← Address.read
  return { kind, maxResponse, checksum, group }

instance : WireFormat Short := ⟨fun _ => length, write, read⟩

end Short

structure SourceQuery where
  base : Short
  querier : Querier .igmp
deriving DecidableEq

namespace SourceQuery

def ofSources (maxResponse : UInt8) (group : Ipv4Address) (robustness interval : UInt8)
    (sources : List Ipv4Address) : SourceQuery :=
  ⟨Short.query maxResponse group, { robustness, interval, sources }⟩

def size (q : SourceQuery) : Nat := Short.length + q.querier.size

def write (q : SourceQuery) : Writer Unit := do
  q.base.write
  q.querier.write

def read : Reader SourceQuery := do
  let start ← get
  Reader.need (Short.length + 4)
  let base ← Short.read
  let querier ← Querier.read .igmp Short.length start
  return { base, querier }

instance : WireFormat SourceQuery := ⟨size, write, read⟩

end SourceQuery

structure Report where
  checksum : UInt16 := 0
  records : List (GroupRecord .igmp)
deriving DecidableEq

namespace Report

def kind : UInt8 := 0x22

def size (r : Report) : Nat := 4 + GroupRecord.listSize r.records

def write (r : Report) : Writer Unit := do
  Writer.u8 kind
  Writer.u8 0
  Writer.u16 r.checksum
  GroupRecord.writeList r.records

def read : Reader Report := do
  let start ← get
  Reader.need 8
  let found ← Reader.u8
  if found ≠ kind then throw (.unknownType .igmpv3Report found)
  Reader.skip 1
  let checksum ← Reader.u16
  let records ← GroupRecord.readList .igmp start
  return { checksum, records }

instance : WireFormat Report := ⟨size, write, read⟩

end Report

inductive Message where
  | short (message : Short)
  | query (message : SourceQuery)
  | report (message : Report)
deriving DecidableEq

namespace Message

def kind : Message → UInt8
  | short m => m.kind
  | query m => m.base.kind
  | report _ => Report.kind

def size : Message → Nat
  | short _ => Short.length
  | query m => m.size
  | report m => m.size

def write : Message → Writer Unit
  | short m => m.write
  | query m => m.write
  | report m => m.write

/-- A query longer than a short message is read as version 3. -/
def read : Reader Message := do
  let start ← get
  Reader.need 1
  let kind ← Reader.peekByte
  if kind = Short.queryKind ∧ Wire.reaches start (Short.length + 1) then
    return query (← SourceQuery.read)
  else if kind = Short.queryKind ∨ kind = Short.v1ReportKind ∨ kind = Short.v2ReportKind
      ∨ kind = Short.v2LeaveKind then
    return short (← Short.read)
  else if kind = Report.kind then return report (← Report.read)
  else throw (.unknownType .igmp kind)

instance : WireFormat Message := ⟨size, write, read⟩

end Message

end PacketWatch.Igmp
