import PacketWatch.Wire.Format

namespace PacketWatch

/-- The least multiple of 8 that is not below `n`: extension headers come in units of 8 bytes. -/
def pad8 (n : Nat) : Nat := (n + 7) / 8 * 8

theorem le_pad8 (n : Nat) : n ≤ pad8 n := by simp only [pad8]; omega

theorem pad8_lt (n : Nat) : pad8 n < n + 8 := by simp only [pad8]; omega

theorem dvd_pad8 (n : Nat) : 8 ∣ pad8 n := Nat.dvd_mul_left 8 _

theorem pad8_of_dvd {n : Nat} (h : 8 ∣ n) : pad8 n = n := by simp only [pad8]; omega

inductive HopOption where
  | pad1
  | tlv (kind : UInt8) (data : Bytes)
deriving DecidableEq

namespace HopOption

def padKind : UInt8 := 1

def routerAlertKind : UInt8 := 5

def routerAlert (value : UInt16) : HopOption := tlv routerAlertKind (Wire.digits 2 value.toNat)

def size : HopOption → Nat
  | pad1 => 1
  | tlv _ data => 2 + data.length

def padding : Nat → List HopOption
  | 0 => []
  | 1 => [pad1]
  | n + 2 => [tlv padKind (List.replicate n 0)]

def write : HopOption → Writer Unit
  | pad1 => Writer.u8 0
  | tlv kind data => do
    Writer.fit .optionLength data.length 0xff
    Writer.u8 kind
    Writer.word 1 data.length
    Writer.bytes data

/-- Reads options up to the end of a header of `length` bytes; the next one is at `offset`. -/
def readUntil (length offset : Nat) (seen : List HopOption) : Reader (List HopOption) :=
  if h : offset < length then do
    let kind ← Reader.u8
    if kind = 0 then readUntil length (offset + 1) (pad1 :: seen)
    else
      let remaining ← Reader.minus length offset
      if remaining < 2 then throw (.optionOverrun offset 2 remaining)
      let size ← Reader.word 1
      if remaining < 2 + size then throw (.optionOverrun offset (2 + size) remaining)
      let data ← Reader.take size
      readUntil length (offset + 2 + size) (tlv kind data :: seen)
  else return seen.reverse
termination_by length - offset

theorem total_size_padding (n : Nat) : Wire.total size (padding n) = n := by
  match n with
  | 0 | 1 => rfl
  | n + 2 =>
    simp only [padding, Wire.total_cons, Wire.total_nil, size, List.length_replicate]
    omega

end HopOption

structure HopByHop where
  nextHeader : UInt8
  options : List HopOption
  aligned : 8 ∣ 2 + Wire.total HopOption.size options
deriving DecidableEq

namespace HopByHop

def ofOptions (nextHeader : UInt8) (options : List HopOption) : HopByHop :=
  let used := 2 + Wire.total HopOption.size options
  { nextHeader
    options := options ++ HopOption.padding (pad8 used - used)
    aligned := by
      rw [Wire.total_append, HopOption.total_size_padding, ← Nat.add_assoc,
        Nat.add_sub_cancel' (le_pad8 used)]
      exact dvd_pad8 used }

def size (h : HopByHop) : Nat := 2 + Wire.total HopOption.size h.options

def write (h : HopByHop) : Writer Unit := do
  Writer.fit .hopByHopLength (h.size / 8 - 1) 0xff
  Writer.u8 h.nextHeader
  Writer.word 1 (h.size / 8 - 1)
  h.options.forM HopOption.write

def read : Reader HopByHop := do
  let start ← get
  Reader.need 8
  let nextHeader ← Reader.u8
  let units ← Reader.word 1
  let length := 8 * (units + 1)
  Reader.declare .hopByHopLength length start
  return ofOptions nextHeader (← HopOption.readUntil length 2 [])

instance : WireFormat HopByHop := ⟨size, write, read⟩

end HopByHop

structure Routing where
  nextHeader : UInt8
  kind : UInt8
  segmentsLeft : UInt8
  data : Bytes
  aligned : 8 ∣ 4 + data.length
deriving DecidableEq

namespace Routing

def ofData (nextHeader kind segmentsLeft : UInt8) (data : Bytes) : Routing :=
  let used := 4 + data.length
  { nextHeader, kind, segmentsLeft
    data := data ++ List.replicate (pad8 used - used) 0
    aligned := by
      rw [List.length_append, List.length_replicate, ← Nat.add_assoc,
        Nat.add_sub_cancel' (le_pad8 used)]
      exact dvd_pad8 used }

def size (h : Routing) : Nat := 4 + h.data.length

def write (h : Routing) : Writer Unit := do
  Writer.fit .routingLength (h.size / 8 - 1) 0xff
  Writer.u8 h.nextHeader
  Writer.word 1 (h.size / 8 - 1)
  Writer.u8 h.kind
  Writer.u8 h.segmentsLeft
  Writer.bytes h.data

def read : Reader Routing := do
  let start ← get
  Reader.need 8
  let nextHeader ← Reader.u8
  let units ← Reader.word 1
  let length := 8 * (units + 1)
  Reader.declare .routingLength length start
  let kind ← Reader.u8
  let segmentsLeft ← Reader.u8
  let data ← Reader.take (← Reader.minus length 4)
  return ofData nextHeader kind segmentsLeft data

instance : WireFormat Routing := ⟨size, write, read⟩

end Routing

structure Fragment where
  nextHeader : UInt8
  /-- Where the payload belongs, in units of 8 bytes: thirteen bits on the wire. -/
  offset : UInt16
  more : Bool
  identification : UInt32
deriving DecidableEq

namespace Fragment

def isTrailing (h : Fragment) : Bool := h.offset != 0

abbrev length : Nat := 8

def write (h : Fragment) : Writer Unit := do
  Writer.fit .fragmentOffset h.offset.toNat 0x1fff
  Writer.u8 h.nextHeader
  Writer.u8 0
  Writer.word 2 (8 * h.offset.toNat + h.more.toNat)
  Writer.u32 h.identification

def read : Reader Fragment := do
  Reader.need length
  let nextHeader ← Reader.u8
  Reader.skip 1
  let offsetAndFlags ← Reader.word 2
  let identification ← Reader.u32
  return {
    nextHeader
    offset := UInt16.ofNat (offsetAndFlags / 8)
    more := offsetAndFlags % 2 = 1
    identification }

instance : WireFormat Fragment := ⟨fun _ => length, write, read⟩

end Fragment

/-! The codes by which a header names what follows it. -/

namespace HeaderCode

def hopByHop : UInt8 := 0

def udp : UInt8 := 17

def routing : UInt8 := 43

def fragment : UInt8 := 44

def icmpv6 : UInt8 := 58

end HeaderCode

inductive Extension where
  | hopByHop (header : HopByHop)
  | routing (header : Routing)
  | fragment (header : Fragment)
deriving DecidableEq

namespace Extension

def code : Extension → UInt8
  | hopByHop _ => HeaderCode.hopByHop
  | routing _ => HeaderCode.routing
  | fragment _ => HeaderCode.fragment

def nextHeader : Extension → UInt8
  | hopByHop h => h.nextHeader
  | routing h => h.nextHeader
  | fragment h => h.nextHeader

def setNextHeader (code : UInt8) : Extension → Extension
  | hopByHop h => hopByHop { h with nextHeader := code }
  | routing h => routing { h with nextHeader := code }
  | fragment h => fragment { h with nextHeader := code }

def isFragment : Extension → Bool
  | fragment _ => true
  | _ => false

def isTrailingFragment : Extension → Bool
  | fragment h => h.isTrailing
  | _ => false

def size : Extension → Nat
  | hopByHop h => h.size
  | routing h => h.size
  | fragment _ => Fragment.length

def write : Extension → Writer Unit
  | hopByHop h => h.write
  | routing h => h.write
  | fragment h => h.write

def isNamedBy (code : UInt8) : Bool :=
  code == HeaderCode.hopByHop || code == HeaderCode.routing || code == HeaderCode.fragment

def readAs (code : UInt8) : Reader Extension := do
  if code = HeaderCode.hopByHop then return hopByHop (← HopByHop.read)
  else if code = HeaderCode.routing then return routing (← Routing.read)
  else if code = HeaderCode.fragment then return fragment (← Fragment.read)
  else throw (.unknownType .extensionHeader code)

end Extension

end PacketWatch
