import PacketWatch.Wire.Basic

namespace PacketWatch

abbrev Writer := StateT (Array UInt8) (Except EncodeError)

namespace Writer

def bytes (b : Bytes) : Writer Unit := modify fun buffer : Array UInt8 => buffer ++ b

def word (width n : Nat) : Writer Unit := bytes (Wire.digits width n)

def u8 (x : UInt8) : Writer Unit := word 1 x.toNat

def u16 (x : UInt16) : Writer Unit := word 2 x.toNat

def u32 (x : UInt32) : Writer Unit := word 4 x.toNat

def fit (field : Field) (n max : Nat) : Writer Unit :=
  if n ≤ max then return () else throw ⟨field, n, max⟩

end Writer

abbrev Reader := StateT Bytes (Except DecodeError)

namespace Reader

variable {α : Type}

def take (n : Nat) : Reader Bytes := fun b =>
  let front := b.take n
  if front.length = n then .ok (front, b.drop n) else .error .pastEnd

def octets (n : Nat) : Reader (Vector UInt8 n) := fun b =>
  let front := b.take n
  if h : front.length = n then .ok (⟨front.toArray, by simpa using h⟩, b.drop n)
  else .error .pastEnd

def word (width : Nat) : Reader Nat := return Wire.value (← take width)

def u8 : Reader UInt8 := return UInt8.ofNat (← word 1)

def u16 : Reader UInt16 := return UInt16.ofNat (← word 2)

def u32 : Reader UInt32 := return UInt32.ofNat (← word 4)

def peekByte : Reader UInt8 := do
  let start ← get
  let byte ← u8
  set start
  return byte

def skip (n : Nat) : Reader Unit := discard (take n)

def minus (n m : Nat) : Reader Nat := if m ≤ n then return n - m else throw .pastEnd

def consumed (start : Bytes) : Reader Nat := do minus start.length (← get).length

def rest : Reader Bytes := fun b => .ok (b, [])

def times (r : Reader α) (n : Nat) : Reader (List α) := go n []
where
  go : Nat → List α → Reader (List α)
    | 0, seen => return seen.reverse
    | n + 1, seen => do
      let a ← r
      go n (a :: seen)

def need (n : Nat) : Reader Unit := fun b =>
  if Wire.reaches b n then .ok ((), b) else .error (.truncated n b.length)

/-- Fails unless the message that starts at `start` can be as long as one of its fields says. -/
def declare (field : Field) (length : Nat) (start : Bytes) : Reader Unit :=
  if Wire.reaches start length then return ()
  else throw (.inconsistentLength field length start.length)

end Reader

class WireFormat (α : Type) where
  size : α → Nat
  write : α → Writer Unit
  read : Reader α

variable {α : Type} [WireFormat α]

def append (buffer : Array UInt8) (a : α) : Except EncodeError (Array UInt8) :=
  return (← (WireFormat.write a).run buffer).2

def encode (a : α) : Except EncodeError Bytes := return (← append #[] a).toList

/-- The value at the front of a byte string, and the number of bytes it takes there. -/
def decode (α : Type) [WireFormat α] (b : Bytes) : Except DecodeError (α × Nat) :=
  (do
    let a ← WireFormat.read
    return (a, ← Reader.consumed b) : Reader (α × Nat)).run' b

end PacketWatch
