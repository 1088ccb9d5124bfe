namespace PacketWatch

abbrev Bytes := List UInt8

namespace Wire

def digits : Nat → Nat → Bytes
  | 0, _ => []
  | width + 1, n => digits width (n / 256) ++ [UInt8.ofNat n]

def value (b : Bytes) : Nat := b.foldl (fun n d => 256 * n + d.toNat) 0

/-- Whether a byte string has at least the given length; looks no further than that length. -/
def reaches (b : Bytes) : Nat → Bool
  | 0 => true
  | n + 1 => !(b.drop n).isEmpty

@[simp] theorem reaches_eq_true_iff {b : Bytes} {n : Nat} : reaches b n = true ↔ n ≤ b.length := by
  cases n with
  | zero => simp [reaches]
  | succ n =>
    simp only [reaches, Bool.not_eq_true', List.isEmpty_eq_false_iff, ne_eq, List.drop_eq_nil_iff]
    omega

@[simp] theorem length_digits (width n : Nat) : (digits width n).length = width := by
  induction width generalizing n with
  | zero => rfl
  | succ width ih => rw [digits, List.length_append, ih]; rfl

variable {α : Type}

def total (size : α → Nat) : List α → Nat
  | [] => 0
  | a :: rest => size a + total size rest

@[simp] theorem total_nil (size : α → Nat) : total size [] = 0 := rfl

@[simp] theorem total_cons (size : α → Nat) (a : α) (l : List α) :
    total size (a :: l) = size a + total size l := rfl

@[simp] theorem total_append (size : α → Nat) (l m : List α) :
    total size (l ++ m) = total size l + total size m := by
  induction l with
  | nil => exact (Nat.zero_add _).symm
  | cons a l ih => rw [List.cons_append, total_cons, ih, total_cons, Nat.add_assoc]

end Wire

inductive Protocol where
  | mld
  | igmp
deriving DecidableEq, Repr

inductive Field where
  | udpLength
  | robustness
  | sourceCount (protocol : Protocol)
  | auxLength (protocol : Protocol)
  | recordLength (protocol : Protocol)
  | recordCount (protocol : Protocol)
  | optionLength
  | hopByHopLength
  | routingLength
  | fragmentOffset
  | ipVersion
  | flowLabel
  | payloadLength
deriving DecidableEq, Repr

def Field.name : Field → String
  | .udpLength => "UDP length"
  | .robustness => "robustness"
  | .sourceCount .mld => "MLDv2 source count"
  | .sourceCount .igmp => "IGMPv3 source count"
  | .auxLength .mld => "MLDv2 aux data length"
  | .auxLength .igmp => "IGMPv3 aux data length"
  | .recordLength .mld => "MLDv2 record length"
  | .recordLength .igmp => "IGMPv3 group record length"
  | .recordCount .mld => "MLDv2 record count"
  | .recordCount .igmp => "IGMPv3 group record count"
  | .optionLength => "option data length"
  | .hopByHopLength => "hop-by-hop header length"
  | .routingLength => "routing header length"
  | .fragmentOffset => "fragment offset"
  | .ipVersion => "IP version"
  | .flowLabel => "flow label"
  | .payloadLength => "IPv6 payload length"

inductive Kind where
  | igmp
  | igmpv3Report
  | extensionHeader
deriving DecidableEq, Repr

def Kind.name : Kind → String
  | .igmp => "IGMP"
  | .igmpv3Report => "IGMPv3 report"
  | .extensionHeader => "IPv6 extension header"

def hexCode (code : UInt8) : String :=
  String.ofList ('0' :: 'x' :: [code.toNat / 16, code.toNat % 16].map Nat.digitChar)

/-- Why bytes are not a message. Lengths are in bytes, and `available` is the size of what the
failing reader was given. -/
inductive DecodeError where
  | truncated (needed available : Nat)
  | inconsistentLength (field : Field) (declared available : Nat)
  | unknownType (kind : Kind) (code : UInt8)
  | invalidVersion (version : UInt8)
  | optionOverrun (offset length remaining : Nat)
  | chainTooLong (max : Nat)
  /-- A read past the last byte, or a length below zero. Every reader checks the length first, so
  none ends here. -/
  | pastEnd
deriving DecidableEq, Repr

namespace DecodeError

def message : DecodeError → String
  | truncated needed available => s!"truncated input: need {needed} bytes, have {available}"
  | inconsistentLength field declared available =>
    s!"inconsistent {field.name}: declares {declared} bytes, only {available} available"
  | unknownType kind code => s!"unknown {kind.name} type: {hexCode code}"
  | invalidVersion version => s!"invalid IP version: {version}"
  | optionOverrun offset length remaining =>
    s!"option at offset {offset} declares {length} bytes, {remaining} left in header"
  | chainTooLong max => s!"extension header chain longer than {max}"
  | pastEnd => "read past the end of the input"

def isTruncated : DecodeError → Bool
  | truncated .. => true
  | _ => false

end DecodeError

structure EncodeError where
  field : Field
  value : Nat
  max : Nat
deriving DecidableEq, Repr

def EncodeError.message (e : EncodeError) : String :=
  s!"{e.field.name} of {e.value} does not fit the wire field (max {e.max})"

end PacketWatch
