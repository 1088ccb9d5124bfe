import PacketWatch.Address.Basic
import PacketWatch.Text.Numeral

namespace PacketWatch

inductive Endpoint where
  | v4 (address : Ipv4Address) (port : UInt16)
  | v6 (address : Ipv6Address) (scope : UInt32) (port : UInt16)
deriving DecidableEq

namespace Endpoint

instance : ToString Endpoint where
  toString
    | v4 address port => s!"{address}:{port}"
    | v6 address scope port =>
      if scope = 0 then s!"[{address}]:{port}" else s!"[{address}%{scope}]:{port}"

/-! Each reader takes what it reads off the front of the text and leaves the rest. -/

def expect (c : Char) : List Char → Option (List Char)
  | d :: rest => if d = c then some rest else none
  | [] => none

def number (radix maxDigits limit : Nat) (leadingZeros : Bool) (s : List Char) :
    Option (Nat × List Char) := do
  let (digits, rest) := s.span fun c => (Text.digit? radix c).isSome
  guard (digits.length ≤ maxDigits)
  guard (leadingZeros || digits.length ≤ 1 || digits.head? != some '0')
  let n ← Text.numeral? radix digits
  guard (n ≤ limit)
  return (n, rest)

def octet (s : List Char) : Option (Nat × List Char) := number 10 3 255 false s

def ipv4 (s : List Char) : Option (List Nat × List Char) := do
  let (a, s) ← octet s
  let (b, s) ← octet (← expect '.' s)
  let (c, s) ← octet (← expect '.' s)
  let (d, s) ← octet (← expect '.' s)
  return ([a, b, c, d], s)

/-- At most the given number of groups, with a colon in front of each but the first. An IPv4
address may stand for the last two; the flag says whether one does. -/
def groups : Nat → Bool → List Char → List Nat × Bool × List Char
  | 0, _, s => ([], false, s)
  | n + 1, isFirst, s =>
    match if isFirst then some s else expect ':' s with
    | none => ([], false, s)
    | some body =>
      match if n = 0 then none else ipv4 body with
      | some (octets, rest) => (Address.groupsOf (octets.map UInt8.ofNat), true, rest)
      | none =>
        match number 16 4 0xffff true body with
        | none => ([], false, s)
        | some (g, rest) =>
          let (gs, embedded, rest) := groups n false rest
          (g :: gs, embedded, rest)

/-- The eight groups of an IPv6 address. A double colon stands for at least one group, and no IPv4
address may precede it. -/
def ipv6 (s : List Char) : Option (List Nat × List Char) := do
  let (front, embedded, rest) := groups 8 true s
  if front.length = 8 then return (front, rest)
  if embedded then none
  let rest ← expect ':' (← expect ':' rest)
  let (back, _, rest) := groups (7 - front.length) true rest
  return (front ++ List.replicate (8 - front.length - back.length) 0 ++ back, rest)

def port (s : List Char) : Option (UInt16 × List Char) := do
  let s ← expect ':' s
  let (n, rest) ← number 10 s.length 0xffff true s
  return (UInt16.ofNat n, rest)

def scope (s : List Char) : Option (UInt32 × List Char) := do
  let s ← expect '%' s
  let (n, rest) ← number 10 s.length 0xffffffff true s
  return (UInt32.ofNat n, rest)

def readV4 (s : List Char) : Option (Endpoint × List Char) := do
  let (octets, s) ← ipv4 s
  let (port, s) ← port s
  return (v4 (Address.ofDigits octets) port, s)

def readV6 (s : List Char) : Option (Endpoint × List Char) := do
  let (gs, s) ← ipv6 (← expect '[' s)
  let (scope, s) := (scope s).getD (0, s)
  let (port, s) ← port (← expect ']' s)
  return (v6 (Address.ofDigits (gs.flatMap fun g => [g / 256, g % 256])) scope port, s)

def ofText? (text : String) : Option Endpoint :=
  match readV4 text.toList <|> readV6 text.toList with
  | some (endpoint, []) => some endpoint
  | _ => none

end Endpoint

end PacketWatch
