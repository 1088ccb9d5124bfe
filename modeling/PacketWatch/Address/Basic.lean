import PacketWatch.Wire.Format

namespace PacketWatch

structure Address (width : Nat) where
  octets : Vector UInt8 width
deriving DecidableEq

abbrev Ipv4Address := Address 4

abbrev Ipv6Address := Address 16

namespace Address

variable {width : Nat}

instance : Inhabited (Address width) := ⟨⟨Vector.replicate width 0⟩⟩

def ofDigits (digits : List Nat) : Address width :=
  ⟨Vector.ofFn fun i => UInt8.ofNat (digits.getD i 0)⟩

def write (a : Address width) : Writer Unit := Writer.bytes a.octets.toList

def read : Reader (Address width) := return ⟨← Reader.octets width⟩

instance : WireFormat (Address width) := ⟨fun _ => width, write, read⟩

def dotted (octets : List UInt8) : String := ".".intercalate (octets.map fun o => toString o.toNat)

def groupsOf : List UInt8 → List Nat
  | high :: low :: rest => (256 * high.toNat + low.toNat) :: groupsOf rest
  | _ => []

def hexGroups (groups : List Nat) : String :=
  ":".intercalate (groups.map fun g => String.ofList (Nat.toDigits 16 g))

def zerosAt (groups : List Nat) (i : Nat) : Nat := ((groups.drop i).takeWhile (· == 0)).length

/-- Where the longest run of zero groups begins; of two equally long ones, the first. -/
def longestZeros (groups : List Nat) : Nat :=
  (List.range groups.length).foldl
    (fun best i => if zerosAt groups best < zerosAt groups i then i else best) 0

/-- Groups in lower-case hexadecimal. A double colon stands for the longest run of two or more zero
groups, and an IPv4-mapped address ends in dotted form. -/
def colonHex (octets : List UInt8) : String :=
  let groups := groupsOf octets
  if groups.take 6 == [0, 0, 0, 0, 0, 0xffff] then "::ffff:" ++ dotted (octets.drop 12)
  else
    let start := longestZeros groups
    let length := zerosAt groups start
    if length < 2 then hexGroups groups
    else hexGroups (groups.take start) ++ "::" ++ hexGroups (groups.drop (start + length))

instance : ToString Ipv4Address := ⟨fun a => dotted a.octets.toList⟩

instance : ToString Ipv6Address := ⟨fun a => colonHex a.octets.toList⟩

end Address

end PacketWatch
