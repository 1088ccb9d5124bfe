namespace PacketWatch.Text

def digit? (radix : Nat) (c : Char) : Option Nat :=
  let d? :=
    if '0' ≤ c ∧ c ≤ '9' then some (c.toNat - '0'.toNat)
    else if 'a' ≤ c ∧ c ≤ 'z' then some (c.toNat - 'a'.toNat + 10)
    else if 'A' ≤ c ∧ c ≤ 'Z' then some (c.toNat - 'A'.toNat + 10)
    else none
  d?.filter (· < radix)

def numeral? (radix : Nat) (cs : List Char) : Option Nat :=
  if cs.isEmpty then none
  else cs.foldlM (fun n c => return radix * n + (← digit? radix c)) 0

abbrev maxSize : Nat := 0xffffffffffffffff

def sizeIn? (radix : Nat) (cs : List Char) : Option Nat :=
  (numeral? radix cs).filter (· ≤ maxSize)

def size? : List Char → Option Nat
  | '+' :: cs => sizeIn? 10 cs
  | cs => sizeIn? 10 cs

def isBlank (c : Char) : Bool :=
  c ∈ ['\u0020', '\u0085', '\u00a0', '\u1680', '\u2028', '\u2029', '\u202f', '\u205f', '\u3000']
    || ('\u0009' ≤ c && c ≤ '\u000d') || ('\u2000' ≤ c && c ≤ '\u200a')

def trim (cs : List Char) : List Char :=
  ((cs.dropWhile isBlank).reverse.dropWhile isBlank).reverse

end PacketWatch.Text
