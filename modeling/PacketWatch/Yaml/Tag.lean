import PacketWatch.Text.Numeral
import PacketWatch.Yaml.Place

namespace PacketWatch.Yaml

/-! What may stand in front of a value or of a whole document. -/

def isWord (c : Char) : Bool := c.isAlphanum || c = '_' || c = '-'

def word (s : List Place) : List Char × List Place :=
  (chars (s.takeWhile (isWord ·.char)), s.dropWhile (isWord ·.char))

def anchorName? (s : List Place) : Option (String × List Place) := do
  let (name, rest) := word s
  guard (!name.isEmpty)
  guard (endsWord rest
    || rest.head?.any (·.char ∈ ['?', ':', ',', ']', '}', '%', '@', '\x60']))
  return (.ofList name, rest)

def octetsBehind? (first : Nat) : Option Nat :=
  if first < 0x80 then some 0
  else if first < 0xc0 then none
  else if first < 0xe0 then some 1
  else if first < 0xf0 then some 2
  else if first < 0xf8 then some 3
  else none

def isTagMark (c : Char) : Bool :=
  isWord c
    || c ∈ [';', '/', '?', ':', '@', '&', '=', '+', '$', '.', '!', '~', '*', '\'', '(', ')']

/-- Reads the characters of a tag. Behind a percent sign stands the code of an octet, and as many
octets as are `due` follow as parts of the same character. -/
def octets (flowMarks : Bool) (due : Nat) : List Place → Option (List Char × List Place)
  | [] => if due = 0 then some ([], []) else none
  | ⟨'%', _, _⟩ :: a :: b :: rest => do
    let octet ← Text.numeral? 16 [a.char, b.char]
    let due ←
      if due = 0 then octetsBehind? octet
      else if 0x80 ≤ octet && octet < 0xc0 then some (due - 1)
      else none
    let (text, rest) ← octets flowMarks due rest
    return (.ofNat octet :: text, rest)
  | p :: rest =>
    if due ≠ 0 || p.char = '%' then none
    else if isTagMark p.char || flowMarks && p.char ∈ [',', '[', ']'] then do
      let (text, rest) ← octets flowMarks 0 rest
      return (p.char :: text, rest)
    else some ([], p :: rest)

/-- A coded zero ends the text of a tag. -/
def tagText (cs : List Char) : String := .ofList (cs.takeWhile (· ≠ '\x00'))

def tagText? (flowMarks : Bool) (s : List Place) : Option (String × List Place) := do
  let (text, rest) ← octets flowMarks 0 s
  guard (!text.isEmpty)
  return (tagText text, rest)

/-- Reads a tag from behind its exclamation mark: a whole tag in angle brackets, or a suffix that
a handle may precede. -/
def tag? (s : List Place) : Option (Token × List Place) :=
  match s with
  | ⟨'<', _, _⟩ :: rest => do
    let (text, rest) ← tagText? true rest
    guard (rest.head?.any (·.char = '>'))
    return (.tag "" text, rest.drop 1)
  | s =>
    match word s with
    | (name, ⟨'!', _, _⟩ :: rest) => do
      let (suffix, rest) ← tagText? false rest
      return (.tag ("!" ++ .ofList name ++ "!") suffix, rest)
    | (name, rest) => do
      let (text, rest) ← octets false 0 rest
      let suffix := tagText (name ++ text)
      return (if suffix = "" then .tag "" "!" else .tag "!" suffix, rest)

def version? (s : List Place) : Option (Token × List Place) := do
  let major := s.takeWhile (·.char.isDigit)
  let s := s.dropWhile (·.char.isDigit)
  guard (s.head?.any (·.char = '.'))
  let s := s.drop 1
  let minor := s.takeWhile (·.char.isDigit)
  guard (major.length ≤ 9 && minor.length ≤ 9)
  guard (Text.numeral? 10 (chars major) = some 1)
  guard (Text.numeral? 10 (chars minor) ∈ [some 1, some 2])
  return (.version, s.dropWhile (·.char.isDigit))

def handle? (s : List Place) : Option (Token × List Place) := do
  guard (s.head?.any (·.char = '!'))
  let (name, s) := word (s.drop 1)
  let closed := s.head?.any (·.char = '!')
  guard (closed || name.isEmpty)
  let s := if closed then s.drop 1 else s
  guard (s.head?.any (isBlank ·.char))
  let (space, s) ← tagText? true (s.dropWhile (isBlank ·.char))
  guard (endsWord s)
  return (.handle ("!" ++ .ofList name ++ if closed then "!" else "") space, s)

def directive? (s : List Place) : Option (Token × List Place) := do
  let (name, s) := word s
  guard (endsWord s)
  let s := s.dropWhile (isBlank ·.char)
  let (t, s) ←
    if name = ['Y', 'A', 'M', 'L'] then version? s
    else if name = ['T', 'A', 'G'] then handle? s
    else none
  return (t, ← nextLine? s)

end PacketWatch.Yaml
