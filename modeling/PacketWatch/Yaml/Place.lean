namespace PacketWatch.Yaml

/-! A reader for the documents that settings are written in. Tokens are read from the text of a
document, and values from the tokens. -/

def isPrintable (c : Char) : Bool :=
  c ∈ ['\t', '\n', '\r', '\u0085'] || ('\u0020' ≤ c && c ≤ '\u007e')
    || ('\u00a0' ≤ c && c ≤ '\ufffd') || 0x10000 ≤ c.toNat

def isBreak (c : Char) : Bool := c ∈ ['\n', '\r', '\u0085', '\u2028', '\u2029']

structure Place where
  char : Char
  line : Nat
  column : Nat
deriving DecidableEq

/-- The characters of a text, the first of which stands at the given line and column. Line breaks
of every kind become the same character. -/
def places (line column : Nat) : List Char → List Place
  | '\r' :: '\n' :: rest => ⟨'\n', line, column⟩ :: places (line + 1) 0 rest
  | c :: rest =>
    if isBreak c then ⟨'\n', line, column⟩ :: places (line + 1) 0 rest
    else ⟨c, line, column⟩ :: places line (column + 1) rest
  | [] => []

def chars (s : List Place) : List Char := s.map Place.char

def isBlank (c : Char) : Bool := c = ' ' || c = '\t'

def endsWord : List Place → Bool
  | [] => true
  | p :: _ => isBlank p.char || p.char = '\n'

def isMarker (s : List Place) : Bool :=
  s.head?.any (·.column = 0)
    && chars (s.take 3) ∈ [['-', '-', '-'], ['.', '.', '.']] && endsWord (s.drop 3)

/-- The text behind blanks, line breaks and comments, and whether a key may begin there. A tab
cannot indent a key. A byte order mark may begin any line, and takes up a column of it. -/
def skip (flow : Bool) : (comment fresh : Bool) → List Place → List Place × Bool
  | _, fresh, [] => ([], fresh)
  | comment, fresh, p :: rest =>
    if p.char = '\n' then skip flow false (fresh || !flow) rest
    else if comment || p.char = ' ' || p.char = '\t' && (flow || !fresh)
        || p.char = '\ufeff' && p.column = 0 then
      skip flow comment fresh rest
    else if p.char = '#' then skip flow true fresh rest
    else (p :: rest, fresh)

def nextLine? (s : List Place) : Option (List Place) :=
  match s.dropWhile (isBlank ·.char) with
  | [] => some []
  | p :: rest =>
    if p.char = '\n' then some rest
    else if p.char = '#' then some ((rest.dropWhile (·.char ≠ '\n')).drop 1)
    else none

inductive Style where
  | plain
  | quoted
  | literal
  | folded
deriving DecidableEq, Repr

inductive Token where
  | version
  | handle (name space : String)
  | documentStart
  | documentEnd
  | beginSequence
  | beginMapping
  | endBlock
  | openSequence
  | closeSequence
  | openMapping
  | closeMapping
  | comma
  | item
  | key
  | value
  | anchor (name : String)
  | reference (name : String)
  | tag (handle suffix : String)
  | scalar (style : Style) (text : String)
deriving DecidableEq, Repr

def Token.isDirective : Token → Bool
  | version | handle _ _ => true
  | _ => false

end PacketWatch.Yaml
