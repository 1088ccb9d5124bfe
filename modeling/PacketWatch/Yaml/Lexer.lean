import PacketWatch.Yaml.Scalar
import PacketWatch.Yaml.Tag

namespace PacketWatch.Yaml

/-- What a colon can make a key: where it begins and how many tokens precede it. -/
structure Key where
  line : Nat
  column : Nat
  before : Nat
  /-- Whether it stands where nothing but a key can stand. -/
  required : Bool
deriving DecidableEq

def Key.reaches (k : Key) (p : Place) : Bool := k.line = p.line && p.column ≤ k.column + 1024

structure Lexer where
  rest : List Place
  /-- Whether a key may begin here. -/
  fresh : Bool := true
  /-- The columns of the block collections around this place, the innermost first. -/
  columns : List Nat := []
  key : Option Key := none
  /-- What can be a key around each flow collection around this place. -/
  outer : List (Option Key) := []
  /-- What was read, the last first. -/
  tokens : List Token := []
deriving DecidableEq

namespace Lexer

def flow (s : Lexer) : Bool := !s.outer.isEmpty

def floor (s : Lexer) : Nat :=
  match s.columns with
  | [] => 0
  | c :: _ => c + 1

def leave (floor : Nat) (s : Lexer) : Lexer :=
  if s.flow then s
  else { s with
    columns := s.columns.dropWhile (floor ≤ ·)
    tokens := (s.columns.takeWhile (floor ≤ ·)).map (fun _ => .endBlock) ++ s.tokens }

def enter (column : Nat) (t : Token) (s : Lexer) : Lexer :=
  if s.flow || column < s.floor then s
  else { s with columns := column :: s.columns, tokens := t :: s.tokens }

def put (t : Token) (rest : List Place) (fresh : Bool) (s : Lexer) : Lexer :=
  { s with rest, fresh, tokens := t :: s.tokens }

def forget (s : Lexer) : Option Lexer :=
  if s.key.any (·.required) then none else some { s with key := none }

def remember (p : Place) (s : Lexer) : Option Lexer :=
  if s.fresh then do
    let required := !s.flow && s.columns.head? = some p.column
    let key := { line := p.line, column := p.column, before := s.tokens.length, required }
    return { (← s.forget) with key := some key }
  else some s

def openFlow (p : Place) (t : Token) (rest : List Place) (s : Lexer) : Option Lexer := do
  let s ← s.remember p
  return { s with key := none, outer := s.key :: s.outer }.put t rest true

def closeFlow (t : Token) (rest : List Place) (s : Lexer) : Option Lexer := do
  let s ← s.forget
  let s := match s.outer with
    | [] => s
    | key :: outer => { s with key, outer }
  return s.put t rest false

def mark (p : Place) (collection t : Token) (fresh : Bool) (rest : List Place) (s : Lexer) :
    Option Lexer := do
  guard (s.flow || s.fresh)
  return (← (s.enter p.column collection).forget).put t rest fresh

/-- Reads a colon, whose key is what stands in front of it on the same line, if anything does. -/
def colon (p : Place) (rest : List Place) (s : Lexer) : Option Lexer :=
  match s.key.filter (·.reaches p) with
  | none => s.mark p .beginMapping .value (!s.flow) rest
  | some k =>
    let since := s.tokens.length - k.before
    let s' := { s with tokens := s.tokens.drop since }.enter k.column .beginMapping
    let tokens := s.tokens.take since ++ .key :: s'.tokens
    some ({ s' with key := none, tokens }.put .value rest false)

def scalar (p : Place) (style : Style) (read : Option (List Char × List Place × Bool))
    (s : Lexer) : Option Lexer := do
  let s ← s.remember p
  let (text, rest, fresh) ← read
  return s.put (.scalar style (.ofList text)) rest fresh

def step (p : Place) (rest : List Place) (s : Lexer) : Option Lexer :=
  let c := p.char
  if c = '%' && p.column = 0 then do
    let (t, rest) ← directive? rest
    return (← (s.leave 0).forget).put t rest false
  else if isMarker (p :: rest) then do
    let t := if c = '-' then .documentStart else .documentEnd
    return (← (s.leave 0).forget).put t (rest.drop 2) false
  else if c = '[' then s.openFlow p .openSequence rest
  else if c = '{' then s.openFlow p .openMapping rest
  else if c = ']' then s.closeFlow .closeSequence rest
  else if c = '}' then s.closeFlow .closeMapping rest
  else if c = ',' then do return (← s.forget).put .comma rest true
  else if c = '-' && endsWord rest then s.mark p .beginSequence .item true rest
  else if c = '?' && (s.flow || endsWord rest) then s.mark p .beginMapping .key (!s.flow) rest
  else if c = ':' && (s.flow || endsWord rest) then s.colon p rest
  else if c = '&' || c = '*' then do
    let (name, rest) ← anchorName? rest
    let t := if c = '&' then .anchor name else .reference name
    return (← s.remember p).put t rest false
  else if c = '!' then do
    let (t, rest) ← tag? rest
    guard (endsWord rest || s.flow && rest.head?.any (·.char = ','))
    return (← s.remember p).put t rest false
  else if (c = '|' || c = '>') && !s.flow then do
    let (text, rest) ← block (c = '>') s.floor rest
    let style := if c = '>' then .folded else .literal
    return (← s.forget).put (.scalar style (.ofList text)) rest true
  else if c = '\'' || c = '"' then
    s.scalar p .quoted ((quoted c [] [] rest).map fun (text, rest) => (text, rest, false))
  else if startsPlain s.flow (p :: rest) then
    s.scalar p .plain (plain s.flow s.floor [] [] (p :: rest))
  else none

def run : Nat → Lexer → Option (List Token)
  | 0, _ => none
  | n + 1, s =>
    match skip s.flow false s.fresh s.rest with
    | ([], _) => do return (← (s.leave 0).forget).tokens.reverse
    | (p :: rest, fresh) => do
      run n (← ({ s with fresh }.leave (p.column + 1)).step p rest)

end Lexer

def tokens? (text : List Char) : Option (List Token) :=
  if text.all isPrintable then Lexer.run (text.length + 1) { rest := places 0 0 text } else none

end PacketWatch.Yaml
