import PacketWatch.Yaml.Lexer

namespace PacketWatch.Yaml

structure Scalar where
  style : Style
  tag : Option String
  text : String
deriving DecidableEq, Repr

inductive Value where
  | scalar (s : Scalar)
  | sequence (items : List Value)
  | mapping (entries : List (Value × Value))
  /-- The value with the given number. -/
  | reference (number : Nat)

namespace Value

def empty : Value := .scalar { style := .plain, tag := none, text := "" }

end Value

structure Document where
  root : Value
  numbered : List (Nat × Value) := []

/-- The scalar that a value of the document is or stands for. Of two values with one number, the
later one has it. -/
def Document.scalar? (d : Document) : Value → Option Scalar
  | .scalar s => some s
  | .reference n =>
    match d.numbered.reverse.lookup n with
    | some (.scalar s) => some s
    | _ => none
  | _ => none

structure Source where
  tokens : List Token
  /-- What the handles of tags stand for. -/
  handles : List (String × String) := [("!", "!"), ("!!", "tag:yaml.org,2002:")]
  /-- The numbers that the names of anchors stand for. -/
  names : List (String × Nat) := []
  /-- The values with an anchor in the order in which they begin. -/
  numbered : List (Nat × Value) := []

abbrev Reading := StateT Source Option

def require (b : Bool) : Reading Unit := if b then pure () else failure

def peek : Reading (Option Token) := return (← get).tokens.head?

def advance : Reading Unit := modify fun s => { s with tokens := s.tokens.drop 1 }

def tag : Reading (Option String) := do
  match ← peek with
  | some (.tag handle suffix) =>
    advance
    if handle = "" then return some suffix
    match (← get).handles.lookup handle with
    | some space => return some (space ++ suffix)
    | none => failure
  | _ => return none

def anchor : Reading (Option String) := do
  match ← peek with
  | some (.anchor name) => advance; return some name
  | _ => return none

/-- Gives the value that begins here a number, and tells how many have one before it. A number is
how many names there are so far: if a name is given twice, the next new one shares its number. -/
def number (name : String) : Reading Nat := do
  let s ← get
  let n := s.names.length
  set { s with
    names := (name, n) :: s.names.filter (·.1 ≠ name)
    numbered := s.numbered ++ [(n, Value.reference n)] }
  return s.numbered.length

def orEmpty (ends : List Token) (read : Reading Value) : Reading Value := do
  match ← peek with
  | some t => if t ∈ ends then return .empty else read
  | none => return .empty

def member (ends : List Token) (read : Reading Value) : Reading Value := do
  if (← peek) = some .value then
    advance
    orEmpty ends read
  else return .empty

/-! The readers recurse at most as deep as the first argument allows. -/

mutual

/-- Reads a value. Only a value in a block can be a block, and only behind a key can it be a
sequence that goes on at the column of the collection around it. -/
def node : Nat → (inBlock behindKey : Bool) → Reading Value
  | 0, _, _ => failure
  | depth + 1, inBlock, behindKey => do
    if let some (.reference name) ← peek then
      advance
      match (← get).names.lookup name with
      | some n => return .reference n
      | none => failure
    let early ← tag
    let name ← anchor
    let tag ← if early.isSome then pure early else tag
    let index ← name.mapM number
    let value ← match ← peek with
      | some (.scalar style text) => advance; pure (.scalar { style, tag, text })
      | some .openSequence => advance; pure (.sequence (← flowItems depth))
      | some .openMapping => advance; pure (.mapping (← flowEntries depth))
      | some .beginSequence =>
        require inBlock
        advance
        let items ← blockItems depth
        require ((← peek) = some .endBlock)
        advance
        pure (.sequence items)
      | some .beginMapping =>
        require inBlock
        advance
        pure (.mapping (← blockEntries depth))
      | t =>
        if t = some .item && behindKey then pure (.sequence (← blockItems depth))
        else
          require (name.isSome || tag.isSome)
          pure (.scalar { style := .plain, tag, text := "" })
    match index with
    | some i => modify fun s => { s with numbered := s.numbered.modify i fun (n, _) => (n, value) }
    | none => pure ()
    return value

def blockItems : Nat → Reading (List Value)
  | 0 => failure
  | depth + 1 => do
    if (← peek) = some .item then
      advance
      let item ← orEmpty [.item, .key, .value, .endBlock] (node depth true false)
      return item :: (← blockItems depth)
    else return []

def blockEntries : Nat → Reading (List (Value × Value))
  | 0 => failure
  | depth + 1 => do
    match ← peek with
    | some .key =>
      advance
      let ends := [.key, .value, .endBlock]
      let key ← orEmpty ends (node depth true true)
      let value ← member ends (node depth true true)
      return (key, value) :: (← blockEntries depth)
    | some .endBlock => advance; return []
    | _ => failure

/-- Reads the items up to the closing bracket. A pair alone stands for a mapping of one entry. The
token that stands in the place of its key is passed over. -/
def flowItems : Nat → Reading (List Value)
  | 0 => failure
  | depth + 1 => do
    if (← peek) = some .closeSequence then
      advance
      return []
    let item ←
      if (← peek) = some .key then
        advance
        let key ←
          if (← peek).any (· ∈ [.value, .comma, .closeSequence]) then
            advance
            pure .empty
          else node depth false false
        let value ← member [.comma, .closeSequence] (node depth false false)
        pure (.mapping [(key, value)])
      else node depth false false
    match ← peek with
    | some .closeSequence => advance; return [item]
    | some .comma => advance; return item :: (← flowItems depth)
    | _ => failure

def flowEntries : Nat → Reading (List (Value × Value))
  | 0 => failure
  | depth + 1 => do
    if (← peek) = some .closeMapping then
      advance
      return []
    let entry ←
      if (← peek) = some .key then
        advance
        let key ← orEmpty [.value, .comma, .closeMapping] (node depth false false)
        pure (key, ← member [.comma, .closeMapping] (node depth false false))
      else pure (← node depth false false, .empty)
    match ← peek with
    | some .closeMapping => advance; return [entry]
    | some .comma => advance; return entry :: (← flowEntries depth)
    | _ => failure

end

def directives : Reading Unit := do
  let s ← get
  let found := s.tokens.takeWhile Token.isDirective
  let handles := found.filterMap fun
    | .handle name space => some (name, space)
    | _ => none
  require (found.count .version ≤ 1)
  require (handles.map Prod.fst).Nodup
  set { s with
    tokens := s.tokens.dropWhile Token.isDirective
    handles := handles ++ s.handles }
  require ((← peek) = some .documentStart)
  advance

def document (depth : Nat) : Reading Value := do
  match ← peek with
  | none => return .empty
  | some t =>
    let root ←
      if t.isDirective || t = .documentStart then
        directives
        orEmpty [.documentEnd] (node depth true false)
      else node depth true false
    require ((← get).tokens.all (· = .documentEnd))
    return root

def ofText? (text : List Char) : Option Document := do
  let tokens ← tokens? text
  let (root, s) ← (document (2 * tokens.length + 2)).run { tokens }
  return { root, numbered := s.numbered }

end PacketWatch.Yaml
