import PacketWatch.Text.Numeral
import PacketWatch.Yaml.Place

namespace PacketWatch.Yaml

/-- What blanks and line breaks between two words stand for. Both are given and taken in reverse. -/
def fold (gap : List Char) : List Char :=
  match gap.filter (· = '\n') with
  | [] => gap
  | [_] => [' ']
  | _ :: breaks => breaks

def isFlowMark (c : Char) : Bool := c ∈ [',', '[', ']', '{', '}']

def isIndicator (c : Char) : Bool :=
  isFlowMark c || c ∈ ['#', '&', '*', '!', '|', '>', '\'', '"', '%', '@', '\x60']

def startsPlain (flow : Bool) : List Place → Bool
  | [] => false
  | p :: rest =>
    if p.char = '-' then !endsWord rest
    else if p.char = '?' || p.char = ':' then !flow && !endsWord rest
    else !(isBlank p.char || p.char = '\n' || isIndicator p.char)

/-- Reads a plain scalar, whose lines but the first have an indentation of at least `floor`
outside flow style. Tells also whether a line break ends it. -/
def plain (flow : Bool) (floor : Nat) (text gap : List Char) :
    List Place → Option (List Char × List Place × Bool)
  | [] => some (text.reverse, [], false)
  | p :: rest =>
    let c := p.char
    let broken := '\n' ∈ gap
    if c = '\n' then plain flow floor text ('\n' :: gap) rest
    else if isBlank c then
      if c = '\t' && broken && p.column < floor then none
      else plain flow floor text (c :: gap) rest
    else if c = '#' && !gap.isEmpty || broken && !flow && p.column < floor
        || isMarker (p :: rest) || c = ':' && endsWord rest || flow && isFlowMark c then
      some (text.reverse, p :: rest, broken)
    else if flow && c = ':' && rest.head?.any (fun q => isFlowMark q.char || q.char = '?') then none
    else plain flow floor (c :: (fold gap ++ text)) [] rest

def coded (digits : Nat) (s : List Place) : Option (List Char × Nat) := do
  guard (digits ≤ s.length)
  let code ← Text.numeral? 16 (chars (s.take digits))
  guard code.isValidChar
  return ([Char.ofNat code], digits)

def escape? : List Place → Option (List Char × Nat)
  | [] => none
  | p :: rest =>
    let one (c : Char) : Option (List Char × Nat) := some ([c], 1)
    let code (digits : Nat) := (coded digits rest).map fun (text, n) => (text, n + 1)
    match p.char with
    | '0' => one '\x00'
    | 'a' => one '\x07'
    | 'b' => one '\x08'
    | 't' | '\t' => one '\t'
    | 'n' => one '\n'
    | 'v' => one '\x0b'
    | 'f' => one '\x0c'
    | 'r' => one '\r'
    | 'e' => one '\x1b'
    | ' ' | '"' | '/' | '\\' => one p.char
    | 'N' => one '\u0085'
    | '_' => one '\u00a0'
    | 'L' => one '\u2028'
    | 'P' => one '\u2029'
    | 'x' => code 2
    | 'u' => code 4
    | 'U' => code 8
    | '\n' =>
      let gap := chars (rest.takeWhile fun q => isBlank q.char || q.char = '\n')
      some (gap.filter (· = '\n'), gap.length + 1)
    | _ => none

def quoted (quote : Char) (text gap : List Char) (s : List Place) :
    Option (List Char × List Place) :=
  match s with
  | [] => none
  | p :: rest =>
    let c := p.char
    let text' := fold gap ++ text
    if c = '\n' || isBlank c then quoted quote text (c :: gap) rest
    else if isMarker s then none
    else if c = quote then
      if quote = '\'' && rest.head?.any (·.char = quote) then
        quoted quote (quote :: text') [] (rest.drop 1)
      else some (text'.reverse, rest)
    else if c = '\\' && quote = '"' then
      match escape? rest with
      | none => none
      | some (e, n) => quoted quote (e ++ text') [] (rest.drop n)
    else quoted quote (c :: text') [] rest
termination_by s.length
decreasing_by all_goals simp only [List.length_cons, List.length_drop]; omega

/-! Scalars that are written as a block of lines. -/

def blockMarks (sign : Option Char) (width : Option Nat) :
    List Place → Option (Option Char × Option Nat × List Place)
  | [] => some (sign, width, [])
  | p :: rest =>
    if sign.isNone && (p.char = '+' || p.char = '-') then blockMarks (some p.char) width rest
    else if width.isNone && p.char.isDigit then
      if p.char = '0' then none else blockMarks sign (Text.digit? 10 p.char) rest
    else (nextLine? (p :: rest)).map (sign, width, ·)

def margin (most : Nat) : List Place → Option Nat
  | [] => some most
  | p :: rest =>
    if p.char = ' ' || p.char = '\n' then margin (max most p.column) rest
    else if p.char = '\t' then none
    else some (max most p.column)

/-- Reads the lines of a block: its text, the line breaks behind it and what follows. Between two
lines that do not begin with a blank, line breaks may fold. -/
def blockLines (folds : Bool) (indent : Nat) (text gap : List Char) (inside blank : Bool) :
    List Place → Option (List Char × List Char × List Place)
  | [] => some (text, gap, [])
  | p :: rest =>
    let c := p.char
    if c = '\n' then blockLines folds indent text ('\n' :: gap) false blank rest
    else if inside then blockLines folds indent (c :: text) gap true blank rest
    else if p.column < indent then
      if c = ' ' then blockLines folds indent text gap false blank rest
      else if c = '\t' then none
      else some (text, gap, p :: rest)
    else
      let gap := if folds && !text.isEmpty && !blank && !isBlank c then fold gap else gap
      blockLines folds indent (c :: (gap ++ text)) [] true (isBlank c) rest

/-- Reads a block from behind its mark. All line breaks at its end are kept behind a plus sign,
none behind a minus sign, and else one. -/
def block (folds : Bool) (floor : Nat) (s : List Place) : Option (List Char × List Place) := do
  let (sign, width, s) ← blockMarks none none s
  let indent ← match width with
    | some width => pure (floor - 1 + width)
    | none => (margin 0 s).map (max (max floor 1))
  let (text, gap, s) ← blockLines folds indent [] [] false false s
  let gap := match sign with
    | some '+' => gap
    | some _ => []
    | none => if text.isEmpty then [] else gap.take 1
  return ((gap ++ text).reverse, s)

end PacketWatch.Yaml
