import PacketWatch.Settings.Load
import PacketWatch.Yaml.Document

namespace PacketWatch.FileFormat

/-! Settings are kept in a file as a mapping of their keys to their sizes. -/

/-- A size in a file. A zero in front of it tells that it is in another radix. -/
def size? (cs : List Char) : Option Nat :=
  match if cs.head? = some '+' then cs.drop 1 else cs with
  | '0' :: 'x' :: digits => Text.sizeIn? 16 digits
  | '0' :: 'o' :: digits => Text.sizeIn? 8 digits
  | '0' :: 'b' :: digits => Text.sizeIn? 2 digits
  | '0' :: _ :: _ => none
  | digits => Text.sizeIn? 10 digits

/-- A size is a plain scalar, or a literal block with the tag of integers. -/
def scalarSize? (s : Yaml.Scalar) : Option Nat :=
  if s.style = .plain || s.style = .literal && s.tag = some "tag:yaml.org,2002:int" then
    size? s.text.toList
  else none

/-- Each key of a setting may stand once; other keys are passed over. -/
def changes? (d : Yaml.Document) : Option (List (Setting × Nat)) :=
  match d.root with
  | .scalar s => if s.style = .plain && s.text = "" then some [] else none
  | .mapping entries => do
    let entries ← entries.mapM fun (key, value) => return ((← d.scalar? key).text, value)
    let known := entries.filterMap fun (key, value) => (Setting.ofKey? key).map (·, value)
    guard (known.map Prod.fst).Nodup
    known.mapM fun (k, value) => return (k, ← scalarSize? (← d.scalar? value))
  | _ => none

def yaml : FileFormat where
  read text :=
    match (Yaml.ofText? text.toList).bind changes? with
    | some changes => .ok changes
    | none => .error "no mapping of keys to sizes"
  print s := .ok (.join (Setting.all.map fun k => s!"{k.key}: {s.get k}\n"))

end PacketWatch.FileFormat
