import PacketWatch.Proofs.Yaml.Lexer
import PacketWatch.Yaml.Document

namespace PacketWatch.Yaml

def plainScalar (text : String) : Value := .scalar { style := .plain, tag := none, text }

def entryValues (e : String × String) : Value × Value := (plainScalar e.1, plainScalar e.2)

variable {entries : List (String × String)}

theorem run_blockEntries_cons (depth : Nat) (e : String × String) (rest : List Token) (s : Source) :
    (blockEntries (depth + 2)).run { s with tokens := entryTokens e ++ rest } = do
      let (entries, s') ← (blockEntries (depth + 1)).run { s with tokens := rest }
      return (entryValues e :: entries, s') := rfl

theorem run_blockEntries (entries : List (String × String)) (depth : Nat) (rest : List Token) (s : Source) :
    (blockEntries (entries.length + depth + 1)).run
      { s with tokens := entries.flatMap entryTokens ++ .endBlock :: rest } =
      some (entries.map entryValues, { s with tokens := rest }) := by
  induction entries with
  | nil => rfl
  | cons e entries ih =>
      have hdepth : (e :: entries).length + depth + 1 = entries.length + depth + 2 := by
        rw [List.length_cons]
        omega
      rw [List.flatMap_cons, List.append_assoc, hdepth, run_blockEntries_cons, ih]
      rfl

theorem run_node_mapping (entries : List (String × String)) (depth : Nat) (s : Source) :
    (node (entries.length + depth + 2) true false).run
      { s with tokens := .beginMapping :: (entries.flatMap entryTokens ++ [.endBlock]) } =
      some (.mapping (entries.map entryValues), { s with tokens := [] }) := by
  have hnode : (node (entries.length + depth + 2) true false).run
      { s with tokens := .beginMapping :: (entries.flatMap entryTokens ++ [.endBlock]) } = do
        let (values, s') ← (blockEntries (entries.length + depth + 1)).run
          { s with tokens := entries.flatMap entryTokens ++ [.endBlock] }
        return (.mapping values, s') := rfl
  rw [hnode, run_blockEntries]
  rfl

theorem run_document (depth : Nat) (tokens : List Token) (s : Source) :
    (document depth).run { s with tokens := .beginMapping :: tokens } = do
      let (root, s') ← (node depth true false).run { s with tokens := .beginMapping :: tokens }
      let (_, s') ← (require (s'.tokens.all (· = .documentEnd))).run s'
      return (root, s') := rfl

theorem length_flatMap_entryTokens (entries : List (String × String)) :
    (entries.flatMap entryTokens).length = 4 * entries.length := by
  induction entries with
  | nil => rfl
  | cons e entries ih =>
      rw [List.flatMap_cons, List.length_append, ih, List.length_cons]
      exact Nat.add_comm 4 _

/-- A text of lines is read as the mapping that is written there. -/
theorem ofText?_lines (hne : entries ≠ []) (h : ∀ e ∈ entries, IsEntry e) :
    ofText? (lines entries) = some { root := .mapping (entries.map entryValues) } := by
  -- the depth that the number of tokens allows, in the form that the reader of a mapping takes it
  have hdepth : 2 * (Token.beginMapping :: (entries.flatMap entryTokens ++ [.endBlock])).length + 2 =
      entries.length + (7 * entries.length + 4) + 2 := by
    rw [List.length_cons, List.length_append, length_flatMap_entryTokens, List.length_singleton]
    omega
  have hdocument := run_document (entries.length + (7 * entries.length + 4) + 2)
    (entries.flatMap entryTokens ++ [.endBlock]) { tokens := [] }
  rw [run_node_mapping, ← hdepth] at hdocument
  rw [ofText?, tokens?_lines hne h, Option.bind_eq_bind, Option.bind_some, hdocument]
  rfl

end PacketWatch.Yaml
