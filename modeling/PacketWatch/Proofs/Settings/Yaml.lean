import PacketWatch.Proofs.Settings.Format
import PacketWatch.Proofs.Text.Numeral
import PacketWatch.Proofs.Yaml.Document
import PacketWatch.Settings.Yaml

namespace PacketWatch

open Yaml

variable {n : Nat} {file : List (Setting × Nat)}

namespace Setting

theorem ofKey?_key (k : Setting) : ofKey? k.key = some k := by
  cases k <;> decide

theorem isName_key (k : Setting) : IsName k.key.toList := by
  cases k <;> decide

end Setting

theorem isName_toDigits (n : Nat) : IsName (Nat.toDigits 10 n) := by
  refine ⟨Nat.toDigits_ne_nil, fun c hc => ?_⟩
  have hdigit := Text.isDigit_of_mem_toDigits hc
  simp [isName, Char.isAlphanum, hdigit]

namespace FileFormat

/-- A decimal numeral without a zero in front is a size. -/
theorem size?_toDigits (h : n ≤ Text.maxSize) : size? (Nat.toDigits 10 n) = some n := by
  obtain ⟨c, cs, hcs, hzero⟩ := Text.exists_toDigits_eq n
  have hc : c.isDigit = true := Text.isDigit_of_mem_toDigits (n := n) (hcs ▸ List.mem_cons_self)
  have hplus : c ≠ '+' := by
    rintro rfl
    cases hc
  have hdecimal := Text.sizeIn?_toDigits h
  rw [hcs] at hdecimal ⊢
  rw [size?, List.head?_cons, if_neg (by simpa using hplus)]
  split <;> simp_all

theorem map_fst_of_mapM {α β γ : Type} {f : α × β → Option (α × γ)} {l : List (α × β)} {m : List (α × γ)}
    (hf : ∀ a c, f a = some c → c.1 = a.1) (h : l.mapM f = some m) : m.map Prod.fst = l.map Prod.fst := by
  induction l generalizing m with
  | nil =>
      cases h
      rfl
  | cons a l ih =>
      rw [List.mapM_cons] at h
      obtain ⟨c, hc, h⟩ := Option.bind_eq_some_iff.1 h
      obtain ⟨m, hm, h⟩ := Option.bind_eq_some_iff.1 h
      cases h
      rw [List.map_cons, List.map_cons, hf a c hc, ih hm]

theorem nodup_of_changes? {d : Document} (h : changes? d = some file) : (file.map Prod.fst).Nodup := by
  cases hroot : d.root with
  | scalar s =>
      have hempty : (if s.style = .plain && s.text = "" then some [] else none) = some file := by
        rwa [changes?, hroot] at h
      obtain ⟨-, hfile⟩ := Option.ite_none_right_eq_some.1 hempty
      cases hfile
      exact List.nodup_nil
  | mapping values =>
      rw [changes?, hroot] at h
      obtain ⟨keyed, -, h⟩ := Option.bind_eq_some_iff.1 h
      obtain ⟨_, hguard, h⟩ := Option.bind_eq_some_iff.1 h
      obtain ⟨hnodup, -⟩ := Option.ite_none_right_eq_some.1 hguard
      rwa [map_fst_of_mapM ?_ h]
      rintro ⟨k, value⟩ c hc
      obtain ⟨s, -, hc⟩ := Option.bind_eq_some_iff.1 hc
      obtain ⟨n, -, hc⟩ := Option.bind_eq_some_iff.1 hc
      cases hc
      rfl
  | sequence | reference =>
      rw [changes?, hroot] at h
      cases h

theorem read_yaml_eq_ok {text : String} :
    yaml.read text = .ok file ↔ (Yaml.ofText? text.toList).bind changes? = some file := by
  simp only [yaml]
  split
  · next hread => rw [hread, Except.ok.injEq, Option.some.injEq]
  · next hread => simp [hread]

theorem read_yaml_eq_error {text : String} (h : (Yaml.ofText? text.toList).bind changes? = none) :
    yaml.read text = .error "no mapping of keys to sizes" := by
  rw [yaml]
  simp only [h]

theorem setsOnce_yaml : yaml.SetsOnce := by
  intro text file h
  obtain ⟨d, -, hd⟩ := Option.bind_eq_some_iff.1 (read_yaml_eq_ok.1 h)
  exact nodup_of_changes? hd

def entries (file : List (Setting × Nat)) : List (String × String) := file.map fun c => (c.1.key, toString c.2)

theorem toList_lines (file : List (Setting × Nat)) : (lines file).toList = Yaml.lines (entries file) := by
  have hline (c : Setting × Nat) : (s!"{c.1.key}: {c.2}\n").toList =
      c.1.key.toList ++ ':' :: ' ' :: ((toString c.2).toList ++ ['\n']) := by
    change (c.1.key ++ ": " ++ toString c.2 ++ "\n").toList = _
    simp [String.toList_append]
  rw [lines, String.toList_join, Yaml.lines, entries, List.flatMap_map, List.flatMap_map]
  exact List.flatMap_congr fun c _ => hline c

theorem isEntry_of_mem {e : String × String} (h : e ∈ entries file) : IsEntry e := by
  obtain ⟨⟨k, n⟩, -, rfl⟩ := List.mem_map.1 h
  have hreach : k.key.toList.length ≤ 1024 := by
    cases k <;> decide
  refine ⟨k.isName_key, ?_, hreach⟩
  simpa using isName_toDigits n

theorem mapM_map_eq_some {α β γ : Type} {f : β → Option γ} {h : α → β} {g : α → γ} {l : List α}
    (hf : ∀ a ∈ l, f (h a) = some (g a)) : (l.map h).mapM f = some (l.map g) := by
  induction l with
  | nil => rfl
  | cons a l ih =>
      rw [List.forall_mem_cons] at hf
      rw [List.map_cons, List.mapM_cons, hf.1, ih hf.2]
      rfl

theorem scalarSize?_toString (h : n ≤ Text.maxSize) :
    scalarSize? { style := .plain, tag := none, text := toString n } = some n := by
  simpa [scalarSize?] using size?_toDigits h

/-- How a mapping is read: its keys first, then the settings among them, and last the sizes of these. -/
theorem changes?_mapping {d : Document} {values : List (Value × Value)} (keyed : List (String × Value))
    (known : List (Setting × Value)) (hroot : d.root = .mapping values)
    (hkeyed : values.mapM (fun e => return ((← d.scalar? e.1).text, e.2)) = some keyed)
    (hknown : keyed.filterMap (fun e => (Setting.ofKey? e.1).map (·, e.2)) = known)
    (hnodup : (known.map Prod.fst).Nodup)
    (hfile : known.mapM (fun e => return (e.1, ← scalarSize? (← d.scalar? e.2))) = some file) :
    changes? d = some file := by
  subst hknown
  rw [changes?, hroot]
  exact Option.bind_eq_some_iff.2 ⟨keyed, hkeyed, Option.bind_eq_some_iff.2 ⟨(), if_pos hnodup, hfile⟩⟩

theorem changes?_entries (hnodup : (file.map Prod.fst).Nodup) (hsize : ∀ c ∈ file, c.2 ≤ Text.maxSize) :
    changes? { root := .mapping ((entries file).map entryValues) } = some file := by
  refine changes?_mapping (file.map fun c => (c.1.key, plainScalar (toString c.2)))
    (file.map fun c => (c.1, plainScalar (toString c.2))) rfl ?_ ?_ ?_ ?_
  · rw [entries, List.map_map]
    exact mapM_map_eq_some fun _ _ => rfl
  · rw [List.filterMap_map, ← List.filterMap_eq_map]
    refine List.filterMap_congr fun c _ => ?_
    simp [Setting.ofKey?_key]
  · rwa [List.map_map]
  · refine (mapM_map_eq_some fun c hc => ?_).trans (congrArg some file.map_id)
    have hscalar := scalarSize?_toString (hsize c hc)
    simp only [plainScalar, Document.scalar?, Option.bind_eq_bind, Option.bind_some, hscalar]
    rfl

theorem keepsLines_yaml : yaml.KeepsLines where
  print s _ := by
    rw [yaml, lines, List.map_map]
    rfl
  read file hnodup hsize := by
    rw [read_yaml_eq_ok, toList_lines]
    by_cases hne : file = []
    · subst hne
      rfl
    · rw [Yaml.ofText?_lines (by simpa [entries] using hne) fun e => isEntry_of_mem, Option.bind_some]
      exact changes?_entries hnodup hsize

end FileFormat

end PacketWatch
