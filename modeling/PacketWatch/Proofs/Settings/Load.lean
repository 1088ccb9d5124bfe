import Mathlib.Data.List.Nodup
import Mathlib.Logic.Relation
import PacketWatch.Program
import PacketWatch.Proofs.Settings.Yaml

namespace PacketWatch

variable {env : Environment} {files : Files} {path : String} {s t : Settings}

namespace Environment

def value? (env : Environment) (k : Setting) : Option Nat :=
  (env k.envName).bind fun text => Text.size? (Text.trim text.toList)

theorem settings_eq (env : Environment) :
    env.settings = Setting.all.filterMap fun k => (env.value? k).map (k, ·) := by
  refine List.filterMap_congr fun k _ => ?_
  rw [value?, Option.map_bind]
  refine congrArg _ (funext fun text => ?_)
  rw [Function.comp_apply, Option.map_eq_bind]
  rfl

theorem nodup_settings (env : Environment) : (env.settings.map Prod.fst).Nodup := by
  have hkeys : env.settings.map Prod.fst = Setting.all.filter fun k => (env.value? k).isSome := by
    rw [settings_eq, List.map_filterMap, ← List.filterMap_eq_filter]
    refine List.filterMap_congr fun k _ => ?_
    cases hvalue : env.value? k <;> simp [Option.guard, hvalue]
  rw [hkeys]
  exact Setting.nodup_all.filter _

theorem lookup_settings (env : Environment) (k : Setting) : env.settings.lookup k = env.value? k := by
  have hlookup (l : List Setting) : (l.filterMap fun j => (env.value? j).map (j, ·)).lookup k =
      if k ∈ l then env.value? k else none := by
    induction l with
    | nil => rfl
    | cons j l ih =>
        by_cases hj : k = j
        · subst hj
          cases hvalue : env.value? k <;> simp [hvalue, ih]
        · have hkey : (k == j) = false := beq_false_of_ne hj
          cases hvalue : env.value? j <;> simp [hvalue, ih, hj, hkey, List.lookup_cons]
  rw [settings_eq, hlookup, if_pos k.mem_all]

/-- The file that a program is told to read does not bear on the other variables. -/
theorem settings_update (env : Environment) (path : Option String) :
    settings (Function.update env Settings.fileVariable path) = env.settings := by
  have hvalue (k : Setting) : value? (Function.update env Settings.fileVariable path) k = env.value? k := by
    have hname : k.envName ≠ Settings.fileVariable := by cases k <;> decide
    rw [value?, Function.update_of_ne hname, value?]
  rw [settings_eq, settings_eq]
  simp only [hvalue]

end Environment

namespace Settings

variable {file : List (Setting × Nat)}

/-- Each setting on its own: what the environment says goes before what the file says, and this before the
default. -/
def Layered (env : Environment) (file : List (Setting × Nat)) (s : Settings) : Prop :=
  ∀ k, s.get k = k.clamp ((env.value? k).getD ((file.lookup k).getD (({} : Settings).get k)))

theorem get_override (s : Settings) (env : Environment) (k : Setting) :
    (s.change env.settings).get k = k.clamp ((env.value? k).getD (s.get k)) := by
  rw [get_change env.nodup_settings, env.lookup_settings]

theorem layered_nil (env : Environment) : Layered env [] (({} : Settings).change env.settings) :=
  get_override {} env

/-- That the file's settings are in range before the environment's come makes no difference. -/
theorem layered_override (env : Environment) (hfile : (file.map Prod.fst).Nodup) :
    Layered env file ((({} : Settings).change file).change env.settings) := by
  intro k
  rw [get_override, get_change hfile]
  cases env.value? k with
  | none => exact k.clamp_clamp _
  | some n => rfl

theorem override_override (s : Settings) (env : Environment) :
    (s.change env.settings).change env.settings = s.change env.settings := by
  refine ext_get fun k => ?_
  rw [get_override, get_override]
  cases env.value? k with
  | none => exact k.clamp_clamp _
  | some n => rfl

end Settings

namespace FileFormat

open Settings

variable {format : FileFormat} {parse : ArgumentParser}

/-- A file that is named to the program is loaded as if its name stood in the environment. -/
theorem map_fst_settings (env : Environment) (files : Files) (path : String) :
    (Start.settings format env files (some path)).map Prod.fst =
      format.load (Function.update env fileVariable (some path)) files := by
  rw [load_of_some (Function.update_self ..), Environment.settings_update, Start.settings]
  cases format.ofFile files path <;> rfl

theorem work_of_parse {args : List String} {request : Request}
    (hparse : parse args (env fileVariable) = .ok request) (hconfig : request.config = some path) :
    (Start.of format env files parse args).work =
      match format.load (Function.update env fileVariable (some path)) files with
      | .ok s => .ok (s, request)
      | .error _ => .error 1 := by
  rw [← map_fst_settings, ← hconfig]
  simp only [Start.of, hparse]
  cases Start.settings format env files request.config <;> rfl

inductive Step (format : FileFormat) : Settings → Settings → Prop
  | new {s : Settings} : Step format s {}
  | withReadBufferSize {s : Settings} (n : Nat) : Step format s (s.withReadBufferSize n)
  | withInboundCapacity {s : Settings} (n : Nat) : Step format s (s.withInboundCapacity n)
  | withOutboundCapacity {s : Settings} (n : Nat) : Step format s (s.withOutboundCapacity n)
  | withMaxMessageSize {s : Settings} (n : Nat) : Step format s (s.withMaxMessageSize n)
  | ofFile {s t : Settings} {files : Files} {path : String} : format.ofFile files path = .ok t → Step format s t
  | ofEnvironment {s : Settings} (env : Environment) : Step format s (({} : Settings).change env.settings)
  | override {s : Settings} (env : Environment) : Step format s (s.change env.settings)
  | load {s t : Settings} {env : Environment} {files : Files} : format.load env files = .ok t → Step format s t

/-- A step leads into all ranges from wherever it starts, or sets one setting to a number in its range. -/
theorem Step.inRange_or_set (h : Step format s t) : t.InRange ∨ ∃ k n, t = s.set k (Setting.clamp k n) := by
  cases h with
  | new => exact .inl inRange_default
  | withReadBufferSize n => exact .inr ⟨.readBufferSize, n, rfl⟩
  | withInboundCapacity n => exact .inr ⟨.inboundCapacity, n, rfl⟩
  | withOutboundCapacity n => exact .inr ⟨.outboundCapacity, n, rfl⟩
  | withMaxMessageSize n => exact .inr ⟨.maxMessageSize, n, rfl⟩
  | ofFile h =>
      obtain ⟨file, rfl⟩ := exists_change_of_ofFile h
      exact .inl (inRange_change _ file)
  | ofEnvironment env | override env => exact .inl (inRange_change _ _)
  | load h =>
      obtain ⟨s, rfl⟩ := exists_change_of_load h
      exact .inl (inRange_change s _)

theorem Step.inRange (hs : s.InRange) (h : Step format s t) : t.InRange := by
  obtain ht | ⟨k, n, rfl⟩ := h.inRange_or_set
  · exact ht
  · exact inRange_set hs k n

theorem inRange_of_steps (h : Relation.ReflTransGen (Step format) {} s) : s.InRange := by
  induction h with
  | refl => exact inRange_default
  | tail _ hstep ih => exact hstep.inRange ih

/-- Settings are loaded in layers, each setting on its own, and loading fails only for the file. The program does
the same with a file that is named to it. No sequence of functions leads out of the ranges, and after changes by
hand the environment brings the settings back into them, even if nothing is set there. -/
theorem load_in_layers (format : FileFormat) (honce : format.SetsOnce) (parse : ArgumentParser) :
    (∀ env files, env fileVariable = none → ∃ s, format.load env files = .ok s ∧ Layered env [] s) ∧
    (∀ env files path text file, env fileVariable = some path → files.text path = .ok text →
      format.read text = .ok file → ∃ s, format.load env files = .ok s ∧ Layered env file s) ∧
    (∀ env files path fault, env fileVariable = some path → files.text path = .error fault →
      format.load env files = .error (.unreadable path fault)) ∧
    (∀ env files path text reason, env fileVariable = some path → files.text path = .ok text →
      format.read text = .error reason → format.load env files = .error (.malformed path reason)) ∧
    (∀ env files path, (Start.settings format env files (some path)).map Prod.fst =
      format.load (Function.update env fileVariable (some path)) files) ∧
    (∀ env files args request path, parse args (env fileVariable) = .ok request →
      request.config = some path → (Start.of format env files parse args).work =
        match format.load (Function.update env fileVariable (some path)) files with
        | .ok s => .ok (s, request)
        | .error _ => .error 1) ∧
    (∀ (s : Settings) (env : Environment),
      (s.change env.settings).change env.settings = s.change env.settings) ∧
    (∀ s, Relation.ReflTransGen (Step format) {} s → s.InRange) ∧
    (∀ s t, Step format s t → t.InRange ∨ ∃ k n, t = s.set k (Setting.clamp k n)) ∧
    ∀ (s : Settings) (env : Environment), (s.change env.settings).InRange := by
  refine ⟨fun env files hpath => ?_, fun env files path text file hpath htext hread => ?_,
    fun env files path fault hpath htext => ?_, fun env files path text reason hpath htext hread => ?_,
    map_fst_settings, fun env files args request path => work_of_parse, override_override,
    fun s => inRange_of_steps, fun s t => Step.inRange_or_set, fun s env => inRange_change s _⟩
  · exact ⟨_, load_of_none hpath, layered_nil env⟩
  · refine ⟨_, ?_, layered_override env (honce text file hread)⟩
    rw [load_of_some hpath, ofFile_eq_ok htext hread]
    rfl
  · rw [load_of_some hpath, ofFile_unreadable htext]
    rfl
  · rw [load_of_some hpath, ofFile_malformed htext hread]
    rfl

theorem load_in_layers_small_sizes :
    yaml.SetsOnce ∧
    yaml.load (List.lookup · [("OFWIRE_CONFIG", "a"), ("OFWIRE_INBOUND_CAPACITY", " +0 "),
      ("OFWIRE_OUTBOUND_CAPACITY", "many")])
      (fun _ => .ok "read_buffer_size: 16\ninbound_capacity: 4\n".toUTF8) =
      .ok { readBufferSize := 1024, inboundCapacity := 1 } ∧
    yaml.load (fun _ => none) (fun _ => .error .missing) = .ok {} ∧
    yaml.load (fun _ => some "a") (fun _ => .error .missing) = .error (.unreadable "a" .missing) ∧
    (∃ reason, yaml.load (fun _ => some "a") (fun _ => .ok "inbound_capacity: [1, 2]\n".toUTF8) =
      .error (.malformed "a" reason)) ∧
    (Start.of yaml (fun _ => none) (fun _ => .error .missing) CommandLine.parse
      ["--config", "a", "listen"]).work = .error 1 ∧
    (({} : Settings).withReadBufferSize 0).InRange := by
  obtain ⟨hnone, hsome, hunreadable, hmalformed, -, hwork, -, hreachable, -⟩ :=
    load_in_layers yaml setsOnce_yaml CommandLine.parse
  refine ⟨setsOnce_yaml, ?_, ?_, ?_, ?_, ?_, ?_⟩
  · have hread : yaml.read "read_buffer_size: 16\ninbound_capacity: 4\n" =
        .ok [(.readBufferSize, 16), (.inboundCapacity, 4)] := read_yaml_eq_ok.2 (by decide +kernel)
    obtain ⟨s, hs, hlayered⟩ := hsome (List.lookup · [("OFWIRE_CONFIG", "a"), ("OFWIRE_INBOUND_CAPACITY", " +0 "),
      ("OFWIRE_OUTBOUND_CAPACITY", "many")]) (fun _ => .ok "read_buffer_size: 16\ninbound_capacity: 4\n".toUTF8)
      "a" _ _ rfl (Files.text_of_toUTF8 rfl) hread
    refine hs.trans (congrArg _ (ext_get fun k => ?_))
    rw [hlayered]
    cases k <;> decide +kernel
  · obtain ⟨s, hs, hlayered⟩ := hnone (fun _ => none) (fun _ => .error .missing) rfl
    refine hs.trans (congrArg _ (ext_get fun k => ?_))
    rw [hlayered]
    cases k <;> decide +kernel
  · exact hunreadable _ _ _ _ rfl rfl
  · have hread : yaml.read "inbound_capacity: [1, 2]\n" = .error "no mapping of keys to sizes" :=
      read_yaml_eq_error (by decide +kernel)
    exact ⟨_, hmalformed _ _ _ _ _ rfl (Files.text_of_toUTF8 rfl) hread⟩
  · have hparse : CommandLine.parse ["--config", "a", "listen"] none =
        .ok { config := some "a", command := .listen (.v4 ⟨#[127, 0, 0, 1], rfl⟩ 7600) } := rfl
    rw [hwork _ _ _ _ "a" hparse rfl, hunreadable _ _ "a" .missing (Function.update_self ..) rfl]
  · exact hreachable _ (.single (.withReadBufferSize 0))

end FileFormat

end PacketWatch
