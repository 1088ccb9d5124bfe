import PacketWatch.Proofs.Settings.Change
import PacketWatch.Settings.Load

namespace PacketWatch

variable {format : FileFormat} {env : Environment} {files : Files} {path text reason : String}
  {fault : FileFault} {file : List (Setting × Nat)} {s t : Settings}

theorem Files.text_of_toUTF8 (h : files path = .ok text.toUTF8) : files.text path = .ok text := by
  have hread : String.fromUTF8? text.toUTF8 = some text := by
    rw [String.toUTF8_eq_toByteArray, String.fromUTF8?, dif_pos text.isValidUTF8]
    rfl
  rw [Files.text, h]
  simp only [bind, Except.bind, hread]
  rfl

theorem Files.text_put (files : Files) (path text : String) :
    (files.put path text.toUTF8).text path = .ok text :=
  text_of_toUTF8 (if_pos rfl)

namespace FileFormat

def lines (file : List (Setting × Nat)) : String := .join (file.map fun c => s!"{c.1.key}: {c.2}\n")

def SetsOnce (format : FileFormat) : Prop :=
  ∀ text file, format.read text = .ok file → (file.map Prod.fst).Nodup

/-- Settings are printed line by line, and lines are read as they stand, with sizes up to the largest. -/
structure KeepsLines (format : FileFormat) : Prop where
  print : ∀ s : Settings, (∀ k, s.get k ≤ Text.maxSize) →
    format.print s = .ok (lines (Setting.all.map fun k => (k, s.get k)))
  read : ∀ file, (file.map Prod.fst).Nodup → (∀ c ∈ file, c.2 ≤ Text.maxSize) →
    format.read (lines file) = .ok file

theorem ofFile_eq_ok (htext : files.text path = .ok text) (hread : format.read text = .ok file) :
    format.ofFile files path = .ok (({} : Settings).change file) := by
  rw [ofFile, htext]
  simp only [Except.mapError, bind, Except.bind, hread]
  rfl

theorem ofFile_unreadable (htext : files.text path = .error fault) :
    format.ofFile files path = .error (.unreadable path fault) := by
  rw [ofFile, htext]
  rfl

theorem ofFile_malformed (htext : files.text path = .ok text) (hread : format.read text = .error reason) :
    format.ofFile files path = .error (.malformed path reason) := by
  rw [ofFile, htext]
  simp only [Except.mapError, bind, Except.bind, hread]

/-- Whatever a file holds, settings that are loaded of it are the default ones with some changes. -/
theorem exists_change_of_ofFile (h : format.ofFile files path = .ok s) :
    ∃ file, s = ({} : Settings).change file := by
  cases htext : files.text path with
  | error fault =>
      rw [ofFile_unreadable htext] at h
      cases h
  | ok text =>
      cases hread : format.read text with
      | error reason =>
          rw [ofFile_malformed htext hread] at h
          cases h
      | ok file =>
          rw [ofFile_eq_ok htext hread] at h
          cases h
          exact ⟨file, rfl⟩

theorem load_of_none (h : env Settings.fileVariable = none) :
    format.load env files = .ok (({} : Settings).change env.settings) := by
  rw [load, h]
  rfl

theorem load_of_some (h : env Settings.fileVariable = some path) :
    format.load env files = do return (← format.ofFile files path).change env.settings := by
  rw [load, h]

/-- In whatever way settings were loaded, the environment's came last. -/
theorem exists_change_of_load (h : format.load env files = .ok t) :
    ∃ s : Settings, t = s.change env.settings := by
  cases hpath : env Settings.fileVariable with
  | none =>
      rw [load_of_none hpath] at h
      cases h
      exact ⟨_, rfl⟩
  | some path =>
      rw [load_of_some hpath] at h
      cases hfile : format.ofFile files path with
      | error e =>
          rw [hfile] at h
          cases h
      | ok s =>
          rw [hfile] at h
          cases h
          exact ⟨s, rfl⟩

/-- What was saved is there to be loaded. -/
theorem ofFile_of_save (hprint : format.print s = .ok text) (hread : format.read text = .ok file)
    (path : String) (files : Files) :
    ∃ files', format.save s path none files = .ok files' ∧
      format.ofFile files' path = .ok (({} : Settings).change file) := by
  refine ⟨files.put path text.toUTF8, ?_, ofFile_eq_ok (Files.text_put files path text) hread⟩
  rw [save, hprint]
  rfl

end FileFormat

end PacketWatch
