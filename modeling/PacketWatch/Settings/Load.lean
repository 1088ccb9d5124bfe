import PacketWatch.Settings.Basic

namespace PacketWatch

inductive FileFault where
  | missing
  | notText
  | other (reason : String)
deriving DecidableEq, Repr

def FileFault.message : FileFault → String
  | missing => "No such file or directory (os error 2)"
  | notText => "stream did not contain valid UTF-8"
  | other reason => reason

abbrev Files := String → Except FileFault ByteArray

namespace Files

def text (files : Files) (path : String) : Except FileFault String := do
  match String.fromUTF8? (← files path) with
  | some text => return text
  | none => throw .notText

def put (files : Files) (path : String) (content : ByteArray) : Files := fun other =>
  if other = path then .ok content else files other

end Files

inductive SettingsError where
  | unreadable (path : String) (fault : FileFault)
  | malformed (path : String) (reason : String)
deriving DecidableEq, Repr

def SettingsError.message : SettingsError → String
  | unreadable path fault => s!"failed to read config file '{path}': {fault.message}"
  | malformed path reason => s!"failed to parse config file '{path}': {reason}"

/-- The notation in which settings are kept in files. A text may leave settings out. -/
structure FileFormat where
  read : String → Except String (List (Setting × Nat))
  print : Settings → Except String String

def Settings.fileVariable : String := "OFWIRE_CONFIG"

namespace FileFormat

variable (format : FileFormat)

def ofFile (files : Files) (path : String) : Except SettingsError Settings := do
  let text ← (files.text path).mapError (.unreadable path)
  let changes ← (format.read text).mapError (.malformed path)
  return ({} : Settings).change changes

/-- What the environment says goes before what the file says. -/
def load (env : Environment) (files : Files) : Except SettingsError Settings := do
  let s ← match env Settings.fileVariable with
    | some path => format.ofFile files path
    | none => .ok {}
  return s.change env.settings

def save (s : Settings) (path : String) (refusal : Option FileFault) (files : Files) :
    Except SettingsError Files := do
  let text ← (format.print s).mapError (.malformed path)
  match refusal with
  | some fault => throw (.unreadable path fault)
  | none => return files.put path text.toUTF8

end FileFormat

end PacketWatch
