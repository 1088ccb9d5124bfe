import PacketWatch.CommandLine
import PacketWatch.Log
import PacketWatch.Settings.Yaml

namespace PacketWatch

/-- Makes a request of the arguments and of the file that the environment names, or gives the exit
code of the program. -/
abbrev ArgumentParser := List String → Option String → Except Nat Request

def CommandLine.parse : ArgumentParser := fun args file => (request args file).mapError Refusal.exitCode

structure Start where
  log : List LogLine := []
  /-- The settings and the request, or the exit code. -/
  work : Except Nat (Settings × Request)

namespace Start

variable (format : FileFormat) (env : Environment) (files : Files)

def settings (config : Option String) : Except SettingsError (Settings × List LogLine) := do
  match config with
  | some path =>
    let s ← format.ofFile files path
    return (s.change env.settings, [⟨.info, s!"Loaded config from {path}"⟩])
  | none => return (← format.load env files, [])

def sizes (s : Settings) : LogLine :=
  ⟨.info, s!"  Read buffer: {s.readBufferSize} bytes, " ++
    s!"inbound capacity: {s.inboundCapacity}, max message: {s.maxMessageSize} bytes"⟩

def of (parse : ArgumentParser) (args : List String) : Start :=
  match parse args (env Settings.fileVariable) with
  | .error code => { work := .error code }
  | .ok request =>
    match settings format env files request.config with
    | .error e => { log := [⟨.error, s!"Failed to load config: {e.message}"⟩], work := .error 1 }
    | .ok (s, told) => { log := told ++ [sizes s], work := .ok (s, request) }

end Start

end PacketWatch
