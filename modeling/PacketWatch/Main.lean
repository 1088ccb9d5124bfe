import PacketWatch.Program
import PacketWatch.Watch
import Std.Async

open Std.Async

namespace PacketWatch

def Endpoint.socketAddress : Endpoint → Std.Net.SocketAddress
  | v4 address port => .v4 ⟨⟨address.octets⟩, port⟩
  | v6 address _ port =>
    let groups := Address.groupsOf address.octets.toList
    let group (i : Nat) := UInt16.ofNat (groups.getD i 0)
    .v6 ⟨.ofParts (group 0) (group 1) (group 2) (group 3) (group 4) (group 5) (group 6) (group 7),
      port⟩

def Endpoint.ofSocketAddress : Std.Net.SocketAddress → Endpoint
  | .v4 a => v4 ⟨a.addr.octets⟩ a.port
  | .v6 a =>
    let digits := a.addr.segments.toList.flatMap fun s => [s.toNat / 256, s.toNat % 256]
    v6 (.ofDigits digits) 0 a.port

abbrev Sink := List LogLine → IO Unit

def sink (filter : Option String) : Sink := fun lines => do
  for l in Log.filter filter lines do
    IO.println s!"{l.level.name} {l.text}"
  (← IO.getStdout).flush

partial def follow (tell : Sink) (client : TCP.Socket.Client) (w : Watch) (s : Session) :
    Async Unit := do
  let (s, events) := s.settle
  let (items, s, more) := s.drain
  let (told, w) := w.seeAll items
  tell ((events ++ more).filterMap Event.line? ++ told)
  if w.isOver || s.isStopped then
    tell (s.signal.settle.2.filterMap Event.line? ++ [w.total])
  else
    let incoming ← try
        match ← client.recv? (UInt64.ofNat s.settings.readBufferSize) with
        | some b => pure (Incoming.chunk b.toList)
        | none => pure Incoming.done
      catch e => pure (Incoming.broken (toString e))
    follow tell client w (s.act (.deliver incoming)).2

partial def serve (tell : Sink) (server : TCP.Socket.Server) (limit : Option Nat)
    (settings : Settings) : Async Unit := do
  let client ← server.accept
  let peer := Endpoint.ofSocketAddress (← client.getPeerName)
  tell [⟨.info, s!"Peer connected: {peer}"⟩]
  background (follow tell client { peer, limit } { settings })
  serve tell server limit settings

def work (tell : Sink) (settings : Settings) (request : Request) : Async Unit := do
  match request.command with
  | .connect peer =>
    let client ← TCP.Socket.Client.mk
    client.connect peer.socketAddress
    client.noDelay
    tell [⟨.info, s!"Connected to {peer}"⟩]
    follow tell client { peer, limit := request.maxMessages } { settings }
  | .listen address =>
    let server ← TCP.Socket.Server.mk
    server.bind address.socketAddress
    server.listen 1024
    let bound := Endpoint.ofSocketAddress (← server.getSockName)
    tell [⟨.info, s!"Listening on {bound}"⟩]
    serve tell server request.maxMessages settings

def readFile (path : String) : IO (Except FileFault ByteArray) := do
  try return .ok (← IO.FS.readBinFile path)
  catch
    | .noFileOrDirectory .. => return .error .missing
    | e => return .error (.other (toString e))

def readEnvironment : IO Environment := do
  let names := Settings.fileVariable :: Setting.all.map Setting.envName
  let values ← names.mapM fun name => return (name, ← IO.getEnv name)
  return fun name => (values.lookup name).join

def usage : String :=
  "Usage: packetwatch [-c FILE] [-n COUNT] connect ADDRESS\n" ++
  "       packetwatch [-c FILE] [-n COUNT] listen [ADDRESS]"

end PacketWatch

open PacketWatch

def main (args : List String) : IO UInt32 := do
  let env ← readEnvironment
  let content ← match CommandLine.request args (env Settings.fileVariable) with
    | .ok { config := some path, .. } => readFile path
    | _ => pure (.error .missing)
  let start := Start.of .yaml env (fun _ => content) CommandLine.parse args
  let tell := sink (← IO.getEnv "OFWIRE_LOG")
  tell start.log
  match start.work with
  | .error code =>
    if start.log.isEmpty then IO.eprintln usage
    return UInt32.ofNat code
  | .ok (settings, request) =>
    try
      (work tell settings request).block
      return 0
    catch e =>
      IO.eprintln s!"Error: {e}"
      return 1
