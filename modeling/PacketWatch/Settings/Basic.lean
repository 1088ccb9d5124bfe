import PacketWatch.Packet.Basic
import PacketWatch.Text.Numeral

namespace PacketWatch

/-- The sizes by which a session works. Its fields are free; `clamped` brings them into range. -/
structure Settings where
  readBufferSize : Nat := 8 * 1024
  inboundCapacity : Nat := 256
  outboundCapacity : Nat := 64
  maxMessageSize : Nat := Packet.headerSize + 0xffff
deriving DecidableEq, Repr

namespace Settings

def withReadBufferSize (s : Settings) (n : Nat) : Settings :=
  { s with readBufferSize := max 1024 (min n (1024 * 1024)) }

def withInboundCapacity (s : Settings) (n : Nat) : Settings := { s with inboundCapacity := max n 1 }

def withOutboundCapacity (s : Settings) (n : Nat) : Settings :=
  { s with outboundCapacity := max n 1 }

def withMaxMessageSize (s : Settings) (n : Nat) : Settings := { s with maxMessageSize := n }

def clamped (s : Settings) : Settings :=
  ((s.withReadBufferSize s.readBufferSize).withInboundCapacity
    s.inboundCapacity).withOutboundCapacity s.outboundCapacity

end Settings

inductive Setting where
  | readBufferSize
  | inboundCapacity
  | outboundCapacity
  | maxMessageSize
deriving DecidableEq, Repr

namespace Setting

def all : List Setting := [readBufferSize, inboundCapacity, outboundCapacity, maxMessageSize]

def key : Setting → String
  | readBufferSize => "read_buffer_size"
  | inboundCapacity => "inbound_capacity"
  | outboundCapacity => "outbound_capacity"
  | maxMessageSize => "max_message_size"

def ofKey? (key : String) : Option Setting := all.find? (·.key = key)

def envName : Setting → String
  | readBufferSize => "OFWIRE_READ_BUFFER_SIZE"
  | inboundCapacity => "OFWIRE_INBOUND_CAPACITY"
  | outboundCapacity => "OFWIRE_OUTBOUND_CAPACITY"
  | maxMessageSize => "OFWIRE_MAX_MESSAGE_SIZE"

end Setting

namespace Settings

def get (s : Settings) : Setting → Nat
  | .readBufferSize => s.readBufferSize
  | .inboundCapacity => s.inboundCapacity
  | .outboundCapacity => s.outboundCapacity
  | .maxMessageSize => s.maxMessageSize

def set (s : Settings) : Setting → Nat → Settings
  | .readBufferSize, n => { s with readBufferSize := n }
  | .inboundCapacity, n => { s with inboundCapacity := n }
  | .outboundCapacity, n => { s with outboundCapacity := n }
  | .maxMessageSize, n => { s with maxMessageSize := n }

def change (s : Settings) (changes : List (Setting × Nat)) : Settings :=
  (changes.foldl (fun s (k, n) => s.set k n) s).clamped

end Settings

abbrev Environment := String → Option String

/-- The settings in the environment. A value that is no size is passed over. -/
def Environment.settings (env : Environment) : List (Setting × Nat) :=
  Setting.all.filterMap fun k => do
    let text ← env k.envName
    return (k, ← Text.size? (Text.trim text.toList))

end PacketWatch
