namespace PacketWatch

inductive Level where
  | error
  | warn
  | info
  | debug
  | trace
deriving DecidableEq, Repr

namespace Level

def all : List Level := [error, warn, info, debug, trace]

def name : Level → String
  | error => "ERROR"
  | warn => "WARN"
  | info => "INFO"
  | debug => "DEBUG"
  | trace => "TRACE"

def rank : Level → Nat
  | error => 1
  | warn => 2
  | info => 3
  | debug => 4
  | trace => 5

end Level

structure LogLine where
  level : Level
  text : String
deriving DecidableEq, Repr

namespace Log

/-- The highest rank that is logged, for the text of a filter. A text that names no level counts as
missing, and an empty one lets nothing through. -/
def limit : Option String → Nat
  | none => Level.info.rank
  | some "" => 0
  | some text =>
    if text.toUpper = "OFF" || text = "0" then 0
    else
      let named (l : Level) := text.toUpper = l.name || text = toString l.rank
      ((Level.all.find? named).getD .info).rank

def filter (text : Option String) (lines : List LogLine) : List LogLine :=
  lines.filter (·.level.rank ≤ limit text)

end Log

end PacketWatch
