import PacketWatch.Address.Endpoint
import PacketWatch.Session.Run

namespace PacketWatch

structure Watch where
  peer : Endpoint
  limit : Option Nat := none
  count : Nat := 0
  isOver : Bool := false

namespace Watch

variable (w : Watch)

def line (level : Level) (text : String) : LogLine := ⟨level, s!"[{w.peer}] {text}"⟩

/-- What is told about the next item. The limit is looked at behind each message, so that one
message is described whatever the limit. -/
def see : Item → List LogLine × Watch
  | .ok packet =>
    let w := { w with count := w.count + 1 }
    let told := w.line .info s!"#{w.count} {packet.summary}"
    if w.limit.any (· ≤ w.count) then
      ([told, w.line .info "Message limit reached"], { w with isOver := true })
    else ([told], w)
  | .error .connectionClosed => ([w.line .info "Connection closed"], w)
  | .error e => ([w.line .error s!"Stream ended: {e.message}"], w)

def seeAll (w : Watch) : List Item → List LogLine × Watch
  | [] => ([], w)
  | i :: rest =>
    let (told, w) := w.see i
    if w.isOver then (told, w)
    else
      let (more, w) := seeAll w rest
      (told ++ more, w)

def total : LogLine := w.line .info s!"{w.count} message(s) decoded"

def lines (s : Session) : List LogLine :=
  let (told, w) := w.seeAll s.settle.1.drain.1
  told ++ [w.total]

end Watch

end PacketWatch
