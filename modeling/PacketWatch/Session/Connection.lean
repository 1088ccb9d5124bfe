import PacketWatch.Wire.Basic

namespace PacketWatch

inductive Incoming where
  | chunk (bytes : Bytes)
  /-- The end of the stream, which stays. -/
  | done
  /-- A read error, which is reported once. -/
  | broken (reason : String)
deriving DecidableEq

structure Connection where
  incoming : List Incoming := []
  /-- How many more bytes the peer takes, if there is a limit. -/
  room : Option Nat := none
  writeFault : Option String := none
  writesNothing : Bool := false
  flushFault : Option String := none
  written : Bytes := []
  /-- How many of them have been flushed. -/
  flushed : Nat := 0

namespace Connection

def unread (c : Connection) : Nat :=
  Wire.total (fun
    | .chunk b => b.length
    | _ => 0) c.incoming

/-- Puts something behind what is in store. An empty chunk is nothing. -/
def deliver (c : Connection) : Incoming → Connection
  | .chunk [] => c
  | i => { c with incoming := c.incoming ++ [i] }

inductive ReadResult where
  | wait
  | data (bytes : Bytes) (next : Connection)
  | fault (reason : String) (next : Connection)

/-- Reads at most `limit` bytes of one chunk. No bytes are what the end of the stream reads as. -/
def read (limit : Nat) (c : Connection) : ReadResult :=
  match c.incoming with
  | [] => .wait
  | .chunk b :: rest =>
    let left := if b.length ≤ limit then [] else [Incoming.chunk (b.drop limit)]
    .data (b.take limit) { c with incoming := left ++ rest }
  | .done :: _ => .data [] c
  | .broken reason :: rest => .fault reason { c with incoming := rest }

inductive WriteResult where
  | wait
  | sent (left : Bytes) (next : Connection)
  | fault (reason : String)

def write (b : Bytes) (c : Connection) : WriteResult :=
  match c.writeFault with
  | some reason => .fault reason
  | none =>
    if c.writesNothing then .fault "write zero"
    else
      match c.room with
      | none => .sent [] { c with written := c.written ++ b }
      | some 0 => .wait
      | some n =>
        .sent (b.drop n)
          { c with room := some (n - b.length), written := c.written ++ b.take n }

def flush (c : Connection) : Except String Connection :=
  match c.flushFault with
  | some reason => .error reason
  | none => .ok { c with flushed := c.written.length }

end Connection

end PacketWatch
