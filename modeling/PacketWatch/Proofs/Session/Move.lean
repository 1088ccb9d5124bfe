import PacketWatch.Session.Run

namespace PacketWatch.Session

def closeError (buffered : Nat) : SessionError :=
  if buffered = 0 then .connectionClosed else .unexpectedEnd buffered

def closeEvent (buffered : Nat) : Event :=
  if buffered = 0 then .connectionClosed else .connectionCut buffered

inductive Move (s : Session) : Session → List Event → Prop
  | start (hphase : s.phase = .starting) : Move s { s with phase := .scanning } [.started]
  | pause (hphase : s.phase = .scanning) (hscan : scan s.settings.maxMessageSize s.buffer = .incomplete) :
      Move s { s with phase := .waiting } []
  | carve (p : Packet) (n : Nat) (hphase : s.phase = .scanning)
      (hscan : scan s.settings.maxMessageSize s.buffer = .message p n) :
      Move s { s with phase := .publishing p, buffer := s.buffer.drop n } [.carved n]
  | reject (e : DecodeError) (n : Nat) (hphase : s.phase = .scanning)
      (hscan : scan s.settings.maxMessageSize s.buffer = .badFrame e n) :
      Move s (fail (.decode e) { s with buffer := s.buffer.drop n }) [.carved n, .failed (.decode e)]
  | refuse (e : SessionError) (hphase : s.phase = .scanning)
      (hscan : scan s.settings.maxMessageSize s.buffer = .fault e) : Move s (s.fail e) [.failed e]
  | publish (p : Packet) (hphase : s.phase = .publishing p) (hshutdown : s.shutdown = false)
      (hroom : s.inboundRoom = true) :
      Move s { s with phase := .scanning, inbound := s.inbound ++ [.ok p] } []
  | take (b : Bytes) (rest : List Bytes) (hphase : s.phase = .waiting) (hshutdown : s.shutdown = false)
      (houtbound : s.outbound = b :: rest) :
      Move s { s with phase := .writing b, outbound := rest } [.writing b.length]
  | readFault (reason : String) (c : Connection) (hphase : s.phase = .waiting)
      (hshutdown : s.shutdown = false) (houtbound : s.outbound = [])
      (hread : s.connection.read s.settings.readBufferSize = .fault reason c) :
      Move s (fail (.io reason) { s with connection := c }) [.readFailed reason, .failed (.io reason)]
  | readEnd (c : Connection) (hphase : s.phase = .waiting) (hshutdown : s.shutdown = false)
      (houtbound : s.outbound = []) (hread : s.connection.read s.settings.readBufferSize = .data [] c) :
      Move s (fail (closeError s.buffer.length) { s with connection := c })
        [closeEvent s.buffer.length, .failed (closeError s.buffer.length)]
  | read (b : Bytes) (c : Connection) (hphase : s.phase = .waiting) (hshutdown : s.shutdown = false)
      (houtbound : s.outbound = []) (hb : b ≠ [])
      (hread : s.connection.read s.settings.readBufferSize = .data b c) :
      Move s { s with phase := .scanning, connection := c, buffer := s.buffer ++ b } [.received b.length]
  | flushFault (reason : String) (hphase : s.phase = .writing []) (hshutdown : s.shutdown = false)
      (hflush : s.connection.flush = .error reason) : Move s (s.fail (.io reason)) [.failed (.io reason)]
  | flush (c : Connection) (hphase : s.phase = .writing []) (hshutdown : s.shutdown = false)
      (hflush : s.connection.flush = .ok c) : Move s { s with phase := .scanning, connection := c } []
  | writeFault (left : Bytes) (reason : String) (hphase : s.phase = .writing left)
      (hshutdown : s.shutdown = false) (hwrite : s.connection.write left = .fault reason) :
      Move s (s.fail (.io reason)) [.failed (.io reason)]
  | write (b left : Bytes) (c : Connection) (hphase : s.phase = .writing b) (hshutdown : s.shutdown = false)
      (hwrite : s.connection.write b = .sent left c) :
      Move s { s with phase := .writing left, connection := c } []
  | finish (e : SessionError) (hphase : s.phase = .failing e) (hshutdown : s.shutdown = false)
      (hroom : s.inboundRoom = true) :
      Move s (stop { s with inbound := s.inbound ++ [.error e] }) [.ended]
  | stop (event : Event) (hphase : s.phase ≠ .stopped) (hshutdown : s.shutdown = true) : Move s s.stop [event]

theorem move_of_step {s t : Session} {events : List Event} (h : s.step = some (t, events)) :
    Move s t events := by
  unfold step at h
  split at h
  · next hphase => cases h; exact .start hphase
  · next hphase =>
    split at h
    · next hscan => cases h; exact .pause hphase hscan
    · next hscan => cases h; exact .carve _ _ hphase hscan
    · next hscan => cases h; exact .reject _ _ hphase hscan
    · next hscan => cases h; exact .refuse _ hphase hscan
  · next hphase =>
    split at h
    · next hshutdown => cases h; exact .stop _ (by rw [hphase]; simp) hshutdown
    · next hshutdown =>
      split at h
      · next hroom => cases h; exact .publish _ hphase (by simpa using hshutdown) hroom
      · cases h
  · next hphase =>
    split at h
    · next hshutdown => cases h; exact .stop _ (by rw [hphase]; simp) hshutdown
    · next hshutdown =>
      rw [Bool.not_eq_true] at hshutdown
      split at h
      · next houtbound => cases h; exact .take _ _ hphase hshutdown houtbound
      · next houtbound =>
        split at h
        · cases h
        · next hread => cases h; exact .readFault _ _ hphase hshutdown houtbound hread
        · next c hread =>
          have hend := Move.readEnd c hphase hshutdown houtbound hread
          rw [closeError, closeEvent] at hend
          by_cases hbuffer : s.buffer = []
          · rw [hbuffer] at h hend
            cases h
            exact hend
          · rw [if_neg (by simpa using hbuffer)] at h
            rw [if_neg (by simpa using hbuffer), if_neg (by simpa using hbuffer)] at hend
            cases h
            exact hend
        · next hb hread => cases h; exact .read _ _ hphase hshutdown houtbound hb hread
  · next left hphase =>
    split at h
    · next hshutdown => cases h; exact .stop _ (by rw [hphase]; simp) hshutdown
    · next hshutdown =>
      rw [Bool.not_eq_true] at hshutdown
      split at h
      · next hleft =>
        obtain rfl : left = [] := by simpa using hleft
        split at h
        · next hflush => cases h; exact .flushFault _ hphase hshutdown hflush
        · next hflush => cases h; exact .flush _ hphase hshutdown hflush
      · split at h
        · cases h
        · next hwrite => cases h; exact .writeFault _ _ hphase hshutdown hwrite
        · next hwrite => cases h; exact .write _ _ _ hphase hshutdown hwrite
  · next hphase =>
    split at h
    · next hshutdown => cases h; exact .stop _ (by rw [hphase]; simp) hshutdown
    · next hshutdown =>
      split at h
      · next hroom => cases h; exact .finish _ hphase (by simpa using hshutdown) hroom
      · cases h
  · cases h

inductive Waits (s : Session) : Prop
  | publish (p : Packet) (hphase : s.phase = .publishing p) (hshutdown : s.shutdown = false)
      (hroom : s.inboundRoom = false)
  | read (hphase : s.phase = .waiting) (hshutdown : s.shutdown = false) (houtbound : s.outbound = [])
      (hread : s.connection.read s.settings.readBufferSize = .wait)
  | write (left : Bytes) (hphase : s.phase = .writing left) (hshutdown : s.shutdown = false)
      (hleft : left ≠ []) (hwrite : s.connection.write left = .wait)
  | finish (e : SessionError) (hphase : s.phase = .failing e) (hshutdown : s.shutdown = false)
      (hroom : s.inboundRoom = false)
  | stopped (hphase : s.phase = .stopped)

theorem waits_of_step_eq_none {s : Session} (h : s.step = none) : Waits s := by
  unfold step at h
  split at h
  · cases h
  · split at h <;> cases h
  · next hphase =>
    split at h
    · cases h
    · next hshutdown =>
      split at h
      · cases h
      · next hroom => exact .publish _ hphase (by simpa using hshutdown) (by simpa using hroom)
  · next hphase =>
    split at h
    · cases h
    · next hshutdown =>
      split at h
      · cases h
      · next houtbound =>
        split at h
        · next hread => exact .read hphase (by simpa using hshutdown) houtbound hread
        · cases h
        · cases h
        · cases h
  · next left hphase =>
    split at h
    · cases h
    · next hshutdown =>
      split at h
      · split at h <;> cases h
      · next hleft =>
        split at h
        · next hwrite => exact .write left hphase (by simpa using hshutdown) (by simpa using hleft) hwrite
        · cases h
        · cases h
  · next hphase =>
    split at h
    · cases h
    · next hshutdown =>
      split at h
      · cases h
      · next hroom => exact .finish _ hphase (by simpa using hshutdown) (by simpa using hroom)
  · next hphase => exact .stopped hphase

end PacketWatch.Session
