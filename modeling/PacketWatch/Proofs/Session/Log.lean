import PacketWatch.Proofs.Session.Move
import PacketWatch.Session.Basic

namespace PacketWatch

inductive Signal where
  | byte (b : UInt8)
  | done
  | broken (reason : String)
deriving DecidableEq

def Signal.byte? : Signal → Option UInt8
  | byte b => some b
  | _ => none

def signals (b : Bytes) : List Signal := b.map .byte

def Incoming.signals : Incoming → List Signal
  | chunk b => PacketWatch.signals b
  | done => [.done]
  | broken reason => [.broken reason]

def Incoming.bytes : Incoming → Bytes
  | chunk b => b
  | _ => []

abbrev Log := List (Action × Response)

def Action.disturbs : Action → Bool
  | failWrites _ | failFlushes _ | stopWrites | signal | abort => true
  | _ => false

def Action.offered? : Action → Option Bytes
  | sendBytes b => some b
  | send p => (encode p).toOption
  | _ => none

def Action.isSend : Action → Bool
  | sendBytes _ | send _ => true
  | _ => false

theorem Action.isSend_of_offered? {a : Action} {b : Bytes} (h : a.offered? = some b) : a.isSend = true := by
  cases a <;> first | rfl | cases h

namespace Log

variable (log rest : Log)

def delivered : List Incoming := log.filterMap fun
  | (.deliver i, _) => some i
  | _ => none

def stream : List Signal := log.delivered.flatMap Incoming.signals

def fed : Bytes := log.delivered.flatMap Incoming.bytes

def received : List Item := log.filterMap fun
  | (_, .received (.item i)) => some i
  | _ => none

def accepted : List Bytes := log.filterMap fun
  | (a, .sent .queued) => a.offered?
  | _ => none

def sent : List Packet := log.filterMap fun
  | (.send p, .sent .queued) => some p
  | _ => none

def Disturbed : Prop := ∃ e ∈ log, e.1.disturbs = true

@[simp] theorem delivered_append : (log ++ rest).delivered = log.delivered ++ rest.delivered :=
  List.filterMap_append

@[simp] theorem stream_append : (log ++ rest).stream = log.stream ++ rest.stream := by
  rw [stream, delivered_append, List.flatMap_append]
  rfl

@[simp] theorem fed_append : (log ++ rest).fed = log.fed ++ rest.fed := by
  rw [fed, delivered_append, List.flatMap_append]
  rfl

@[simp] theorem received_append : (log ++ rest).received = log.received ++ rest.received :=
  List.filterMap_append

@[simp] theorem accepted_append : (log ++ rest).accepted = log.accepted ++ rest.accepted :=
  List.filterMap_append

@[simp] theorem sent_append : (log ++ rest).sent = log.sent ++ rest.sent :=
  List.filterMap_append

@[simp] theorem disturbed_append : (log ++ rest).Disturbed ↔ log.Disturbed ∨ rest.Disturbed := by
  simp [Disturbed, or_and_right, exists_or]

variable {a : Action} {r : Response}

@[simp] theorem delivered_deliver (i : Incoming) : delivered [(.deliver i, r)] = [i] := rfl

@[simp] theorem stream_deliver (i : Incoming) : stream [(.deliver i, r)] = i.signals :=
  List.append_nil _

@[simp] theorem fed_deliver (i : Incoming) : fed [(.deliver i, r)] = i.bytes := List.append_nil _

theorem delivered_of_ne (h : ∀ i, a ≠ .deliver i) : delivered [(a, r)] = [] := by
  cases a with
  | deliver i => exact absurd rfl (h i)
  | _ => rfl

theorem delivered_send (h : a.isSend = true) : delivered [(a, r)] = [] := by
  cases a <;> first | rfl | cases h

theorem accepted_queue {b : Bytes} (h : a.offered? = some b) : accepted [(a, .sent .queued)] = [b] := by
  simp [accepted, h]

theorem accepted_decline {r : Session.Sent} (h : r ≠ .queued) : accepted [(a, .sent r)] = [] := by
  cases r with
  | queued => exact absurd rfl h
  | blocked | refused _ => rfl

theorem sent_decline {r : Session.Sent} (h : r ≠ .queued) : sent [(a, .sent r)] = [] := by
  cases r with
  | queued => exact absurd rfl h
  | blocked | refused _ => cases a <;> rfl

@[simp] theorem disturbed_singleton : Disturbed [(a, r)] ↔ a.disturbs = true := by
  simp [Disturbed]

variable {log}

theorem delivered_of_forall_receive (h : ∀ e ∈ log, e.1 = .receive) : log.delivered = [] := by
  rw [delivered, List.filterMap_eq_nil_iff]
  rintro ⟨a, r⟩ he
  obtain rfl : a = .receive := h _ he
  rfl

theorem accepted_of_forall_receive (h : ∀ e ∈ log, e.1 = .receive) : log.accepted = [] := by
  rw [accepted, List.filterMap_eq_nil_iff]
  rintro ⟨a, r⟩ he
  obtain rfl : a = .receive := h _ he
  cases r with
  | sent r => cases r <;> rfl
  | _ => rfl

theorem not_disturbed_of_forall_receive (h : ∀ e ∈ log, e.1 = .receive) : ¬ log.Disturbed := by
  rintro ⟨⟨a, r⟩, he, hd⟩
  obtain rfl : a = .receive := h _ he
  cases hd

end Log

@[simp] theorem signals_append (b c : Bytes) : signals (b ++ c) = signals b ++ signals c := List.map_append

theorem flatMap_signals_chunk (chunks : List Bytes) :
    (chunks.map Incoming.chunk).flatMap Incoming.signals = signals chunks.flatten := by
  induction chunks with
  | nil => rfl
  | cons b chunks ih =>
      rw [List.map_cons, List.flatMap_cons, ih, List.flatten_cons, signals_append, Incoming.signals]

theorem filterMap_signals (b : Bytes) : (signals b).filterMap Signal.byte? = b := by
  rw [signals, List.filterMap_map]
  exact List.filterMap_some

theorem filterMap_flatMap_signals (l : List Incoming) :
    (l.flatMap Incoming.signals).filterMap Signal.byte? = l.flatMap Incoming.bytes := by
  rw [List.filterMap_flatMap]
  congr 1
  funext i
  cases i with
  | chunk b => exact filterMap_signals b
  | done => rfl
  | broken reason => rfl

theorem Log.filterMap_stream (log : Log) : log.stream.filterMap Signal.byte? = log.fed :=
  filterMap_flatMap_signals log.delivered

namespace Session

inductive Deed (s : Session) : Action × Response → Session → Prop
  | deliver (i : Incoming) : Deed s (.deliver i, .nothing) { s with connection := s.connection.deliver i }
  | allow (n : Option Nat) :
      Deed s (.allow n, .nothing) { s with connection := { s.connection with room := n } }
  | failWrites (reason : String) : Deed s (.failWrites reason, .nothing)
      { s with connection := { s.connection with writeFault := some reason } }
  | failFlushes (reason : String) : Deed s (.failFlushes reason, .nothing)
      { s with connection := { s.connection with flushFault := some reason } }
  | stopWrites : Deed s (.stopWrites, .nothing)
      { s with connection := { s.connection with writesNothing := true } }
  | receive (i : Item) (rest : List Item) (hinbound : s.inbound = i :: rest) :
      Deed s (.receive, .received (.item i)) { s with inbound := rest }
  | pending (hinbound : s.inbound = []) (hstopped : s.isStopped = false) :
      Deed s (.receive, .received .pending) s
  | ended (hinbound : s.inbound = []) (hstopped : s.isStopped = true) :
      Deed s (.receive, .received .ended) s
  | queue (a : Action) (b : Bytes) (hb : a.offered? = some b) (hopen : s.isOpen = true)
      (hroom : s.outboundRoom = true) : Deed s (a, .sent .queued) { s with outbound := s.outbound ++ [b] }
  | decline (a : Action) (r : Sent) (ha : a.isSend = true) (hr : r ≠ .queued) : Deed s (a, .sent r) s
  | signal : Deed s (.signal, .nothing) { s with shutdown := true }
  | abort : Deed s (.abort, .nothing) { s with phase := .stopped, outbound := [] }

theorem deed_of_sendBytes {s : Session} {a : Action} {b : Bytes} (hb : a.offered? = some b) :
    Deed s (a, .sent (s.sendBytes b).1) (s.sendBytes b).2 := by
  have ha := Action.isSend_of_offered? hb
  rw [sendBytes]
  by_cases hopen : s.isOpen = true
  · by_cases hroom : s.outboundRoom = true
    · simp only [hopen, hroom]
      exact .queue a b hb hopen hroom
    · simp only [hopen, hroom]
      exact .decline a _ ha (by simp)
  · simp only [hopen]
    exact .decline a _ ha (by simp)

theorem deed_of_act (s : Session) (a : Action) : Deed s (a, (s.act a).1) (s.act a).2 := by
  cases a with
  | deliver i => exact .deliver i
  | allow n => exact .allow n
  | failWrites reason => exact .failWrites reason
  | failFlushes reason => exact .failFlushes reason
  | stopWrites => exact .stopWrites
  | receive =>
      rw [act, Session.receive]
      cases hinbound : s.inbound with
      | cons i rest => exact .receive i rest hinbound
      | nil =>
          by_cases hstopped : s.isStopped = true
          · rw [if_pos hstopped]
            exact .ended hinbound hstopped
          · rw [if_neg hstopped]
            exact .pending hinbound (by simpa using hstopped)
  | sendBytes b => exact deed_of_sendBytes rfl
  | send p =>
      rw [act, Session.send]
      cases hencode : encode p with
      | error e => exact .decline _ _ rfl (by simp)
      | ok b => exact deed_of_sendBytes (by rw [Action.offered?, hencode]; rfl)
  | signal => exact .signal
  | abort => exact .abort

end Session

end PacketWatch
