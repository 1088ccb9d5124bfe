import PacketWatch.Proofs.Session.Delivery
import PacketWatch.Proofs.Session.Outbound

namespace PacketWatch

open Session

/-- Two sessions with a connection from the first to the second. The first is given packets to send;
what it has written arrives at the second in order, in chunks of any size, and the end of it arrives
when the first has let go of its connection. -/
inductive Link (sender receiver : Settings) : Log → Session → Log → Session → Prop
  | start : Link sender receiver [] { settings := sender } [] { settings := receiver }
  | senderStep {log log' : Log} {s s' r : Session} {events : List Event}
      (hlink : Link sender receiver log s log' r) (hstep : s.step = some (s', events)) :
      Link sender receiver log s' log' r
  | senderAct {log log' : Log} {s r : Session} (hlink : Link sender receiver log s log' r) (a : Action)
      (ha : ∀ b, a ≠ .sendBytes b) :
      Link sender receiver (log ++ [(a, (s.act a).1)]) (s.act a).2 log' r
  | receiverStep {log log' : Log} {s r r' : Session} {events : List Event}
      (hlink : Link sender receiver log s log' r) (hstep : r.step = some (r', events)) :
      Link sender receiver log s log' r'
  | receiverAct {log log' : Log} {s r : Session} (hlink : Link sender receiver log s log' r) (a : Action)
      (ha : ∀ i, a ≠ .deliver i) :
      Link sender receiver log s (log' ++ [(a, (r.act a).1)]) (r.act a).2
  | forward {log log' : Log} {s r : Session} (hlink : Link sender receiver log s log' r) (chunk : Bytes)
      (hchunk : chunk ≠ []) (hwritten : log'.fed ++ chunk <+: s.connection.written) :
      Link sender receiver log s (log' ++ [(.deliver (.chunk chunk), (r.act (.deliver (.chunk chunk))).1)])
        (r.act (.deliver (.chunk chunk))).2
  | close {log log' : Log} {s r : Session} (hlink : Link sender receiver log s log' r)
      (hstopped : s.phase = .stopped) (hwritten : log'.fed = s.connection.written)
      (honce : .done ∉ log'.delivered) :
      Link sender receiver log s (log' ++ [(.deliver .done, (r.act (.deliver .done)).1)])
        (r.act (.deliver .done)).2

inductive Wired (s : Session) (log' : Log) : Prop
  | flowing (hstream : log'.stream = signals log'.fed) (hdone : .done ∉ log'.delivered)
      (hfed : log'.fed <+: s.connection.written)
  | closed (hstream : log'.stream = signals log'.fed ++ [.done]) (hdone : .done ∈ log'.delivered)
      (hfed : log'.fed = s.connection.written) (hphase : s.phase = .stopped)

namespace Link

variable {sender receiver : Settings} {log log' : Log} {s r : Session}

theorem sender_run (h : Link sender receiver log s log' r) : Run { settings := sender } log s := by
  induction h with
  | start => exact .refl
  | senderStep _ hstep ih => exact ih.step hstep
  | senderAct _ a _ ih => exact ih.act a
  | receiverStep _ _ ih | receiverAct _ _ _ ih | forward _ _ _ _ ih | close _ _ _ _ ih => exact ih

theorem receiver_run (h : Link sender receiver log s log' r) : Run { settings := receiver } log' r := by
  induction h with
  | start => exact .refl
  | senderStep _ _ ih | senderAct _ _ _ ih => exact ih
  | receiverStep _ hstep ih => exact ih.step hstep
  | receiverAct _ a _ ih => exact ih.act a
  | forward _ chunk _ _ ih => exact ih.act _
  | close _ _ _ _ ih => exact ih.act _

theorem wired_of_delivered_eq {later : Log} (h : Wired s log') (hlater : later.delivered = log'.delivered) :
    Wired s later := by
  have hstream : later.stream = log'.stream := by rw [Log.stream, hlater, Log.stream]
  have hfed : later.fed = log'.fed := by rw [Log.fed, hlater, Log.fed]
  cases h with
  | flowing hs hdone hf => exact .flowing (by rw [hstream, hfed, hs]) (by rwa [hlater]) (by rwa [hfed])
  | closed hs hdone hf hphase =>
      exact .closed (by rw [hstream, hfed, hs]) (by rwa [hlater]) (by rwa [hfed]) hphase

theorem wired (h : Link sender receiver log s log' r) : Wired s log' := by
  induction h with
  | start => exact .flowing rfl (by simp [Log.delivered]) List.prefix_rfl
  | senderStep _ hstep ih =>
      cases ih with
      | flowing hstream hdone hfed =>
          exact .flowing hstream hdone (hfed.trans (move_of_step hstep).prefix_written)
      | closed _ _ _ hphase =>
          rw [step_of_stopped hphase] at hstep
          cases hstep
  | @senderAct _ _ s _ _ a _ ih =>
      have hdeed := deed_of_act s a
      cases ih with
      | flowing hstream hdone hfed => exact .flowing hstream hdone (by rwa [hdeed.written_eq])
      | closed hstream hdone hfed hphase =>
          exact .closed hstream hdone (by rwa [hdeed.written_eq]) (hdeed.stopped hphase)
  | receiverStep _ _ ih => exact ih
  | receiverAct _ a ha ih =>
      refine wired_of_delivered_eq ih ?_
      rw [Log.delivered_append, Log.delivered_of_ne ha, List.append_nil]
  | forward _ chunk hchunk hwritten ih =>
      cases ih with
      | flowing hstream hdone hfed =>
          refine .flowing ?_ (by simpa using hdone) (by simpa [Incoming.bytes] using hwritten)
          rw [Log.stream_append, Log.fed_append, Log.stream_deliver, Log.fed_deliver, signals_append, hstream]
          rfl
      | closed _ _ hfed _ =>
          -- Behind the end nothing is left to be forwarded.
          have hlen := hwritten.length_le
          rw [← hfed, List.length_append] at hlen
          exact absurd (List.length_eq_zero_iff.1 (by omega)) hchunk
  | close _ hstopped hwritten honce ih =>
      cases ih with
      | flowing hstream hdone hfed =>
          refine .closed ?_ (by simp) (by simpa [Incoming.bytes] using hwritten) hstopped
          rw [Log.stream_append, Log.fed_append, Log.stream_deliver, Log.fed_deliver, hstream]
          exact congrArg (signals · ++ [.done]) (List.append_nil _).symm
      | closed _ hdone _ _ => exact absurd hdone honce

theorem not_sendBytes (h : Link sender receiver log s log' r) : ∀ e ∈ log, ∀ b, e.1 ≠ .sendBytes b := by
  induction h with
  | start => simp
  | senderAct _ a ha ih =>
      rw [List.forall_mem_append, List.forall_mem_singleton]
      exact ⟨ih, ha⟩
  | senderStep _ _ ih | receiverStep _ _ ih | receiverAct _ _ _ ih | forward _ _ _ _ ih | close _ _ _ _ ih =>
      exact ih

/-- The second session receives the packets that were sent in their order; when all of them have been
written and the first has let go of the connection, it receives exactly those, one error that tells
of the end, and nothing more. -/
theorem receives_sent (hbuffer : 1 ≤ receiver.readBufferSize) (h : Link sender receiver log s log' r)
    (hpackets : ∀ p ∈ log.sent, p.size ≤ receiver.maxMessageSize ∧
      ∀ b, encode p = .ok b → decode Packet b = .ok (p, p.size)) :
    packets (log'.received ++ r.inbound) <+: log.sent ∧
      (s.connection.written = log.accepted.flatten → .done ∈ log'.delivered → ¬ log'.Disturbed →
        (log'.accepted = [] ∨ ∀ left, r.settle.1.drain.2.1.phase ≠ .writing left) →
        log'.received ++ r.settle.1.drain.1 = log.sent.map .ok ++ [.error .connectionClosed] ∧
          r.settle.1.drain.2.1.receive.1 = .ended) := by
  have hcut : cut receiver.maxMessageSize log.accepted.flatten = (log.sent, .leftover 0) := by
    have hencode := h.sender_run.encode_sent h.not_sendBytes
    refine cut_encodings hencode fun p hp => ?_
    obtain ⟨hsize, hdecode⟩ := hpackets p hp
    obtain ⟨b, -, hb⟩ := List.mem_map.1 (hencode ▸ List.mem_map_of_mem hp)
    exact ⟨(Spelling.decode_of_encode hb.symm).1 (hdecode b hb.symm), hsize⟩
  constructor
  -- What has arrived begins what was accepted, and so do the packets cut from it.
  · have hfed : log'.fed <+: log.accepted.flatten := by
      refine List.IsPrefix.trans ?_ h.sender_run.conveyed.prefix_accepted
      cases h.wired with
      | flowing _ _ hfed => exact hfed
      | closed _ _ hfed => exact hfed ▸ List.prefix_rfl
    obtain ⟨later, hlater⟩ := hfed
    have hbeginning := cut_prefix_append receiver.maxMessageSize log'.fed later
    rw [hlater, hcut] at hbeginning
    exact (h.receiver_run.sound hbuffer).account.packets_prefix.trans hbeginning
  · intro hwritten hdone hquiet hwriting
    have hstream : log'.stream = signals log.accepted.flatten ++ Incoming.done.signals := by
      cases h.wired with
      | flowing _ hnone => exact absurd hdone hnone
      | closed hstream _ hfed => rw [hstream, hfed, hwritten, Incoming.signals]
    have hwriting' : ∀ left, r.settle.1.drain.2.1.phase ≠ .writing left :=
      hwriting.elim (drain_ne_writing_of_accepted_eq_nil h.receiver_run) id
    have hdrain := h.receiver_run.received_drain hbuffer hstream rfl hquiet hwriting'
    rwa [hcut] at hdrain

theorem receives_sent_split_packet :
    let b : Bytes := [0x60, 0, 0, 0, 0, 0, 59, 1] ++ List.replicate 32 0
    let p : Packet := {
      nextHeader := 59, hopLimit := 1, source := default, destination := default
      extensions := [], payload := .raw 59 [] }
    ∃ log s log' r, Link {} {} log s log' r ∧ log.sent = [p] ∧
      log'.delivered = [.chunk (b.take 7), .chunk (b.drop 7), .done] ∧
      packets (log'.received ++ r.inbound) <+: [p] ∧
      log'.received ++ r.settle.1.drain.1 = [.ok p, .error .connectionClosed] := by
  intro b p
  have hencode : encode p = .ok b := by decide +kernel +revert
  have hdecode : decode Packet b = .ok (p, p.size) := by decide +kernel +revert
  have hsend : Session.act { settings := {} } (.send p) =
      (.sent .queued, { settings := {}, outbound := [b] }) := by
    rw [act, Session.send, hencode]
    rfl
  have hqueued : Link {} {} [(.send p, .sent .queued)] { settings := {}, outbound := [b] } []
      { settings := {} } := by
    have hstart : Link {} {} [] { settings := {} } [] { settings := {} } := .start
    have hnext := hstart.senderAct (.send p) (fun _ => Action.noConfusion)
    rwa [hsend] at hnext
  have hwritten := hqueued.senderStep rfl |>.senderStep rfl |>.senderStep rfl |>.senderStep rfl
  have hstopped := (hwritten.senderAct .signal (fun _ => Action.noConfusion)).senderStep rfl
  have hbegun := hstopped.forward (b.take 7) (by decide) (by decide)
  have hlink := (hbegun.forward (b.drop 7) (by decide) (by decide)).close rfl rfl (by decide)
  obtain ⟨hbeginning, hdrain⟩ := receives_sent (by decide) hlink <| by
    intro q hq
    obtain rfl : q = p := List.mem_singleton.1 hq
    refine ⟨by decide, fun c hc => ?_⟩
    rw [hencode] at hc
    cases hc
    exact hdecode
  refine ⟨_, _, _, _, hlink, rfl, rfl, hbeginning, ?_⟩
  refine (hdrain ?_ (by decide) (by simp [Log.Disturbed, Action.disturbs]) (.inl rfl)).1
  rw [Log.accepted_append, Log.accepted_queue (b := b) (by rw [Action.offered?, hencode]; rfl)]
  rfl

end Link

end PacketWatch
