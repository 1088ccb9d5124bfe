import PacketWatch.Proofs.Session.Run

namespace PacketWatch.Session

def pending (s : Session) : Bytes :=
  match s.phase with
  | .writing left => left ++ s.outbound.flatten
  | _ => s.outbound.flatten

inductive Conveyed (log : Log) (s : Session) : Prop
  | running (hopen : s.isOpen = true) (h : s.connection.written ++ s.pending = log.accepted.flatten)
  | ended (hopen : s.isOpen = false) (h : s.connection.written <+: log.accepted.flatten)

variable {log : Log} {s t : Session}

theorem Conveyed.prefix_accepted (h : Conveyed log s) : s.connection.written <+: log.accepted.flatten := by
  cases h with
  | running _ h => exact ⟨_, h⟩
  | ended _ h => exact h

theorem Conveyed.of_isOpen (h : Conveyed log s) (hopen : s.isOpen = true) :
    s.connection.written ++ s.pending = log.accepted.flatten := by
  cases h with
  | running _ h => exact h
  | ended hclosed => rw [hopen] at hclosed; cases hclosed

theorem Conveyed.end (h : Conveyed log s) (hopen : t.isOpen = false)
    (hwritten : t.connection.written = s.connection.written) : Conveyed log t :=
  .ended hopen (hwritten ▸ h.prefix_accepted)

theorem Conveyed.keep (h : Conveyed log s) (hopen : s.isOpen = true) (hopen' : t.isOpen = true)
    (hwritten : t.connection.written ++ t.pending = s.connection.written ++ s.pending) : Conveyed log t :=
  .running hopen' (hwritten.trans (h.of_isOpen hopen))

theorem Conveyed.move {events : List Event} (h : Conveyed log s) (hmove : Move s t events) :
    Conveyed log t := by
  cases hmove with
  | start hphase | pause hphase | publish _ hphase =>
      exact h.keep (by rw [isOpen, hphase]) rfl (by simp [pending, hphase])
  | flush c hphase _ hflush =>
      obtain rfl := Connection.eq_of_flush hflush
      exact h.keep (by rw [isOpen, hphase]) rfl (by simp [pending, hphase])
  | carve _ _ hphase => exact h.keep (by rw [isOpen, hphase]) rfl (by simp [pending, hphase])
  | take b rest hphase _ houtbound =>
      exact h.keep (by rw [isOpen, hphase]) rfl (by simp [pending, hphase, houtbound])
  | read b c hphase _ houtbound _ hread =>
      refine h.keep (by rw [isOpen, hphase]) rfl ?_
      rw [Connection.written_of_read hread]
      simp [pending, hphase]
  | write b left c hphase _ hwrite =>
      obtain ⟨out, rfl, hwritten, -, -⟩ := Connection.write_sent hwrite
      refine h.keep (by rw [isOpen, hphase]) rfl ?_
      simp [pending, hphase, hwritten]
  | reject | refuse | flushFault | writeFault | finish | stop => exact h.end rfl rfl
  | readFault _ _ _ _ _ hread => exact h.end rfl (Connection.written_of_read_fault hread)
  | readEnd _ _ _ _ hread => exact h.end rfl (Connection.written_of_read hread)

theorem Conveyed.extend (h : Conveyed log s) {later : Log} (hphase : t.phase = s.phase)
    (hwritten : t.connection.written = s.connection.written) (houtbound : t.outbound = s.outbound)
    (haccepted : later.accepted = []) : Conveyed (log ++ later) t := by
  have hopen : t.isOpen = s.isOpen := by rw [isOpen, hphase, isOpen]
  have hpending : t.pending = s.pending := by rw [pending, hphase, houtbound, pending]
  have hlog : (log ++ later).accepted = log.accepted := by
    rw [Log.accepted_append, haccepted, List.append_nil]
  cases h with
  | running hs h => exact .running (hopen.trans hs) (by rw [hwritten, hpending, hlog, h])
  | ended hs h => exact .ended (hopen.trans hs) (by rwa [hwritten, hlog])

theorem pending_queue (s : Session) (b : Bytes) :
    pending { s with outbound := s.outbound ++ [b] } = s.pending ++ b := by
  rw [pending, pending]
  cases s.phase <;> simp

theorem Conveyed.deed {entry : Action × Response} (h : Conveyed log s) (hdeed : Deed s entry t) :
    Conveyed (log ++ [entry]) t := by
  cases hdeed with
  | deliver i => exact h.extend rfl (Deed.deliver i).written_eq rfl rfl
  | allow | failWrites | failFlushes | stopWrites | receive | pending | ended | signal =>
      exact h.extend rfl rfl rfl rfl
  | decline a r ha hr => exact h.extend rfl rfl rfl (Log.accepted_decline hr)
  | queue a b hb hopen hroom =>
      refine .running hopen ?_
      rw [pending_queue, ← List.append_assoc, h.of_isOpen hopen, Log.accepted_append,
        Log.accepted_queue hb, List.flatten_append, List.flatten_singleton]
  | abort =>
      refine .ended rfl (h.prefix_accepted.trans ?_)
      rw [Log.accepted_append, List.flatten_append]
      exact List.prefix_append _ _

theorem Run.conveyed {settings : Settings} (hrun : Run { settings } log s) : Conveyed log s :=
  hrun.invariant (.running rfl rfl) Conveyed.move Conveyed.deed

theorem Deed.encode_sent {entry : Action × Response} (h : Deed s entry t)
    (hsend : ∀ b, entry.1 ≠ .sendBytes b) :
    (Log.sent [entry]).map encode = (Log.accepted [entry]).map .ok := by
  cases h with
  | queue a b hb hopen hroom =>
      rw [Log.accepted_queue hb]
      cases a with
      | sendBytes c => exact absurd rfl (hsend c)
      | send p =>
          rw [Action.offered?] at hb
          cases hencode : encode p with
          | error e => rw [hencode] at hb; cases hb
          | ok c =>
              rw [hencode] at hb
              cases hb
              exact congrArg (fun x => [x]) hencode
      | _ => cases hb
  | decline a r ha hr => rw [Log.accepted_decline hr, Log.sent_decline hr, List.map_nil, List.map_nil]
  | _ => rfl

/-- Without bytes that are sent as they are, what is written are the encodings of the packets sent. -/
theorem Run.encode_sent (hrun : Run s log t) (hsend : ∀ e ∈ log, ∀ b, e.1 ≠ .sendBytes b) :
    log.sent.map encode = log.accepted.map .ok := by
  refine hrun.invariant (P := fun log _ => (∀ e ∈ log, ∀ b, e.1 ≠ .sendBytes b) →
    log.sent.map encode = log.accepted.map .ok) (fun _ => rfl) (fun h _ => h) ?_ hsend
  intro log t e u h hdeed hsend
  rw [List.forall_mem_append, List.forall_mem_singleton] at hsend
  rw [Log.sent_append, Log.accepted_append, List.map_append, List.map_append, h hsend.1,
    hdeed.encode_sent hsend.2]

theorem Run.phase_ne_writing_of_accepted_eq_nil {settings : Settings} (hrun : Run { settings } log s)
    (haccepted : log.accepted = []) (left : Bytes) : s.phase ≠ .writing left := by
  suffices h : s.outbound = [] ∧ ∀ left, s.phase ≠ .writing left from h.2 left
  refine hrun.invariant
    (P := fun log s => log.accepted = [] → s.outbound = [] ∧ ∀ left, s.phase ≠ .writing left)
    ?_ ?_ ?_ haccepted
  · exact fun _ => ⟨rfl, fun _ => Phase.noConfusion⟩
  · intro log s t events h hmove haccepted
    obtain ⟨houtbound, hwriting⟩ := h haccepted
    cases hmove with
    | take b rest _ _ hqueued => rw [houtbound] at hqueued; cases hqueued
    | write b left c hphase => exact absurd hphase (hwriting b)
    | reject | refuse | readFault | readEnd | flushFault | writeFault | finish | stop =>
        exact ⟨rfl, fun _ => Phase.noConfusion⟩
    | _ => exact ⟨houtbound, fun _ => Phase.noConfusion⟩
  · intro log s e t h hdeed haccepted
    rw [Log.accepted_append, List.append_eq_nil_iff] at haccepted
    obtain ⟨houtbound, hwriting⟩ := h haccepted.1
    cases hdeed with
    | queue a b hb => rw [Log.accepted_queue hb] at haccepted; cases haccepted.2
    | abort => exact ⟨rfl, fun _ => Phase.noConfusion⟩
    | _ => exact ⟨houtbound, hwriting⟩

theorem drain_ne_writing_of_accepted_eq_nil {settings : Settings} (hrun : Run { settings } log s)
    (haccepted : log.accepted = []) (left : Bytes) : s.settle.1.drain.2.1.phase ≠ .writing left := by
  obtain ⟨more, hmore, -, honly, -⟩ := hrun.settle.drain (step_settle s)
  refine hmore.phase_ne_writing_of_accepted_eq_nil ?_ left
  rw [Log.accepted_append, haccepted, Log.accepted_of_forall_receive honly, List.append_nil]

end PacketWatch.Session
