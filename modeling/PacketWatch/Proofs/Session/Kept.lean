import PacketWatch.Proofs.Session.Connection

namespace PacketWatch.Session

variable {s t u : Session} {more : Log} {events : List Event} {entry : Action × Response}

/-! What moves and deeds leave as it is. -/

theorem Move.settings_eq (h : Move s t events) : t.settings = s.settings := by
  cases h <;> rfl

theorem Move.shutdown_eq (h : Move s t events) : t.shutdown = s.shutdown := by
  cases h <;> rfl

theorem Move.connection (h : Move s t events) : t.connection = s.connection ∨
    (∃ b, s.connection.read s.settings.readBufferSize = .data b t.connection) ∨
    (∃ reason, s.connection.read s.settings.readBufferSize = .fault reason t.connection) ∨
    (∃ b left, s.connection.write b = .sent left t.connection) ∨
    s.connection.flush = .ok t.connection := by
  cases h with
  | readFault reason _ _ _ _ hread => exact .inr (.inr (.inl ⟨reason, hread⟩))
  | readEnd _ _ _ _ hread => exact .inr (.inl ⟨[], hread⟩)
  | read b _ _ _ _ _ hread => exact .inr (.inl ⟨b, hread⟩)
  | write b left _ _ _ hwrite => exact .inr (.inr (.inr (.inl ⟨b, left, hwrite⟩)))
  | flush _ _ _ hflush => exact .inr (.inr (.inr (.inr hflush)))
  | _ => exact .inl rfl

theorem Move.tidy (h : Move s t events) (htidy : s.connection.Tidy) :
    t.connection.Tidy := by
  obtain hsame | ⟨_, hread⟩ | ⟨_, hread⟩ | ⟨_, _, hwrite⟩ | hflush := h.connection
  · rwa [hsame]
  · exact htidy.read hread
  · exact htidy.read_fault hread
  · obtain ⟨_, -, -, hincoming, -⟩ := Connection.write_sent hwrite
    rwa [Connection.Tidy, hincoming]
  · rwa [Connection.eq_of_flush hflush]

theorem Move.faulty_iff (h : Move s t events) :
    t.connection.Faulty ↔ s.connection.Faulty := by
  obtain hsame | ⟨_, hread⟩ | ⟨_, hread⟩ | ⟨_, _, hwrite⟩ | hflush := h.connection
  · rw [hsame]
  · rw [Connection.eq_of_read hread]
    rfl
  · rw [Connection.eq_of_read_fault hread]
    rfl
  · obtain ⟨_, -, -, -, hfaulty⟩ := Connection.write_sent hwrite
    exact hfaulty
  · rw [Connection.eq_of_flush hflush]
    rfl

theorem Move.prefix_written (h : Move s t events) : s.connection.written <+: t.connection.written := by
  obtain hsame | ⟨_, hread⟩ | ⟨_, hread⟩ | ⟨_, _, hwrite⟩ | hflush := h.connection
  · exact hsame ▸ List.prefix_rfl
  · exact Connection.written_of_read hread ▸ List.prefix_rfl
  · exact Connection.written_of_read_fault hread ▸ List.prefix_rfl
  · obtain ⟨out, -, hwritten, -, -⟩ := Connection.write_sent hwrite
    exact ⟨out, hwritten.symm⟩
  · exact Connection.written_of_flush hflush ▸ List.prefix_rfl

theorem Move.phase_ne_stopped {events : List Event} (h : Move s t events) : s.phase ≠ .stopped := by
  cases h with
  | stop _ hphase => exact hphase
  | start h | pause h | carve _ _ h | reject _ _ h | refuse _ h | publish _ h | take _ _ h | readFault _ _ h
  | readEnd _ h | read _ _ h | flushFault _ h | flush _ h | writeFault _ _ h | write _ _ _ h | finish _ h =>
      rw [h]
      exact Phase.noConfusion

theorem step_of_stopped (h : s.phase = .stopped) : s.step = none := by
  rw [step, h]

theorem Move.room (h : Move s t events) (hroom : s.connection.room = none) : t.connection.room = none := by
  obtain hsame | ⟨_, hread⟩ | ⟨_, hread⟩ | ⟨_, _, hwrite⟩ | hflush := h.connection
  · rw [hsame, hroom]
  · rw [Connection.eq_of_read hread, hroom]
  · rw [Connection.eq_of_read_fault hread, hroom]
  · exact Connection.room_of_write hwrite hroom
  · rw [Connection.eq_of_flush hflush, hroom]

/-- The task waits only with a buffer that does not begin with a whole frame. -/
theorem Move.waiting (h : Move s t events) (hphase : t.phase = .waiting) :
    scan t.settings.maxMessageSize t.buffer = .incomplete := by
  cases h with
  | pause _ hscan => exact hscan
  | _ => cases hphase

theorem Deed.settings_eq (h : Deed s entry t) : t.settings = s.settings := by
  cases h <;> rfl

theorem Deed.tidy (h : Deed s entry t) (htidy : s.connection.Tidy) :
    t.connection.Tidy := by
  cases h with
  | deliver i => exact htidy.deliver i
  | _ => exact htidy

theorem Deed.faulty (h : Deed s entry t) (hfaulty : t.connection.Faulty) :
    s.connection.Faulty ∨ Log.Disturbed [entry] := by
  cases h with
  | deliver i =>
      rw [Connection.eq_deliver] at hfaulty
      exact .inl hfaulty
  | failWrites | failFlushes | stopWrites => exact .inr (by simp [Action.disturbs])
  | _ => exact .inl hfaulty

theorem Deed.written_eq (h : Deed s entry t) : t.connection.written = s.connection.written := by
  cases h with
  | deliver i => rw [Connection.eq_deliver]
  | _ => rfl

theorem Deed.flushed_eq (h : Deed s entry t) : t.connection.flushed = s.connection.flushed := by
  cases h with
  | deliver i => rw [Connection.eq_deliver]
  | _ => rfl

theorem Deed.buffer_eq (h : Deed s entry t) : t.buffer = s.buffer := by
  cases h <;> rfl

/-- What is delivered is to be read behind what was there. -/
theorem Deed.ahead_eq (h : Deed s entry t) : t.connection.ahead = s.connection.ahead ++ Log.stream [entry] := by
  cases h with
  | deliver i => rw [Connection.ahead_deliver, Log.stream_deliver]
  | queue a b hb =>
      rw [Log.stream, Log.delivered_send (Action.isSend_of_offered? hb)]
      exact (List.append_nil _).symm
  | decline a r ha =>
      rw [Log.stream, Log.delivered_send ha]
      exact (List.append_nil _).symm
  | _ => exact (List.append_nil _).symm

theorem Deed.phase (h : Deed s entry t) : t.phase = s.phase ∨ t.phase = .stopped := by
  cases h with
  | abort => exact .inr rfl
  | _ => exact .inl rfl

/-- An item that is received has left the queue. -/
theorem Deed.received_append_inbound (h : Deed s entry t) :
    Log.received [entry] ++ t.inbound = s.inbound := by
  cases h with
  | receive i rest hinbound => exact hinbound.symm
  | _ => rfl

theorem Deed.stopped (h : Deed s entry t) (hphase : s.phase = .stopped) : t.phase = .stopped := by
  cases h with
  | abort => rfl
  | _ => exact hphase

theorem Deed.room (h : Deed s entry t) (hallow : ∀ n, entry.1 ≠ .allow n) :
    t.connection.room = s.connection.room := by
  cases h with
  | allow n => exact absurd rfl (hallow n)
  | deliver i => rw [Connection.eq_deliver]
  | _ => rfl

theorem Deed.shutdown (h : Deed s entry t) (hshutdown : t.shutdown = true) :
    s.shutdown = true ∨ Log.Disturbed [entry] := by
  cases h with
  | signal => exact .inr (by simp [Action.disturbs])
  | _ => exact .inl hshutdown

theorem Deed.shutdown_of_shutdown (h : Deed s entry t) (hshutdown : s.shutdown = true) :
    t.shutdown = true := by
  cases h with
  | signal => rfl
  | _ => exact hshutdown

theorem Deed.shutdown_of_signal (h : Deed s entry t) (hsignal : entry.1 = .signal) : t.shutdown = true := by
  cases h with
  | signal => rfl
  | queue a b hb =>
      rw [show a = .signal from hsignal] at hb
      cases hb
  | decline a r ha =>
      rw [show a = .signal from hsignal] at ha
      cases ha
  | _ => cases hsignal

theorem Deed.waiting (h : Deed s entry t) (hphase : t.phase = .waiting) :
    s.phase = .waiting ∧ t.buffer = s.buffer := by
  cases h with
  | abort => cases hphase
  | _ => exact ⟨hphase, rfl⟩

/-- Between `s` and `t` the task has neither read nor written: what was there to be read is still there,
and so is what has arrived since. -/
structure Untouched (s : Session) (more : Log) (t : Session) : Prop where
  ahead_eq : t.connection.ahead = s.connection.ahead ++ more.stream
  written_eq : t.connection.written = s.connection.written
  flushed_eq : t.connection.flushed = s.connection.flushed

theorem untouched_refl (s : Session) : Untouched s [] s := ⟨(List.append_nil _).symm, rfl, rfl⟩

theorem Untouched.move (h : Untouched s more t) (hconnection : u.connection = t.connection) :
    Untouched s more u := by
  obtain ⟨hahead, hwritten, hflushed⟩ := h
  exact ⟨by rw [hconnection, hahead], by rw [hconnection, hwritten], by rw [hconnection, hflushed]⟩

theorem Untouched.deed (h : Untouched s more t) (hdeed : Deed t entry u) :
    Untouched s (more ++ [entry]) u where
  ahead_eq := by rw [hdeed.ahead_eq, h.ahead_eq, Log.stream_append, List.append_assoc]
  written_eq := hdeed.written_eq.trans h.written_eq
  flushed_eq := hdeed.flushed_eq.trans h.flushed_eq

end PacketWatch.Session
