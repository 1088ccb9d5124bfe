import PacketWatch.Proofs.Session.Run

namespace PacketWatch.Session

variable {settings : Settings} {log more : Log} {s t u : Session} {events : List Event}
  {entry : Action × Response}

theorem settle_of_step_eq_none (h : s.step = none) : s.settle = (s, []) := by
  rw [settle]
  split
  · rfl
  · next hstep => rw [h] at hstep; cases hstep

theorem settle_of_step (h : s.step = some (t, events)) :
    s.settle = (t.settle.1, events ++ t.settle.2) := by
  rw [settle]
  split
  · next hstep => rw [h] at hstep; cases hstep
  · next hstep =>
    rw [h] at hstep
    cases hstep
    rfl

/-- A task that has been asked to stop does not wait. -/
theorem stopped_of_shutdown (hshutdown : s.shutdown = true) (hstep : s.step = none) : s.phase = .stopped := by
  cases waits_of_step_eq_none hstep with
  | publish _ _ hno | read _ hno | write _ _ hno | finish _ _ hno => rw [hshutdown] at hno; cases hno
  | stopped hphase => exact hphase

theorem Move.of_shutdown (h : Move s t events) (hshutdown : s.shutdown = true) :
    t.connection = s.connection ∧ t.inbound = s.inbound := by
  cases h with
  | start | pause | carve | reject | refuse | stop => exact ⟨rfl, rfl⟩
  | publish _ _ hno | take _ _ _ hno | readFault _ _ _ hno | readEnd _ _ hno | read _ _ _ hno
  | flushFault _ _ hno | flush _ _ hno | writeFault _ _ _ hno | write _ _ _ _ hno | finish _ _ hno =>
      rw [hshutdown] at hno
      cases hno

/-- What such a task does does not depend on its connection, and leaves it alone. -/
theorem step_connection (hshutdown : s.shutdown = true) (c : Connection) :
    step { s with connection := c } = s.step.map fun r => ({ r.1 with connection := c }, r.2) := by
  rw [step, step]
  cases hphase : s.phase with
  | starting | stopped => rfl
  | scanning => dsimp only; cases scan s.settings.maxMessageSize s.buffer <;> rfl
  | publishing | waiting | writing | failing => dsimp only; rw [if_pos hshutdown, if_pos hshutdown]; rfl

theorem settle_connection (hshutdown : s.shutdown = true) (c : Connection) :
    settle { s with connection := c } = ({ s.settle.1 with connection := c }, s.settle.2) := by
  fun_induction settle s with
  | case1 s hstep =>
      apply settle_of_step_eq_none
      rw [step_connection hshutdown, hstep]
      rfl
  | case2 s t told hstep last rest hsettle ih =>
      have hkept : t.shutdown = true := (move_of_step hstep).shutdown_eq.trans hshutdown
      have hnext : step { s with connection := c } = some ({ t with connection := c }, told) := by
        rw [step_connection hshutdown, hstep]
        rfl
      rw [settle_of_step hnext, ih hkept, hsettle]

/-- What happens between a request to stop at `s` and a later moment `t`: the task touches nothing, and
what is received was in the queue before. -/
structure Silent (s : Session) (more : Log) (t : Session) : Prop extends Untouched s more t where
  shutdown : t.shutdown = true
  inbound_eq : more.received ++ t.inbound = s.inbound

theorem Silent.move (h : Silent s more t) (hmove : Move t u events) : Silent s more u := by
  obtain ⟨hconnection, hinbound⟩ := hmove.of_shutdown h.shutdown
  exact ⟨h.toUntouched.move hconnection, hmove.shutdown_eq.trans h.shutdown, hinbound ▸ h.inbound_eq⟩

theorem Silent.deed (h : Silent s more t) (hdeed : Deed t entry u) : Silent s (more ++ [entry]) u := by
  refine ⟨h.toUntouched.deed hdeed, hdeed.shutdown_of_shutdown h.shutdown, ?_⟩
  rw [Log.received_append, List.append_assoc, hdeed.received_append_inbound, h.inbound_eq]

theorem Run.silent (hrun : Run s more t) (hshutdown : s.shutdown = true) : Silent s more t :=
  hrun.invariant ⟨untouched_refl s, hshutdown, rfl⟩ (fun h hmove => h.move hmove)
    (fun h hdeed => h.deed hdeed)

theorem Run.shutdown_of_signal (hrun : Run s log t) (hsignal : .signal ∈ log.map Prod.fst) :
    t.shutdown = true := by
  refine hrun.invariant (P := fun log t => .signal ∈ log.map Prod.fst → t.shutdown = true) ?_ ?_ ?_ hsignal
  · exact fun hmem => absurd hmem List.not_mem_nil
  · exact fun h hmove hmem => hmove.shutdown_eq.trans (h hmem)
  · intro log t entry u h hdeed hmem
    rw [List.map_append, List.mem_append] at hmem
    rcases hmem with hmem | hmem
    · exact hdeed.shutdown_of_shutdown (h hmem)
    · exact hdeed.shutdown_of_signal (List.mem_singleton.1 hmem).symm

theorem settle_stopped (hshutdown : s.shutdown = true) : s.settle.1.phase = .stopped :=
  stopped_of_shutdown (Run.refl.settle.silent hshutdown).shutdown (step_settle s)

theorem connection_settle (hshutdown : s.shutdown = true) : s.settle.1.connection = s.connection :=
  congrArg (fun r => r.1.connection) (settle_connection hshutdown s.connection)

/-- Wherever a session stands, a request to stop stops it: when the task runs next it ends, whatever
its connection has in store and without touching it, and hands over nothing. Whatever happens
meanwhile, it never reads, writes or hands over an item again, and nothing holds it up: no session
that has been asked to stop waits. -/
theorem Run.stopped_by_signal (hrun : Run { settings } log s) :
    (.signal ∈ log.map Prod.fst → s.step = none → s.phase = .stopped) ∧
      s.signal.settle.1.phase = .stopped ∧ s.signal.settle.1.connection = s.connection ∧
      s.signal.settle.1.inbound = s.inbound ∧
      (∀ c, Session.settle { s.signal with connection := c } =
        ({ s.signal.settle.1 with connection := c }, s.signal.settle.2)) ∧
      ∀ more t, Run s.signal more t → Silent s.signal more t ∧ t.settle.1.phase = .stopped := by
  have hsettled := (Run.refl (s := s.signal)).settle.silent rfl
  refine ⟨fun hsignal => stopped_of_shutdown (hrun.shutdown_of_signal hsignal), settle_stopped rfl,
    connection_settle rfl, hsettled.inbound_eq, settle_connection rfl, ?_⟩
  intro more t hmore
  have hsilent := hmore.silent rfl
  exact ⟨hsilent, settle_stopped hsilent.shutdown⟩

theorem Run.stopped_by_signal_in_stalled_write :
    ∃ log s, Run { settings := {} } log s ∧
      log.map Prod.fst = [.allow (some 2), .sendBytes [1, 2, 3, 4], .deliver (.chunk [0x60])] ∧
      s.phase = .writing [3, 4] ∧ s.step = none ∧ s.signal.settle.1.phase = .stopped ∧
      s.signal.settle.1.connection.written = [1, 2] ∧ s.signal.settle.1.connection.ahead = [.byte 0x60] ∧
      ∀ more t, Run s.signal more t → t.connection.written = [1, 2] := by
  have hsent := (Run.refl (s := { settings := {} })).act (.allow (some 2)) |>.act (.sendBytes [1, 2, 3, 4])
    |>.act (.deliver (.chunk [0x60]))
  have hstalled := hsent.step rfl |>.step rfl |>.step rfl |>.step rfl
  obtain ⟨-, hstopped, hconnection, -, -, hlater⟩ := hstalled.stopped_by_signal
  refine ⟨_, _, hstalled, rfl, rfl, rfl, hstopped, ?_, ?_, ?_⟩
  · rw [hconnection]
    rfl
  · rw [hconnection]
    rfl
  · exact fun more t hmore => (hlater more t hmore).1.written_eq

end PacketWatch.Session
