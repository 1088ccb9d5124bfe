import PacketWatch.Proofs.Session.Ending

namespace PacketWatch

def SessionError.isClose : SessionError → Bool
  | connectionClosed | unexpectedEnd _ => true
  | _ => false

namespace Session

variable {settings : Settings} {log : Log} {s t : Session} {e : SessionError} {entry : Action × Response}
  {events : List Event}

/-- The end of the stream is what a reader meets next: every byte in front of it has been read. -/
def AtEnd (log : Log) (s : Session) : Prop :=
  ∃ (b : Bytes) (later : List Signal), log.stream = signals b ++ .done :: later ∧
    s.connection.ahead = .done :: later

theorem AtEnd.move (h : AtEnd log s) (hconnection : t.connection = s.connection) : AtEnd log t := by
  obtain ⟨b, later, hstream, hahead⟩ := h
  exact ⟨b, later, hstream, hconnection ▸ hahead⟩

theorem AtEnd.deed (h : AtEnd log s) (hdeed : Deed s entry t) : AtEnd (log ++ [entry]) t := by
  obtain ⟨b, later, hstream, hahead⟩ := h
  refine ⟨b, later ++ Log.stream [entry], ?_, ?_⟩
  · rw [Log.stream_append, hstream, List.append_assoc, List.cons_append]
  · rw [hdeed.ahead_eq, hahead, List.cons_append]

theorem isClose_of_scan {limit : Nat} {b : Bytes} (h : scan limit b = .fault e) : e.isClose = false := by
  unfold scan at h
  split at h
  · cases h; rfl
  · cases h
  · split at h
    · cases h; rfl
    · split at h
      · cases h
      · split at h <;> cases h

/-- A session with an error to hand over is done with its connection. -/
theorem Account.isOpen_of_error {max : Nat} (h : Account max log s) (he : .error e ∈ items log s) :
    s.isOpen = false := by
  cases h with
  | running _ _ hitems =>
      rw [hitems] at he
      simp at he
  | ended hopen => exact hopen
  | cutShort hphase => rw [isOpen, hphase]

/-- A close comes up only where a read has given no bytes. -/
theorem Move.close_mem_items (h : Move s t events) (hclose : e.isClose = true)
    (he : .error e ∈ items log t) : .error e ∈ items log s ∨
      s.isOpen = true ∧ s.connection.read s.settings.readBufferSize = .data [] t.connection := by
  have hfail {e' : SessionError} (hother : e'.isClose = false) (hhand : t.hand = [.error e'])
      (hinbound : t.inbound = s.inbound) : .error e ∈ items log s := by
    rw [items, hhand, hinbound, List.mem_append] at he
    rcases he with he | he
    · exact List.mem_append_left _ he
    · cases List.mem_singleton.1 he
      rw [hclose] at hother
      cases hother
  have hkeep (hitems : .error e ∈ log.received ++ s.inbound) : .error e ∈ items log s :=
    List.mem_append_left _ hitems
  cases h with
  | readEnd c hphase _ _ hread => exact .inr ⟨by rw [isOpen, hphase], hread⟩
  | reject | readFault | flushFault | writeFault => exact .inl (hfail rfl rfl rfl)
  | refuse e' _ hscan => exact .inl (hfail (isClose_of_scan hscan) rfl rfl)
  | finish e' hphase =>
      refine .inl ?_
      rw [items, hand, hphase]
      simpa [items, hand, Session.stop] using he
  | start | pause | carve | publish | take | read | flush | write | stop =>
      refine .inl (hkeep ?_)
      simpa [items, hand, Session.stop] using he

theorem Deed.error_mem_items (h : Deed s entry t) (he : .error e ∈ items (log ++ [entry]) t) :
    .error e ∈ items log s := by
  rw [items, Log.received_append, List.append_assoc log.received, h.received_append_inbound] at he
  rcases h.phase with hphase | hphase
  · rwa [hand, hphase] at he
  · rw [hand, hphase, List.append_nil] at he
    exact List.mem_append_left _ he

theorem Sound.atEnd_of_read_nil (h : Sound settings log s) (hbuffer : 1 ≤ settings.readBufferSize)
    (hopen : s.isOpen = true) (hread : s.connection.read s.settings.readBufferSize = .data [] t.connection) :
    AtEnd log t := by
  rw [h.settings_eq] at hread
  obtain ⟨⟨later, hahead⟩, hsame⟩ := Connection.ahead_of_read_nil h.tidy hbuffer hread
  obtain ⟨ps, ⟨b, -, hstream⟩, -⟩ := h.account.of_isOpen hopen
  refine ⟨b ++ s.buffer, later, ?_, by rw [hsame, hahead]⟩
  rw [hstream, ahead, hahead, signals_append, List.append_assoc]

theorem Run.atEnd (hbuffer : 1 ≤ settings.readBufferSize) (hrun : Run { settings } log s)
    (hclose : e.isClose = true) (he : .error e ∈ items log s) : AtEnd log s := by
  have hinvariant : Sound settings log s ∧ ∀ e, e.isClose = true → .error e ∈ items log s → AtEnd log s := by
    refine hrun.invariant (P := fun log s => Sound settings log s ∧
      ∀ e, e.isClose = true → .error e ∈ items log s → AtEnd log s) ⟨sound_start settings, ?_⟩ ?_ ?_
    · intro e _ he
      cases he
    · rintro log t u events ⟨hsound, hend⟩ hmove
      refine ⟨hsound.move hbuffer hmove, fun e hclose he => ?_⟩
      rcases hmove.close_mem_items hclose he with hbefore | ⟨hopen, hread⟩
      · have hclosed := hsound.account.isOpen_of_error hbefore
        exact (hend e hclose hbefore).move (hmove.of_not_isOpen hclosed).2.1
      · exact hsound.atEnd_of_read_nil hbuffer hopen hread
    · rintro log t entry u ⟨hsound, hend⟩ hdeed
      exact ⟨hsound.deed hdeed, fun e hclose he => (hend e hclose (hdeed.error_mem_items he)).deed hdeed⟩
  exact hinvariant.2 e hclose he

/-- With no room to read into, the first read looks like the end of the stream. -/
theorem exists_run_closed (hbuffer : settings.readBufferSize = 0) (x : UInt8) (b : Bytes) :
    ∃ log s, Run { settings } log s ∧ log.delivered = [.chunk (x :: b)] ∧
      log.received = [.error .connectionClosed] ∧ s.connection.incoming = [.chunk (x :: b)] := by
  let c : Connection := { incoming := [.chunk (x :: b)] }
  have hstart : Run { settings } [] { settings } := .refl
  have hwaiting : Run { settings } [(.deliver (.chunk (x :: b)), .nothing)]
      { settings, connection := c, phase := .waiting } :=
    ((hstart.act (.deliver (.chunk (x :: b)))).step rfl).step rfl
  have hread : c.read settings.readBufferSize = .data [] c := by
    rw [hbuffer]
    rfl
  have hfail : step { settings, connection := c, phase := .waiting } =
      some ({ settings, connection := c, phase := .failing .connectionClosed },
        [.connectionClosed, .failed .connectionClosed]) := by
    simp [step, hread, fail]
  have hroom : 0 < max settings.inboundCapacity 1 := by omega
  have hstop : step { settings, connection := c, phase := .failing .connectionClosed } =
      some ({ settings, connection := c, phase := .stopped, inbound := [.error .connectionClosed] },
        [.ended]) := by
    simp [step, Session.stop, inboundRoom, hroom]
  exact ⟨_, _, ((hwaiting.step hfail).step hstop).act .receive, rfl, rfl, rfl⟩

/-- A session tells that the connection was closed only behind the end of its stream, however it is
dealt with: just if it has room to read into. -/
theorem close_only_atEnd_iff :
    (∀ log s e, Run { settings } log s → e.isClose = true → .error e ∈ log.received → AtEnd log s) ↔
      1 ≤ settings.readBufferSize := by
  constructor
  · intro h
    by_contra hbuffer
    obtain ⟨log, s, hrun, hdelivered, hreceived, -⟩ := exists_run_closed (Nat.eq_zero_of_not_pos hbuffer) 0x60 []
    obtain ⟨b, later, hstream, -⟩ := h log s .connectionClosed hrun rfl (by rw [hreceived]; simp)
    rw [Log.stream, hdelivered] at hstream
    have hmem : Signal.done ∈ signals [0x60] := by
      change signals [0x60] = _ at hstream
      rw [hstream]
      simp
    simp [signals] at hmem
  · intro hbuffer log s e hrun hclose he
    exact hrun.atEnd hbuffer hclose (List.mem_append_left _ (List.mem_append_left _ he))

/-- The bytes that arrived are left unread, and the connection is said to be closed. -/
theorem closed_with_unread_bytes :
    ∃ log s, Run { settings := { readBufferSize := 0 } } log s ∧ log.delivered = [.chunk [0x60]] ∧
      log.received = [.error .connectionClosed] ∧ s.connection.unread = 1 := by
  obtain ⟨log, s, hrun, hdelivered, hreceived, hincoming⟩ :=
    exists_run_closed (rfl : { readBufferSize := 0 : Settings }.readBufferSize = 0) 0x60 []
  refine ⟨log, s, hrun, hdelivered, hreceived, ?_⟩
  rw [Connection.unread, hincoming]
  rfl

end Session

end PacketWatch
