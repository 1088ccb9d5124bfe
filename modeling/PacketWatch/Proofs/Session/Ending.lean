import PacketWatch.Proofs.Session.Delivery

namespace PacketWatch

def SessionError.endsSession : SessionError → Bool
  | io _ | connectionClosed | unexpectedEnd _ | decode _ | messageTooLarge _ _ => true
  | encode _ | closed => false

inductive ErrorLast : List Item → Prop
  | packets (ps : List Packet) : ErrorLast (ps.map .ok)
  | error (ps : List Packet) (e : SessionError) (he : e.endsSession = true) :
      ErrorLast (ps.map .ok ++ [.error e])

theorem ErrorLast.of_isPrefix {l m : List Item} (h : ErrorLast m) (hlm : l <+: m) : ErrorLast l := by
  have hpackets {ps : List Packet} (hps : l <+: ps.map .ok) : ErrorLast l := by
    rw [List.prefix_iff_eq_take.1 hps, ← List.map_take]
    exact .packets _
  cases h with
  | packets ps => exact hpackets hlm
  | error ps e he =>
      rcases List.prefix_concat_iff.1 hlm with rfl | hps
      · exact .error ps e he
      · exact hpackets hps

namespace Session

variable {settings : Settings} {log more : Log} {s t : Session} {entry : Action × Response}

theorem endsSession_closeError (buffered : Nat) : (closeError buffered).endsSession = true := by
  rw [closeError]
  split <;> rfl

theorem endsSession_of_scan {limit : Nat} {b : Bytes} {e : SessionError} (h : scan limit b = .fault e) :
    e.endsSession = true := by
  unfold scan at h
  split at h
  · cases h; rfl
  · cases h
  · split at h
    · cases h; rfl
    · split at h
      · cases h
      · split at h <;> cases h

inductive Ordered (log : Log) (s : Session) : Prop
  | open (ps : List Packet) (hfailing : ∀ e, s.phase = .failing e → e.endsSession = true)
      (hitems : log.received ++ s.inbound = ps.map .ok)
  | ended (ps : List Packet) (e : SessionError) (hphase : s.phase = .stopped)
      (he : e.endsSession = true) (hitems : log.received ++ s.inbound = ps.map .ok ++ [.error e])

theorem Ordered.move {events : List Event} (h : Ordered log s) (hmove : Move s t events) : Ordered log t := by
  cases h with
  | ended _ _ hphase => exact absurd hphase hmove.phase_ne_stopped
  | «open» ps hfailing hitems =>
      have hfail {e : SessionError} (he : e.endsSession = true) {u : Session} (hphase : u.phase = .failing e)
          (hinbound : u.inbound = s.inbound) : Ordered log u := by
        refine .open ps (fun e' he' => ?_) (hinbound ▸ hitems)
        rw [hphase] at he'
        cases he'
        exact he
      cases hmove with
      | reject | readFault | flushFault | writeFault => exact hfail rfl rfl rfl
      | refuse e _ hscan => exact hfail (endsSession_of_scan hscan) rfl rfl
      | readEnd => exact hfail (endsSession_closeError _) rfl rfl
      | publish p =>
          refine .open (ps ++ [p]) (fun e => Phase.noConfusion) ?_
          rw [List.map_append, ← hitems, List.append_assoc]
          rfl
      | finish e hphase =>
          refine .ended ps e rfl (hfailing e hphase) ?_
          rw [← hitems, List.append_assoc]
          rfl
      | start | pause | carve | take | read | flush | write | stop =>
          exact .open ps (fun e => Phase.noConfusion) hitems

theorem Ordered.deed (h : Ordered log s) (hdeed : Deed s entry t) : Ordered (log ++ [entry]) t := by
  have hkept : Log.received (log ++ [entry]) ++ t.inbound = log.received ++ s.inbound := by
    rw [Log.received_append, List.append_assoc, hdeed.received_append_inbound]
  cases h with
  | «open» ps hfailing hitems =>
      refine .open ps (fun e he => ?_) (hkept.trans hitems)
      rcases hdeed.phase with hphase | hphase
      · exact hfailing e (hphase ▸ he)
      · rw [hphase] at he; cases he
  | ended ps e hphase he hitems => exact .ended ps e (hdeed.stopped hphase) he (hkept.trans hitems)

theorem Run.ordered (hrun : Run { settings } log s) : Ordered log s :=
  hrun.invariant (.open [] (fun _ => Phase.noConfusion) rfl) Ordered.move Ordered.deed

theorem Ordered.errorLast (h : Ordered log s) : ErrorLast (log.received ++ s.inbound) := by
  cases h with
  | «open» ps _ hitems => exact hitems ▸ .packets ps
  | ended ps e _ he hitems => exact hitems ▸ .error ps e he

/-- Once the error has been received, nothing is left. -/
theorem Ordered.stopped_of_error {e : SessionError} (h : Ordered log s) (he : .error e ∈ log.received) :
    s.phase = .stopped ∧ s.inbound = [] := by
  have hnone (ps : List Packet) : (.error e : Item) ∉ ps.map .ok := by simp
  cases h with
  | «open» ps _ hitems => exact absurd (hitems ▸ List.mem_append_left _ he) (hnone ps)
  | ended ps e' hphase _ hitems =>
      refine ⟨hphase, ?_⟩
      rcases List.eq_nil_or_concat s.inbound with hnil | ⟨init, i, hinbound⟩
      · exact hnil
      · rw [hinbound, List.concat_eq_append, ← List.append_assoc] at hitems
        exact absurd ((List.append_inj_left' hitems rfl) ▸ List.mem_append_left _ he) (hnone ps)

/-- A stopped session with nothing left to receive stays so. -/
theorem Run.receive_eq_ended (hrun : Run s more t) (hphase : s.phase = .stopped) (hinbound : s.inbound = []) :
    t.receive = (.ended, t) := by
  have hstill : t.phase = .stopped ∧ t.inbound = [] := by
    refine hrun.invariant (P := fun _ t => t.phase = .stopped ∧ t.inbound = []) ⟨hphase, hinbound⟩ ?_ ?_
    · exact fun h hmove => absurd h.1 hmove.phase_ne_stopped
    · intro log t entry u h hdeed
      have hkept := hdeed.received_append_inbound
      rw [h.2] at hkept
      exact ⟨hdeed.stopped h.1, (List.append_eq_nil_iff.1 hkept).2⟩
  simp [receive, isStopped, hstill]

/-- What a session that is no longer open at `s` has done when it is at `t`: it has left its connection
alone, has handed over no more packets and refuses what is sent. -/
structure Released (s : Session) (more : Log) (t : Session) : Prop where
  isOpen_eq_false : t.isOpen = false
  /-- What was there to be read is still there, and so is what has arrived since. -/
  ahead_eq : t.connection.ahead = s.connection.ahead ++ more.stream
  written_eq : t.connection.written = s.connection.written
  flushed_eq : t.connection.flushed = s.connection.flushed
  packets_eq : packets (more.received ++ t.inbound) = packets s.inbound
  refuses : ∀ a b, a.offered? = some b → t.act a = (.sent (.refused .closed), t)

theorem act_of_not_isOpen (hclosed : s.isOpen = false) (a : Action) (b : Bytes) (hb : a.offered? = some b) :
    s.act a = (.sent (.refused .closed), s) := by
  have hsend (b : Bytes) : s.sendBytes b = (.refused .closed, s) := by
    simp [sendBytes, hclosed]
  cases a with
  | sendBytes c => rw [act, hsend]
  | send p =>
      cases hencode : encode p with
      | ok c => simp [act, Session.send, hencode, hsend]
      | error e => rw [Action.offered?, hencode] at hb; cases hb
  | _ => cases hb

/-- All that such a task still does is to hand over the error, or to stop. -/
theorem Move.of_not_isOpen {events : List Event} (h : Move s t events) (hclosed : s.isOpen = false) :
    t.isOpen = false ∧ t.connection = s.connection ∧ packets t.inbound = packets s.inbound := by
  cases h with
  | finish e =>
      refine ⟨rfl, rfl, ?_⟩
      rw [Session.stop, packets_append]
      exact List.append_nil _
  | stop => exact ⟨rfl, rfl, rfl⟩
  | start h | pause h | carve _ _ h | reject _ _ h | refuse _ h | publish _ h | take _ _ h | readFault _ _ h
  | readEnd _ h | read _ _ h | flushFault _ h | flush _ h | writeFault _ _ h | write _ _ _ h =>
      rw [isOpen, h] at hclosed
      cases hclosed

theorem Deed.isOpen_eq_false (h : Deed s entry t) (hclosed : s.isOpen = false) : t.isOpen = false := by
  rcases h.phase with hphase | hphase
  · rwa [isOpen, hphase]
  · rw [isOpen, hphase]

theorem Released.untouched (h : Released s more t) : Untouched s more t :=
  ⟨h.ahead_eq, h.written_eq, h.flushed_eq⟩

theorem Released.move {events : List Event} {u : Session} (h : Released s more t) (hmove : Move t u events) :
    Released s more u := by
  obtain ⟨hclosed, hconnection, hinbound⟩ := hmove.of_not_isOpen h.isOpen_eq_false
  obtain ⟨hahead, hwritten, hflushed⟩ := h.untouched.move hconnection
  refine ⟨hclosed, hahead, hwritten, hflushed, ?_, act_of_not_isOpen hclosed⟩
  rw [packets_append, hinbound, ← packets_append, h.packets_eq]

theorem Released.deed {u : Session} (h : Released s more t) (hdeed : Deed t entry u) :
    Released s (more ++ [entry]) u := by
  have hclosed := hdeed.isOpen_eq_false h.isOpen_eq_false
  obtain ⟨hahead, hwritten, hflushed⟩ := h.untouched.deed hdeed
  refine ⟨hclosed, hahead, hwritten, hflushed, ?_, act_of_not_isOpen hclosed⟩
  rw [Log.received_append, List.append_assoc, hdeed.received_append_inbound, h.packets_eq]

theorem Run.released (hrun : Run s more t) (hclosed : s.isOpen = false) : Released s more t :=
  hrun.invariant ⟨hclosed, (List.append_nil _).symm, rfl, rfl, rfl, act_of_not_isOpen hclosed⟩
    (fun h hmove => h.move hmove) (fun h hdeed => h.deed hdeed)

/-- What is received are packets and at most one error behind them, which tells how the connection or
what it carried ended the session; behind it there is nothing to be received for ever. A session that
is done with its connection neither reads nor writes any more, hands over no more packets and refuses
what is sent. -/
theorem Run.error_last (hrun : Run { settings } log s) :
    ErrorLast (log.received ++ s.inbound) ∧ ErrorLast log.received ∧
      (∀ e, .error e ∈ log.received → ∀ more t, Run s more t → t.receive = (.ended, t)) ∧
      (s.isOpen = false → ∀ more t, Run s more t → Released s more t) := by
  refine ⟨hrun.ordered.errorLast, hrun.ordered.errorLast.of_isPrefix (List.prefix_append _ _), ?_, ?_⟩
  · intro e he more t hmore
    obtain ⟨hphase, hinbound⟩ := hrun.ordered.stopped_of_error he
    exact hmore.receive_eq_ended hphase hinbound
  · exact fun hclosed more t hmore => hmore.released hclosed

theorem Run.error_last_bad_version :
    ∃ log s, Run { settings := {} } log s ∧
      log.map Prod.fst = [.deliver (.chunk [0x10]), .sendBytes [1], .receive, .deliver .done] ∧
      ErrorLast log.received ∧ log.received = [.error (.decode (.invalidVersion 1))] ∧
      s.receive = (.ended, s) ∧ s.connection.ahead = [.done] ∧
      s.act (.sendBytes [2]) = (.sent (.refused .closed), s) := by
  have hstart : Run { settings := {} } [] { settings := {} } := .refl
  have hsent := (hstart.act (.deliver (.chunk [0x10]))).act (.sendBytes [1])
  have hwritten := hsent.step rfl |>.step rfl |>.step rfl |>.step rfl |>.step rfl |>.step rfl
  have hfailing := hwritten.step rfl |>.step rfl
  have hended := (hfailing.step rfl).act .receive
  obtain ⟨-, herrorLast, hreceive, hreleased⟩ := hended.error_last
  have hlater := hreleased rfl _ _ (Run.refl.act (.deliver .done))
  exact ⟨_, _, hended.act (.deliver .done), rfl, herrorLast, rfl,
    hreceive _ List.mem_cons_self _ _ (Run.refl.act (.deliver .done)), hlater.ahead_eq,
    hlater.refuses (.sendBytes [2]) [2] rfl⟩

end Session

end PacketWatch
