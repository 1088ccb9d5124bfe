import PacketWatch.Proofs.Session.Inbound

namespace PacketWatch

def packets (l : List Item) : List Packet := l.filterMap Except.toOption

def Incoming.isEnd : Incoming → Bool
  | chunk _ => false
  | _ => true

def CutEnd.error? : CutEnd → Option SessionError
  | fault e => some e
  | leftover _ => none

/-- The error behind the packets of a stream that ends in `ending`: what is wrong with its bytes
goes before what is wrong with the connection. -/
def lastError (why : CutEnd) (ending : Incoming) : SessionError :=
  match why, ending with
  | .fault e, _ => e
  | .leftover _, .broken reason => .io reason
  | .leftover n, _ => Session.closeError n

theorem packets_append (l m : List Item) : packets (l ++ m) = packets l ++ packets m := List.filterMap_append

theorem packets_map_ok (ps : List Packet) : packets (ps.map .ok) = ps := by
  rw [packets, List.filterMap_map]
  exact List.filterMap_some

theorem signals_append_inj {b c : Bytes} {i : Incoming} {x : Signal} {rest : List Signal}
    (hi : i.isEnd = true) (hx : x.byte? = none) (h : signals b ++ i.signals = signals c ++ x :: rest) :
    b = c ∧ i.signals = [x] ∧ rest = [] := by
  induction b generalizing c with
  | nil =>
      cases c with
      | nil =>
          cases i with
          | chunk b => cases hi
          | done => cases h; exact ⟨rfl, rfl, rfl⟩
          | broken reason => cases h; exact ⟨rfl, rfl, rfl⟩
      | cons y c =>
          cases i with
          | chunk b => cases hi
          | done => cases h
          | broken reason => cases h
  | cons y b ih =>
      cases c with
      | nil =>
          have hy := (List.cons.inj h).1
          rw [← hy] at hx
          cases hx
      | cons z c =>
          obtain ⟨hyz, h⟩ := List.cons.inj h
          obtain ⟨rfl, hsignals, hrest⟩ := ih h
          cases hyz
          exact ⟨rfl, hsignals, hrest⟩

theorem filterMap_signals_of_isEnd {i : Incoming} (hi : i.isEnd = true) :
    i.signals.filterMap Signal.byte? = [] := by
  cases i with
  | chunk b => cases hi
  | done => rfl
  | broken reason => rfl

theorem signals_append_ne {b c : Bytes} {i : Incoming} (hi : i.isEnd = true) :
    signals b ++ i.signals ≠ signals c := by
  intro h
  have hlen := congrArg List.length h
  have hbytes := congrArg (List.filterMap Signal.byte?) h
  rw [List.filterMap_append, filterMap_signals, filterMap_signals, filterMap_signals_of_isEnd hi,
    List.append_nil] at hbytes
  subst hbytes
  cases i with
  | chunk b => cases hi
  | done => simp [Incoming.signals] at hlen
  | broken reason => simp [Incoming.signals] at hlen

variable {max : Nat} {ps : List Packet} {b : Bytes} {i : Incoming} {rest : List Signal}

theorem Taken.cut_eq (h : Taken max (signals b ++ i.signals) ps rest) (hi : i.isEnd = true) : cut max b =
    (ps ++ (cut max (rest.filterMap Signal.byte?)).1, (cut max (rest.filterMap Signal.byte?)).2) := by
  have hcut := h.cut_filterMap
  rwa [List.filterMap_append, filterMap_signals, filterMap_signals_of_isEnd hi, List.append_nil] at hcut

theorem Taken.cut_of_leftover {c : Bytes} {x : Signal}
    (h : Taken max (signals b ++ i.signals) ps (signals c ++ x :: rest)) (hi : i.isEnd = true)
    (hx : x.byte? = none) (hleft : cut max c = ([], .leftover c.length)) :
    cut max b = (ps, .leftover c.length) ∧ i.signals = [x] := by
  have hcut := h.cut_eq hi
  obtain ⟨w, -, hw⟩ := h
  rw [← List.append_assoc, ← signals_append] at hw
  obtain ⟨-, hsignals, rfl⟩ := signals_append_inj hi hx hw
  have hbytes : (signals c ++ [x]).filterMap Signal.byte? = c := by
    rw [List.filterMap_append, filterMap_signals, ← hsignals, filterMap_signals_of_isEnd hi, List.append_nil]
  rw [hbytes, hleft, List.append_nil] at hcut
  exact ⟨hcut, hsignals⟩

theorem Cause.lastError_eq {log : Log} {e : SessionError} (h : Cause max log e rest)
    (hquiet : ¬ log.Disturbed) (htaken : Taken max (signals b ++ i.signals) ps rest) (hi : i.isEnd = true) :
    (cut max b).1 = ps ∧ lastError (cut max b).2 i = e := by
  cases h with
  | framing rest hframe =>
      rw [htaken.cut_eq hi, List.filterMap_append, filterMap_signals, hframe, List.append_nil]
      exact ⟨rfl, rfl⟩
  | closed rest hleft =>
      obtain ⟨hcut, hsignals⟩ := htaken.cut_of_leftover hi rfl hleft
      rw [hcut]
      cases i with
      | chunk b => cases hi
      | done => exact ⟨rfl, rfl⟩
      | broken reason => cases hsignals
  | broken rest hleft =>
      obtain ⟨hcut, hsignals⟩ := htaken.cut_of_leftover hi rfl hleft
      rw [hcut]
      cases i with
      | chunk b => cases hi
      | done => cases hsignals
      | broken reason =>
          cases hsignals
          exact ⟨rfl, rfl⟩
  | unwritten rest hdisturbed => exact absurd hdisturbed hquiet

/-- Only what is wrong with the bytes ends a session before its stream does. -/
theorem Cause.cut_of_signals {log : Log} {e : SessionError} (h : Cause max log e rest)
    (hquiet : ¬ log.Disturbed) (htaken : Taken max (signals b) ps rest) :
    cut max (rest.filterMap Signal.byte?) = ([], .fault e) := by
  have hbytes {c : Bytes} {x : Signal} {left : List Signal} (hx : x.byte? = none)
      (ht : Taken max (signals b) ps (signals c ++ x :: left)) : False := by
    obtain ⟨w, -, hw⟩ := ht
    have hmem : x ∈ signals b := by
      rw [hw]
      simp
    obtain ⟨y, -, rfl⟩ := List.mem_map.1 hmem
    cases hx
  cases h with
  | framing rest hframe => rw [List.filterMap_append, filterMap_signals, hframe]
  | closed rest => exact (hbytes rfl htaken).elim
  | broken rest => exact (hbytes rfl htaken).elim
  | unwritten rest hdisturbed => exact absurd hdisturbed hquiet

namespace Session

variable {settings : Settings} {log : Log} {s : Session}

theorem Account.packets_prefix (h : Account max log s) :
    packets (log.received ++ s.inbound) <+: (cut max log.fed).1 := by
  have htaken : ∃ ps rest, Taken max log.stream ps rest ∧ packets (items log s) <+: ps := by
    cases h with
    | @running ps _ htaken hitems =>
        have hps : packets (items log s) = ps := by rw [hitems, packets_map_ok]
        exact ⟨ps, _, htaken, hps ▸ List.prefix_rfl⟩
    | @ended ps e _ _ htaken _ hitems =>
        have hps : packets (items log s) = ps ++ packets [.error e] := by
          rw [hitems, packets_append, packets_map_ok]
        exact ⟨ps, _, htaken, (hps.trans (List.append_nil ps)) ▸ List.prefix_rfl⟩
    | cutShort _ _ htaken hitems =>
        refine ⟨_, _, htaken, ?_⟩
        have := hitems.filterMap Except.toOption
        rwa [← packets, ← packets, packets_map_ok] at this
  obtain ⟨ps, rest, htaken, hitems⟩ := htaken
  rw [items, packets_append] at hitems
  rw [← log.filterMap_stream, htaken.cut_filterMap]
  exact ((List.prefix_append _ _).trans hitems).trans (List.prefix_append _ _)

theorem inboundRoom_of_nil (h : s.inbound = []) : s.inboundRoom = true := by
  rw [inboundRoom, h, List.length_nil, decide_eq_true_iff]
  omega

/-- A write is held up only by a peer that takes no more bytes. -/
theorem phase_ne_writing (hstep : s.step = none) (hroom : s.connection.room ≠ some 0) (left : Bytes) :
    s.phase ≠ .writing left := by
  intro hphase
  cases waits_of_step_eq_none hstep with
  | write _ _ _ _ hwrite => exact hroom (Connection.room_of_write_wait hwrite)
  | publish _ h | read h | finish _ h | stopped h => rw [hphase] at h; cases h

theorem stopped_or_waiting (hstep : s.step = none) (hinbound : s.inbound = [])
    (hwriting : ∀ left, s.phase ≠ .writing left) :
    s.phase = .stopped ∨ s.phase = .waiting ∧ s.connection.ahead = [] := by
  have hroom := inboundRoom_of_nil hinbound
  cases waits_of_step_eq_none hstep with
  | publish _ _ _ hfull => rw [hroom] at hfull; cases hfull
  | read hphase _ _ hread => exact .inr ⟨hphase, Connection.ahead_of_read_wait hread⟩
  | write left hphase => exact absurd hphase (hwriting left)
  | finish _ _ _ hfull => rw [hroom] at hfull; cases hfull
  | stopped hphase => exact .inl hphase

theorem Sound.received_eq (h : Sound settings log s) (hstep : s.step = none) (hinbound : s.inbound = [])
    (hwriting : ∀ left, s.phase ≠ .writing left) (hquiet : ¬ log.Disturbed)
    (hstream : log.stream = signals b ++ i.signals) (hi : i.isEnd = true) :
    s.phase = .stopped ∧ log.received = (cut settings.maxMessageSize b).1.map .ok ++
      [.error (lastError (cut settings.maxMessageSize b).2 i)] := by
  rcases stopped_or_waiting hstep hinbound hwriting with hphase | ⟨hphase, hahead⟩
  · have hitems : items log s = log.received := by
      rw [items, hand, hphase, hinbound, List.append_nil, List.append_nil]
    cases h.account with
    | running hopen => rw [isOpen, hphase] at hopen; cases hopen
    | ended _ htaken hcause hps =>
        rw [hstream] at htaken
        obtain ⟨rfl, rfl⟩ := hcause.lastError_eq hquiet htaken hi
        exact ⟨hphase, hitems.symm.trans hps⟩
    | cutShort _ hdisturbed => exact absurd hdisturbed hquiet
  · -- The end of the stream is still to be read.
    obtain ⟨ps, ⟨c, -, hc⟩, -⟩ := h.account.of_isOpen (by rw [isOpen, hphase])
    rw [ahead, hahead, List.append_nil, ← signals_append, hstream] at hc
    exact absurd hc (signals_append_ne hi)

theorem Sound.received_eq_of_signals (h : Sound settings log s) (hstep : s.step = none)
    (hinbound : s.inbound = []) (hwriting : ∀ left, s.phase ≠ .writing left) (hquiet : ¬ log.Disturbed)
    (hstream : log.stream = signals b) :
    log.received = (cut settings.maxMessageSize b).1.map .ok ++
      (cut settings.maxMessageSize b).2.error?.toList.map .error := by
  have hitems (hhand : s.hand = []) : items log s = log.received := by
    rw [items, hhand, hinbound, List.append_nil, List.append_nil]
  have hbytes : log.stream.filterMap Signal.byte? = b := by rw [hstream, filterMap_signals]
  rcases stopped_or_waiting hstep hinbound hwriting with hphase | ⟨hphase, hahead⟩
  · cases h.account with
    | running hopen => rw [isOpen, hphase] at hopen; cases hopen
    | ended _ htaken hcause hps =>
        have hcut := htaken.cut_filterMap
        rw [hcause.cut_of_signals hquiet (hstream ▸ htaken), hbytes, List.append_nil] at hcut
        rw [hcut, ← hitems (by rw [hand, hphase]), hps]
        rfl
    | cutShort _ hdisturbed => exact absurd hdisturbed hquiet
  · obtain ⟨ps, htaken, hps⟩ := h.account.of_isOpen (by rw [isOpen, hphase])
    have hleft : s.ahead.filterMap Signal.byte? = s.buffer := by
      rw [ahead, hahead, List.append_nil, filterMap_signals]
    have hcut := htaken.cut_filterMap
    rw [hbytes, hleft, cut_of_incomplete (h.waiting hphase), List.append_nil] at hcut
    rw [hcut, ← hitems (by rw [hand, hphase]), hps]
    exact (List.append_nil _).symm

theorem receive_of_stopped (hphase : s.phase = .stopped) (hinbound : s.inbound = []) :
    s.receive.1 = .ended := by
  rw [receive, hinbound]
  simp [isStopped, hphase]

/-- Draining a session is a run that delivers nothing, and leaves it waiting with nothing to receive. -/
theorem Run.drained (hrun : Run { settings } log s) (hquiet : ¬ log.Disturbed) : ∃ log' : Log,
    Run { settings } log' s.settle.1.drain.2.1 ∧ log'.stream = log.stream ∧ ¬ log'.Disturbed ∧
      log'.received = log.received ++ s.settle.1.drain.1 ∧ s.settle.1.drain.2.1.step = none ∧
      s.settle.1.drain.2.1.inbound = [] := by
  obtain ⟨more, hmore, hreceived, honly, hstep, hinbound⟩ := hrun.settle.drain (step_settle s)
  refine ⟨log ++ more, hmore, ?_, ?_, ?_, hstep, hinbound⟩
  · rw [Log.stream, Log.delivered_append, Log.delivered_of_forall_receive honly, List.append_nil, ← Log.stream]
  · rw [Log.disturbed_append, not_or]
    exact ⟨hquiet, Log.not_disturbed_of_forall_receive honly⟩
  · rw [Log.received_append, hreceived]

/-- Draining a session behind the end of its stream gives all the packets that were left and one error. -/
theorem Run.received_drain (hbuffer : 1 ≤ settings.readBufferSize) (hrun : Run { settings } log s)
    (hstream : log.stream = signals b ++ i.signals) (hi : i.isEnd = true) (hquiet : ¬ log.Disturbed)
    (hwriting : ∀ left, s.settle.1.drain.2.1.phase ≠ .writing left) :
    log.received ++ s.settle.1.drain.1 = (cut settings.maxMessageSize b).1.map .ok ++
        [.error (lastError (cut settings.maxMessageSize b).2 i)] ∧
      s.settle.1.drain.2.1.receive.1 = .ended := by
  obtain ⟨log', hrun', hstream', hquiet', hreceived, hstep, hinbound⟩ := hrun.drained hquiet
  obtain ⟨hphase, hitems⟩ := (hrun'.sound hbuffer).received_eq hstep hinbound hwriting hquiet'
    (hstream'.trans hstream) hi
  exact ⟨hreceived.symm.trans hitems, receive_of_stopped hphase hinbound⟩

/-- Before the end of its stream, draining gives all the packets so far, and an error only if no frame
can follow them. -/
theorem Run.received_drain_of_signals (hbuffer : 1 ≤ settings.readBufferSize)
    (hrun : Run { settings } log s) (hstream : log.stream = signals b) (hquiet : ¬ log.Disturbed)
    (hwriting : ∀ left, s.settle.1.drain.2.1.phase ≠ .writing left) :
    log.received ++ s.settle.1.drain.1 = (cut settings.maxMessageSize b).1.map .ok ++
      (cut settings.maxMessageSize b).2.error?.toList.map .error := by
  obtain ⟨log', hrun', hstream', hquiet', hreceived, hstep, hinbound⟩ := hrun.drained hquiet
  exact hreceived.symm.trans <| (hrun'.sound hbuffer).received_eq_of_signals hstep hinbound hwriting hquiet'
    (hstream'.trans hstream)

theorem drain_ne_writing (hrun : Run { settings } log s) (hallow : ∀ e ∈ log, ∀ n, e.1 ≠ .allow n)
    (left : Bytes) : s.settle.1.drain.2.1.phase ≠ .writing left := by
  obtain ⟨more, hmore, -, honly, hstep, -⟩ := hrun.settle.drain (step_settle s)
  refine phase_ne_writing hstep ?_ left
  rw [hmore.room_eq_none rfl]
  · simp
  · intro e he n
    rcases List.mem_append.1 he with he | he
    · exact hallow e he n
    · rw [honly e he]
      exact Action.noConfusion

/-- A session gives its owner the packets of the stream in their order, whatever the chunks, the
capacities and the order of what happens; and when it has been drained behind the end of the stream,
all of them and one error. -/
theorem drain_eq_cut (hbuffer : 1 ≤ settings.readBufferSize) (hrun : Run { settings } log s) :
    packets (log.received ++ s.inbound) <+: (cut settings.maxMessageSize log.fed).1 ∧
      ∀ (chunks : List Bytes) (ending : Incoming), log.delivered = chunks.map .chunk ++ [ending] →
        ending.isEnd = true → ¬ log.Disturbed → (∀ left, s.settle.1.drain.2.1.phase ≠ .writing left) →
        log.received ++ s.settle.1.drain.1 = (cut settings.maxMessageSize chunks.flatten).1.map .ok ++
            [.error (lastError (cut settings.maxMessageSize chunks.flatten).2 ending)] ∧
          s.settle.1.drain.2.1.receive.1 = .ended := by
  refine ⟨(hrun.sound hbuffer).account.packets_prefix, ?_⟩
  intro chunks ending hdelivered hending hquiet hwriting
  refine hrun.received_drain hbuffer ?_ hending hquiet hwriting
  rw [Log.stream, hdelivered, List.flatMap_append, flatMap_signals_chunk, List.flatMap_singleton]

theorem drain_eq_cut_split_packet :
    let b : Bytes := [0x60, 0, 0, 0, 0, 0, 59, 1] ++ List.replicate 32 0
    let p : Packet := {
      nextHeader := 59, hopLimit := 1, source := default, destination := default
      extensions := [], payload := .raw 59 [] }
    ∃ log s, Run { settings := {} } log s ∧
      log.delivered = [.chunk (b.take 7), .chunk (b.drop 7), .done] ∧
      log.received ++ s.settle.1.drain.1 = [.ok p, .error .connectionClosed] := by
  intro b p
  have hframe : IsFrame 65575 b p := ⟨rfl, by decide +revert, by decide +kernel +revert⟩
  have hnil : cut 65575 [] = ([], .leftover 0) := cut_of_frameSize_none rfl
  have hcut : cut 65575 b = ([p], .leftover 0) := by
    have := hframe.cut_append []
    rwa [List.append_nil, hnil] at this
  have hrun := ((Run.refl (s := { settings := {} })).act (.deliver (.chunk (b.take 7)))).act
    (.deliver (.chunk (b.drop 7))) |>.act (.deliver .done)
  refine ⟨_, _, hrun, rfl, ?_⟩
  have hdrain := (drain_eq_cut (by decide) hrun).2 [b.take 7, b.drop 7] .done rfl rfl
    (by simp [Log.Disturbed, Action.disturbs]) (drain_ne_writing hrun (by simp))
  refine hdrain.1.trans ?_
  change ((cut 65575 b).1.map .ok ++ [.error (lastError (cut 65575 b).2 .done)] : List Item) = _
  rw [hcut]
  rfl

/-- A frame that is too large is refused as soon as its size is known, with most of it still missing. -/
theorem drain_oversized_beginning :
    let b : Bytes := [0x60, 0, 0, 0, 0, 11, 58, 64]
    frameSize? b = .ok (some 51) ∧ b.length = 8 ∧
      ∃ log s, Run { settings := { maxMessageSize := 48 } } log s ∧ log.delivered = [.chunk b, .done] ∧
        ¬ log.Disturbed ∧ log.received ++ s.settle.1.drain.1 = [.error (.messageTooLarge 51 48)] ∧
        log.received ++ s.settle.1.drain.1 ≠ [.error (.unexpectedEnd 8)] := by
  intro b
  have hcut : cut 48 b = ([], .fault (.messageTooLarge 51 48)) := by
    rw [cut_of_frameSize (n := 51) rfl]
    rfl
  have hrun := ((Run.refl (s := { settings := { maxMessageSize := 48 } })).act (.deliver (.chunk b))).act
    (.deliver .done)
  have hquiet : ¬ Log.Disturbed [(.deliver (.chunk b), .nothing), (.deliver .done, .nothing)] := by
    simp [Log.Disturbed, Action.disturbs]
  have hdrain := (hrun.received_drain (b := b) (i := .done) (by decide) rfl rfl hquiet
    (drain_ne_writing hrun (by simp))).1
  change _ = ((cut 48 b).1.map .ok ++ [.error (lastError (cut 48 b).2 .done)] : List Item) at hdrain
  rw [hcut] at hdrain
  refine ⟨rfl, rfl, _, _, hrun, rfl, hquiet, hdrain, ?_⟩
  rw [hdrain]
  simp [lastError]

end Session

end PacketWatch
