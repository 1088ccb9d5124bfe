import PacketWatch.Proofs.Framing.Cut
import PacketWatch.Proofs.Session.Kept
import PacketWatch.Proofs.Session.Run

namespace PacketWatch

def Taken (max : Nat) (l : List Signal) (ps : List Packet) (rest : List Signal) : Prop :=
  ∃ b, Framed max b ps ∧ l = signals b ++ rest

inductive Cause (max : Nat) (log : Log) : SessionError → List Signal → Prop
  | framing {b : Bytes} {e : SessionError} (rest : List Signal)
      (h : ∀ c, cut max (b ++ c) = ([], .fault e)) : Cause max log e (signals b ++ rest)
  | closed {b : Bytes} (rest : List Signal) (h : cut max b = ([], .leftover b.length)) :
      Cause max log (Session.closeError b.length) (signals b ++ .done :: rest)
  | broken {b : Bytes} {reason : String} (rest : List Signal) (h : cut max b = ([], .leftover b.length)) :
      Cause max log (.io reason) (signals b ++ .broken reason :: rest)
  | unwritten {reason : String} (rest : List Signal) (h : log.Disturbed) : Cause max log (.io reason) rest

variable {max : Nat} {l rest : List Signal} {ps : List Packet} {p : Packet} {log : Log}
  {e : SessionError}

theorem Taken.append (h : Taken max l ps rest) (more : List Signal) :
    Taken max (l ++ more) ps (rest ++ more) := by
  obtain ⟨b, hb, rfl⟩ := h
  exact ⟨b, hb, List.append_assoc _ _ _⟩

theorem Taken.snoc {f : Bytes} (h : Taken max l ps (signals f ++ rest)) (hf : IsFrame max f p) :
    Taken max l (ps ++ [p]) rest := by
  obtain ⟨b, hb, rfl⟩ := h
  exact ⟨b ++ f, hb.snoc hf, by rw [signals_append, List.append_assoc]⟩

theorem Taken.cut_filterMap (h : Taken max l ps rest) : cut max (l.filterMap Signal.byte?) =
    (ps ++ (cut max (rest.filterMap Signal.byte?)).1, (cut max (rest.filterMap Signal.byte?)).2) := by
  obtain ⟨b, hb, rfl⟩ := h
  rw [List.filterMap_append, filterMap_signals, hb.cut_append]

theorem Cause.append (h : Cause max log e rest) (more : List Signal) :
    Cause max log e (rest ++ more) := by
  cases h with
  | framing rest h => rw [List.append_assoc]; exact .framing _ h
  | closed rest h => rw [List.append_assoc]; exact .closed _ h
  | broken rest h => rw [List.append_assoc]; exact .broken _ h
  | unwritten rest h => exact .unwritten _ h

theorem Cause.log_append (h : Cause max log e rest) (later : Log) : Cause max (log ++ later) e rest := by
  cases h with
  | framing rest h => exact .framing _ h
  | closed rest h => exact .closed _ h
  | broken rest h => exact .broken _ h
  | unwritten rest h => exact .unwritten _ ((Log.disturbed_append _ _).2 (.inl h))

namespace Session

def hand (s : Session) : List Item :=
  match s.phase with
  | .publishing p => [.ok p]
  | .failing e => [.error e]
  | _ => []

def ahead (s : Session) : List Signal := signals s.buffer ++ s.connection.ahead

/-- Every item that the owner has received or can still receive as things stand. -/
def items (log : Log) (s : Session) : List Item := log.received ++ s.inbound ++ s.hand

inductive Account (max : Nat) (log : Log) (s : Session) : Prop
  | running {ps : List Packet} (hopen : s.isOpen = true) (htaken : Taken max log.stream ps s.ahead)
      (hitems : items log s = ps.map .ok)
  | ended {ps : List Packet} {e : SessionError} {rest : List Signal} (hopen : s.isOpen = false)
      (htaken : Taken max log.stream ps rest) (hcause : Cause max log e rest)
      (hitems : items log s = ps.map .ok ++ [.error e])
  | cutShort {ps : List Packet} {rest : List Signal} (hphase : s.phase = .stopped)
      (hdisturbed : log.Disturbed) (htaken : Taken max log.stream ps rest)
      (hitems : items log s <+: ps.map .ok)

structure Sound (settings : Settings) (log : Log) (s : Session) : Prop where
  settings_eq : s.settings = settings
  tidy : s.connection.Tidy
  faulty : s.connection.Faulty → log.Disturbed
  shutdown : s.shutdown = true → log.Disturbed
  waiting : s.phase = .waiting → scan settings.maxMessageSize s.buffer = .incomplete
  account : Account settings.maxMessageSize log s

variable {settings : Settings} {s t : Session}

theorem Account.of_isOpen (h : Account max log s) (hopen : s.isOpen = true) :
    ∃ ps, Taken max log.stream ps s.ahead ∧ items log s = ps.map .ok := by
  cases h with
  | running _ htaken hitems => exact ⟨_, htaken, hitems⟩
  | ended hclosed => rw [hopen] at hclosed; cases hclosed
  | cutShort hphase => rw [isOpen, hphase] at hopen; cases hopen

theorem Account.keep (h : Account max log s) (hopen : s.isOpen = true) (hopen' : t.isOpen = true)
    (hahead : t.ahead = s.ahead) (hitems : items log t = items log s) : Account max log t := by
  obtain ⟨ps, htaken, hps⟩ := h.of_isOpen hopen
  refine .running hopen' ?_ (hitems.trans hps)
  rwa [hahead]

theorem Account.fail (h : Account max log s) (hopen : s.isOpen = true) (hhand : s.hand = [])
    (hphase : t.phase = .failing e) (hinbound : t.inbound = s.inbound) (hcause : Cause max log e s.ahead) :
    Account max log t := by
  obtain ⟨ps, htaken, hps⟩ := h.of_isOpen hopen
  have hopen' : t.isOpen = false := by rw [isOpen, hphase]
  have hitems : items log t = items log s ++ [.error e] := by
    rw [items, items, hinbound, hhand, hand, hphase, List.append_nil]
  exact .ended hopen' htaken hcause (by rw [hitems, hps])

/-- Without the item in hand there is an error only when the task has stopped. -/
theorem Account.stop (h : Account max log s) (hphase : s.phase ≠ .stopped) (hphase' : t.phase = .stopped)
    (hinbound : t.inbound = s.inbound) (hdisturbed : log.Disturbed) : Account max log t := by
  have hitems : items log t = log.received ++ s.inbound := by
    rw [items, hinbound, hand, hphase', List.append_nil]
  cases h with
  | running _ htaken hps =>
      refine .cutShort hphase' hdisturbed htaken ?_
      rw [hitems, ← hps, items]
      exact List.prefix_append _ _
  | ended hclosed htaken _ hps =>
      refine .cutShort hphase' hdisturbed htaken ?_
      cases hp : s.phase with
      | failing e =>
          rw [items, hand, hp] at hps
          exact (hitems.trans (List.append_inj_left' hps rfl)) ▸ List.prefix_rfl
      | stopped => exact absurd hp hphase
      | _ => rw [isOpen, hp] at hclosed; cases hclosed
  | cutShort hp => exact absurd hp hphase

theorem Account.move (hbuffer : 1 ≤ settings.readBufferSize) {events : List Event} (h : Sound settings log s)
    (hmove : Move s t events) : Account settings.maxMessageSize log t := by
  obtain ⟨rfl, htidy, hfaulty, hshut, hwaiting, haccount⟩ := h
  cases hmove with
  | start hphase | pause hphase | publish _ hphase | take _ _ hphase =>
      exact haccount.keep (by rw [isOpen, hphase]) rfl rfl (by simp [items, hand, hphase])
  | carve p n hphase hscan =>
      obtain ⟨ps, htaken, hps⟩ := haccount.of_isOpen (by rw [isOpen, hphase])
      have hsplit : s.ahead =
          signals (s.buffer.take n) ++ (signals (s.buffer.drop n) ++ s.connection.ahead) := by
        rw [← List.append_assoc, ← signals_append, List.take_append_drop, ahead]
      rw [hsplit] at htaken
      refine .running rfl (htaken.snoc (isFrame_of_scan hscan)) ?_
      rw [items, hand, hphase, List.append_nil] at hps
      simp [items, hand, hps]
  | reject e n hphase hscan =>
      exact haccount.fail (by rw [isOpen, hphase]) (by rw [hand, hphase]) rfl rfl
        (.framing _ (cut_of_badFrame hscan))
  | refuse e hphase hscan =>
      exact haccount.fail (by rw [isOpen, hphase]) (by rw [hand, hphase]) rfl rfl
        (.framing _ (cut_of_fault hscan))
  | readFault reason c hphase hshutdown houtbound hread =>
      refine haccount.fail (by rw [isOpen, hphase]) (by rw [hand, hphase]) rfl rfl ?_
      rw [ahead, Connection.ahead_of_read_fault hread]
      exact .broken _ (cut_of_incomplete (hwaiting hphase))
  | readEnd c hphase hshutdown houtbound hread =>
      refine haccount.fail (by rw [isOpen, hphase]) (by rw [hand, hphase]) rfl rfl ?_
      obtain ⟨⟨rest, hrest⟩, -⟩ := Connection.ahead_of_read_nil htidy hbuffer hread
      rw [ahead, hrest]
      exact .closed _ (cut_of_incomplete (hwaiting hphase))
  | read b c hphase hshutdown houtbound hb hread =>
      refine haccount.keep (by rw [isOpen, hphase]) rfl ?_ ?_
      · rw [ahead, ahead, Connection.ahead_of_read hread hb, signals_append, List.append_assoc]
      · simp [items, hand, hphase]
  | flushFault reason hphase hshutdown hflush =>
      exact haccount.fail (by rw [isOpen, hphase]) (by rw [hand, hphase]) rfl rfl
        (.unwritten _ (hfaulty (Connection.faulty_of_flush hflush)))
  | flush c hphase hshutdown hflush =>
      obtain rfl := Connection.eq_of_flush hflush
      exact haccount.keep (by rw [isOpen, hphase]) rfl rfl (by simp [items, hand, hphase])
  | writeFault left reason hphase hshutdown hwrite =>
      exact haccount.fail (by rw [isOpen, hphase]) (by rw [hand, hphase]) rfl rfl
        (.unwritten _ (hfaulty (Connection.faulty_of_write hwrite)))
  | write b left c hphase hshutdown hwrite =>
      obtain ⟨_, -, -, hincoming, -⟩ := Connection.write_sent hwrite
      refine haccount.keep (by rw [isOpen, hphase]) rfl ?_ ?_
      · rw [ahead, ahead, Connection.ahead, hincoming, Connection.ahead]
      · simp [items, hand, hphase]
  | finish e hphase hshutdown hroom =>
      cases haccount with
      | running hopen => rw [isOpen, hphase] at hopen; cases hopen
      | ended _ htaken hcause hps =>
          refine .ended rfl htaken hcause ?_
          rw [← hps]
          simp [items, hand, hphase, Session.stop]
      | cutShort hp => rw [hphase] at hp; cases hp
  | stop event hphase hshutdown => exact haccount.stop hphase rfl rfl (hshut hshutdown)

theorem Account.extend (h : Account max log s) {later : Log} (hphase : t.phase = s.phase)
    (hahead : t.ahead = s.ahead ++ later.stream) (hitems : items (log ++ later) t = items log s) :
    Account max (log ++ later) t := by
  have hopen : t.isOpen = s.isOpen := by rw [isOpen, hphase, isOpen]
  have htaken' {ps : List Packet} {rest : List Signal} (h : Taken max log.stream ps rest) :
      Taken max (log ++ later).stream ps (rest ++ later.stream) := by
    rw [Log.stream_append]
    exact h.append _
  cases h with
  | running hs htaken hps =>
      refine .running (hopen.trans hs) ?_ (hitems.trans hps)
      rw [hahead]
      exact htaken' htaken
  | ended hs htaken hcause hps =>
      exact .ended (hopen.trans hs) (htaken' htaken) ((hcause.append later.stream).log_append later)
        (hitems.trans hps)
  | cutShort hs hdisturbed htaken hps =>
      exact .cutShort (hphase.trans hs) ((Log.disturbed_append _ _).2 (.inl hdisturbed)) (htaken' htaken)
        (hitems ▸ hps)

theorem Account.deed {entry : Action × Response} (h : Account max log s) (hdeed : Deed s entry t) :
    Account max (log ++ [entry]) t := by
  have hahead : t.ahead = s.ahead ++ Log.stream [entry] := by
    rw [ahead, hdeed.buffer_eq, hdeed.ahead_eq, ahead, List.append_assoc]
  have hitems (hhand : t.hand = s.hand) : items (log ++ [entry]) t = items log s := by
    rw [items, Log.received_append, List.append_assoc log.received, hdeed.received_append_inbound, hhand, items]
  cases hdeed with
  | abort =>
      by_cases hphase : s.phase = .stopped
      · exact h.extend hphase.symm hahead (hitems (by rw [hand, hand, hphase]))
      · have hkeep : Account max (log ++ [(.abort, .nothing)]) s :=
          h.extend rfl (List.append_nil _).symm (by simp [items, Log.received])
        exact hkeep.stop hphase rfl rfl (by simp [Action.disturbs])
  | _ => exact h.extend rfl hahead (hitems rfl)

theorem Sound.move (hbuffer : 1 ≤ settings.readBufferSize) {events : List Event} (h : Sound settings log s)
    (hmove : Move s t events) : Sound settings log t where
  settings_eq := hmove.settings_eq.trans h.settings_eq
  tidy := hmove.tidy h.tidy
  faulty ht := h.faulty (hmove.faulty_iff.1 ht)
  shutdown ht := h.shutdown (hmove.shutdown_eq ▸ ht)
  waiting ht := by
    rw [← h.settings_eq, ← hmove.settings_eq]
    exact hmove.waiting ht
  account := Account.move hbuffer h hmove

theorem Sound.deed {entry : Action × Response} (h : Sound settings log s) (hdeed : Deed s entry t) :
    Sound settings (log ++ [entry]) t where
  settings_eq := hdeed.settings_eq.trans h.settings_eq
  tidy := hdeed.tidy h.tidy
  faulty ht := (Log.disturbed_append _ _).2 ((hdeed.faulty ht).imp_left h.faulty)
  shutdown ht := (Log.disturbed_append _ _).2 ((hdeed.shutdown ht).imp_left h.shutdown)
  waiting ht := by
    obtain ⟨hs, hbuffer⟩ := hdeed.waiting ht
    rw [hbuffer]
    exact h.waiting hs
  account := h.account.deed hdeed

theorem sound_start (settings : Settings) : Sound settings [] { settings } where
  settings_eq := rfl
  tidy := by simp [Connection.Tidy]
  faulty h := by simp [Connection.Faulty] at h
  shutdown h := by cases h
  waiting h := by cases h
  account := .running rfl ⟨[], .nil, rfl⟩ rfl

theorem Run.sound (hbuffer : 1 ≤ settings.readBufferSize) (hrun : Run { settings } log s) :
    Sound settings log s :=
  hrun.invariant (sound_start settings) (Sound.move hbuffer) Sound.deed

end Session

end PacketWatch
