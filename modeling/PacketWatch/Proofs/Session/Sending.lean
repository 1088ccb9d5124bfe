import PacketWatch.Proofs.Session.Outbound

namespace PacketWatch.Session

structure Orderly (settings : Settings) (s : Session) : Prop where
  settings_eq : s.settings = settings
  length_le : s.outbound.length ≤ max 1 settings.outboundCapacity
  flushed : s.isOpen = true → (∀ left, s.phase ≠ .writing left) →
    s.connection.flushed = s.connection.written.length

variable {settings : Settings} {log : Log} {s t : Session}

theorem Move.length_outbound_le {events : List Event} (h : Move s t events) :
    t.outbound.length ≤ s.outbound.length := by
  cases h with
  | take b rest _ _ houtbound => rw [houtbound]; exact Nat.le_succ _
  | reject | refuse | readFault | readEnd | flushFault | writeFault | finish | stop => exact Nat.zero_le _
  | _ => exact Nat.le_refl _

theorem Move.flushed {events : List Event} (h : Move s t events)
    (hs : s.isOpen = true → (∀ left, s.phase ≠ .writing left) →
      s.connection.flushed = s.connection.written.length)
    (hopen : t.isOpen = true) (hwriting : ∀ left, t.phase ≠ .writing left) :
    t.connection.flushed = t.connection.written.length := by
  cases h with
  | start hphase | pause hphase | carve _ _ hphase | publish _ hphase =>
      exact hs (by rw [isOpen, hphase]) (fun left => by rw [hphase]; exact Phase.noConfusion)
  | read b c hphase _ _ _ hread =>
      have hflushed := hs (by rw [isOpen, hphase]) (fun left => by rw [hphase]; exact Phase.noConfusion)
      rw [Connection.eq_of_read hread]
      exact hflushed
  | flush c _ _ hflush => rw [Connection.eq_of_flush hflush]
  | take b | write _ left => exact absurd rfl (hwriting _)
  | reject | refuse | readFault | readEnd | flushFault | writeFault | finish | stop => cases hopen

theorem Orderly.move {events : List Event} (h : Orderly settings s) (hmove : Move s t events) :
    Orderly settings t where
  settings_eq := hmove.settings_eq.trans h.settings_eq
  length_le := Nat.le_trans hmove.length_outbound_le h.length_le
  flushed := hmove.flushed h.flushed

theorem Orderly.deed {entry : Action × Response} (h : Orderly settings s) (hdeed : Deed s entry t) :
    Orderly settings t := by
  obtain ⟨hsettings, hlength, hflushed⟩ := h
  refine ⟨hdeed.settings_eq.trans hsettings, ?_, ?_⟩
  · cases hdeed with
    | queue a b hb hopen hroom =>
        rw [outboundRoom, decide_eq_true_eq, hsettings] at hroom
        rw [List.length_append, List.length_singleton, Nat.max_comm]
        exact hroom
    | abort => exact Nat.zero_le _
    | _ => exact hlength
  · cases hdeed with
    | deliver i =>
        rw [Connection.eq_deliver]
        exact hflushed
    | abort => exact fun hopen => Bool.noConfusion hopen
    | _ => exact hflushed

theorem Run.orderly (hrun : Run { settings } log s) : Orderly settings s :=
  hrun.invariant (P := fun _ s => Orderly settings s) ⟨rfl, Nat.zero_le _, fun _ _ => rfl⟩
    Orderly.move Orderly.deed

/-- A task that waits for its connection has written all that it was given and flushed it. -/
theorem Run.written_of_waiting (hrun : Run { settings } log s) (hstep : s.step = none)
    (hphase : s.phase = .waiting) : s.connection.written = log.accepted.flatten ∧
      s.connection.flushed = s.connection.written.length := by
  have hopen : s.isOpen = true := by rw [isOpen, hphase]
  have houtbound : s.outbound = [] := by
    cases waits_of_step_eq_none hstep with
    | read _ _ houtbound => exact houtbound
    | publish _ hp | write _ hp | finish _ hp | stopped hp => rw [hphase] at hp; cases hp
  constructor
  · rw [← hrun.conveyed.of_isOpen hopen, pending, hphase, houtbound]
    exact (List.append_nil _).symm
  · exact hrun.orderly.flushed hopen fun left => by rw [hphase]; exact Phase.noConfusion

/-- What is written is what was accepted, in the order in which it was accepted, and as long as the
session is open nothing of it is lost: what is not written yet is being written or waits in the queue.
A packet that cannot be encoded changes nothing. -/
theorem Run.written_in_order (hrun : Run { settings } log s) :
    s.connection.written <+: log.accepted.flatten ∧
      (s.isOpen = true → s.connection.written ++ s.pending = log.accepted.flatten) ∧
      s.outbound.length ≤ max 1 settings.outboundCapacity ∧
      (∀ p e, encode p = .error e → s.act (.send p) = (.sent (.refused (.encode e)), s) ∧
        Log.accepted (log ++ [(.send p, (s.act (.send p)).1)]) = log.accepted) ∧
      (s.step = none → s.phase = .waiting → s.connection.written = log.accepted.flatten ∧
        s.connection.flushed = s.connection.written.length) := by
  refine ⟨hrun.conveyed.prefix_accepted, hrun.conveyed.of_isOpen, hrun.orderly.length_le, ?_,
    hrun.written_of_waiting⟩
  intro p e hencode
  have hact : s.act (.send p) = (.sent (.refused (.encode e)), s) := by
    rw [Session.act, Session.send, hencode]
  refine ⟨hact, ?_⟩
  rw [hact, Log.accepted_append, Log.accepted_decline (by simp), List.append_nil]

theorem Run.written_in_order_around_refused_packet :
    let p : Packet := {
      version := 16, nextHeader := 59, hopLimit := 1, source := default, destination := default
      extensions := [], payload := .raw 59 [] }
    ∃ log s, Run { settings := {} } log s ∧ log.map Prod.fst = [.sendBytes [1], .send p, .sendBytes [2, 3]] ∧
      s.step = none ∧ s.phase = .waiting ∧ s.connection.written = [1, 2, 3] ∧ s.connection.flushed = 3 := by
  intro p
  have hencode : encode p = .error ⟨.ipVersion, 16, 15⟩ := rfl
  have hsend : Session.act { settings := {}, outbound := [[1]] } (.send p) =
      (.sent (.refused (.encode ⟨.ipVersion, 16, 15⟩)), { settings := {}, outbound := [[1]] }) := by
    rw [Session.act, Session.send, hencode]
  have hfirst : Run { settings := {} } [(.sendBytes [1], .sent .queued)] { settings := {}, outbound := [[1]] } :=
    Run.refl.act (.sendBytes [1])
  have hrefused := hfirst.act (.send p)
  rw [hsend] at hrefused
  have hqueued := hrefused.act (.sendBytes [2, 3])
  have htaken := hqueued.step rfl |>.step rfl |>.step rfl |>.step rfl
  have hwritten := htaken.step rfl |>.step rfl |>.step rfl |>.step rfl |>.step rfl |>.step rfl
  obtain ⟨-, -, -, -, hwaiting⟩ := hwritten.written_in_order
  obtain ⟨hbytes, hflushed⟩ := hwaiting rfl rfl
  exact ⟨_, _, hwritten, rfl, rfl, rfl, hbytes, hflushed⟩

end PacketWatch.Session
