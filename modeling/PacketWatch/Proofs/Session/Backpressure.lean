import PacketWatch.Proofs.Session.Inbound

namespace PacketWatch

/-- The most bytes of a frame that wait for the rest of it. Five bytes do not tell its size; a frame
whose size is known is no longer than the limit, and none is longer than its header and what two
bytes can say of the payload. -/
def longestPart (settings : Settings) : Nat :=
  max 5 (min settings.maxMessageSize (Packet.headerSize + 0xffff) - 1)

def IsFrameOf (limit : Nat) (f : Bytes) (i : Item) : Prop := ∃ p, i = .ok p ∧ IsFrame limit f p

namespace Session

variable {settings : Settings} {log more : Log} {s t u : Session} {events : List Event}
  {entry : Action × Response}

theorem length_le_of_incomplete {b : Bytes} (h : scan settings.maxMessageSize b = .incomplete) :
    b.length ≤ longestPart settings := by
  rw [longestPart]
  unfold scan at h
  split at h
  · cases h
  · next hnone =>
    have hfew := length_lt_of_frameSize?_none hnone
    omega
  · next n hsize =>
    have hle := frameSize?_le hsize
    split at h
    · cases h
    · next hlimit =>
      split at h
      · next hpart =>
        have hlt : b.length < n := by
          rw [Bool.not_eq_true', ← Bool.not_eq_true, Wire.reaches_eq_true_iff, Nat.not_le] at hpart
          exact hpart
        omega
      · split at h <;> cases h

structure Bounded (settings : Settings) (s : Session) : Prop where
  settings_eq : s.settings = settings
  inbound_le : s.inbound.length ≤ max 1 settings.inboundCapacity
  buffer_le : s.buffer.length ≤ longestPart settings + settings.readBufferSize
  waiting_le : s.phase = .waiting → s.buffer.length ≤ longestPart settings

theorem Move.length_inbound_le (h : Move s t events)
    (hs : s.inbound.length ≤ max 1 s.settings.inboundCapacity) :
    t.inbound.length ≤ max 1 s.settings.inboundCapacity := by
  cases h with
  | publish _ _ _ hroom | finish _ _ _ hroom =>
      rw [inboundRoom, decide_eq_true_eq, Nat.max_comm] at hroom
      exact Nat.le_trans (Nat.le_of_eq List.length_append) hroom
  | _ => exact hs

/-- Only a read makes the buffer longer, and only a task that waits reads. -/
theorem Move.length_buffer_le (h : Move s t events) : t.buffer.length ≤ s.buffer.length ∨
    s.phase = .waiting ∧ t.buffer.length ≤ s.buffer.length + s.settings.readBufferSize := by
  cases h with
  | read b c hphase _ _ _ hread =>
      rw [List.length_append]
      exact .inr ⟨hphase, Nat.add_le_add_left (Connection.length_le_of_read hread) _⟩
  | carve | reject => exact .inl (List.drop_sublist _ _).length_le
  | _ => exact .inl (Nat.le_refl _)

theorem Bounded.move (h : Bounded settings s) (hmove : Move s t events) : Bounded settings t := by
  obtain ⟨rfl, hinbound, hbuffer, hwaiting⟩ := h
  refine ⟨hmove.settings_eq, hmove.length_inbound_le hinbound, ?_, ?_⟩
  · rcases hmove.length_buffer_le with hle | ⟨hphase, hle⟩
    · exact Nat.le_trans hle hbuffer
    · exact Nat.le_trans hle (Nat.add_le_add_right (hwaiting hphase) _)
  · intro hphase
    rw [← hmove.settings_eq]
    exact length_le_of_incomplete (hmove.waiting hphase)

theorem Deed.length_inbound_le (h : Deed s entry t) : t.inbound.length ≤ s.inbound.length := by
  rw [← h.received_append_inbound, List.length_append]
  exact Nat.le_add_left _ _

theorem Bounded.deed (h : Bounded settings s) (hdeed : Deed s entry t) : Bounded settings t where
  settings_eq := hdeed.settings_eq.trans h.settings_eq
  inbound_le := Nat.le_trans hdeed.length_inbound_le h.inbound_le
  buffer_le := hdeed.buffer_eq ▸ h.buffer_le
  waiting_le hphase := hdeed.buffer_eq ▸ h.waiting_le (hdeed.waiting hphase).1

theorem Run.bounded (hrun : Run { settings } log s) : Bounded settings s :=
  hrun.invariant (P := fun _ s => Bounded settings s)
    ⟨rfl, Nat.zero_le _, Nat.zero_le _, fun _ => Nat.zero_le _⟩ Bounded.move Bounded.deed

theorem length_hand_le (s : Session) : s.hand.length ≤ 1 := by
  rw [hand]
  cases s.phase with
  | publishing | failing => exact Nat.le_refl 1
  | _ => exact Nat.zero_le 1

/-- A task with an item in hand leaves its connection alone; without room for the item all that it
can do is to stop. -/
theorem Move.of_hand (h : Move s t events) (hhand : s.hand ≠ []) :
    t.connection = s.connection ∧ (s.inboundRoom = false → t = s.stop) := by
  cases h with
  | stop => exact ⟨rfl, fun _ => rfl⟩
  | publish _ _ _ hroom | finish _ _ _ hroom =>
      refine ⟨rfl, fun hfull => ?_⟩
      rw [hfull] at hroom
      cases hroom
  | start hphase | pause hphase | carve _ _ hphase | reject _ _ hphase | refuse _ hphase | take _ _ hphase
  | readFault _ _ hphase | readEnd _ hphase | read _ _ hphase | flushFault _ hphase | flush _ hphase
  | writeFault _ _ hphase | write _ _ _ hphase => exact absurd (by rw [hand, hphase]) hhand

structure Held (s : Session) (more : Log) (t : Session) : Prop extends Untouched s more t where
  settings_eq : t.settings = s.settings
  inbound_eq : t.inbound = s.inbound
  buffer_eq : t.buffer = s.buffer
  phase : t.phase = s.phase ∨ t.phase = .stopped

theorem Held.move (h : Held s more t) (hhand : s.hand ≠ []) (hfull : s.inboundRoom = false)
    (hmove : Move t u events) : Held s more u := by
  have hphase : t.phase = s.phase := h.phase.resolve_right hmove.phase_ne_stopped
  have hhand' : t.hand ≠ [] := by rwa [hand, hphase]
  have hfull' : t.inboundRoom = false := by rwa [inboundRoom, h.inbound_eq, h.settings_eq]
  obtain rfl := (hmove.of_hand hhand').2 hfull'
  exact ⟨h.toUntouched.move rfl, h.settings_eq, h.inbound_eq, h.buffer_eq, .inr rfl⟩

theorem Held.deed (h : Held s more t) (hreceived : Log.received [entry] = []) (hdeed : Deed t entry u) :
    Held s (more ++ [entry]) u where
  toUntouched := h.toUntouched.deed hdeed
  settings_eq := hdeed.settings_eq.trans h.settings_eq
  inbound_eq := by
    have hkept := hdeed.received_append_inbound
    rw [hreceived, List.nil_append] at hkept
    rw [hkept, h.inbound_eq]
  buffer_eq := hdeed.buffer_eq.trans h.buffer_eq
  phase := by
    rcases hdeed.phase with hphase | hphase
    · rw [hphase]
      exact h.phase
    · exact .inr hphase

theorem Run.held (hrun : Run s more t) (hhand : s.hand ≠ []) (hfull : s.inboundRoom = false)
    (hreceived : more.received = []) : Held s more t := by
  refine hrun.invariant (P := fun more t => more.received = [] → Held s more t) ?_ ?_ ?_ hreceived
  · exact fun _ => ⟨untouched_refl s, rfl, rfl, rfl, .inl rfl⟩
  · exact fun h hmove hreceived => (h hreceived).move hhand hfull hmove
  · intro more t entry u h hdeed hreceived
    rw [Log.received_append, List.append_eq_nil_iff] at hreceived
    exact (h hreceived.1).deed hreceived.2 hdeed

/-- Every byte that has come in is part of the frame of a packet that was handed over or is about to be, or
is in the buffer, or is still to be read. -/
theorem Run.fed_eq (hbuffer : 1 ≤ settings.readBufferSize) (hrun : Run { settings } log s)
    (hopen : s.isOpen = true) : ∃ frames : List Bytes,
      log.fed = frames.flatten ++ s.buffer ++ s.connection.unreadBytes ∧
        List.Forall₂ (IsFrameOf settings.maxMessageSize) frames (log.received ++ s.inbound ++ s.hand) := by
  obtain ⟨ps, ⟨b, hframed, hstream⟩, hitems⟩ := (hrun.sound hbuffer).account.of_isOpen hopen
  obtain ⟨frames, rfl, hframes⟩ := hframed.exists_frames
  refine ⟨frames, ?_, ?_⟩
  · rw [← log.filterMap_stream, hstream, ahead, List.filterMap_append, List.filterMap_append,
      filterMap_signals, filterMap_signals, Connection.filterMap_ahead, List.append_assoc]
  · rw [← items, hitems, List.forall₂_map_right_iff]
    exact hframes.imp fun f p hf => ⟨p, rfl, hf⟩

/-- What a session holds of what has come in is bounded, and nothing of it gets lost: a task with an item in
hand reads nothing until there is room for it. -/
theorem Run.bounded_and_conserved (hbuffer : 1 ≤ settings.readBufferSize) (hrun : Run { settings } log s) :
    s.inbound.length ≤ max 1 settings.inboundCapacity ∧ s.hand.length ≤ 1 ∧
      s.buffer.length ≤ longestPart settings + settings.readBufferSize ∧
      (s.phase = .waiting → s.buffer.length ≤ longestPart settings) ∧
      (s.hand ≠ [] → (∀ t events, s.step = some (t, events) → t.connection = s.connection) ∧
        (s.inboundRoom = false → ∀ more t, Run s more t → more.received = [] → Held s more t)) ∧
      (s.isOpen = true → ∃ frames : List Bytes,
        log.fed = frames.flatten ++ s.buffer ++ s.connection.unreadBytes ∧
          List.Forall₂ (IsFrameOf settings.maxMessageSize) frames (log.received ++ s.inbound ++ s.hand)) := by
  obtain ⟨-, hinbound, hlength, hwaiting⟩ := hrun.bounded
  refine ⟨hinbound, s.length_hand_le, hlength, hwaiting, fun hhand => ⟨?_, ?_⟩, hrun.fed_eq hbuffer⟩
  · exact fun t events hstep => ((move_of_step hstep).of_hand hhand).1
  · exact fun hfull more t hmore hreceived => hmore.held hhand hfull hreceived

theorem Run.bounded_and_conserved_slow_owner :
    let f : Bytes := [0x60, 0, 0, 0, 0, 0, 59, 1] ++ List.replicate 32 0
    let p : Packet := {
      nextHeader := 59, hopLimit := 1, source := default, destination := default
      extensions := [], payload := .raw 59 [] }
    let settings : Settings := { inboundCapacity := 1, readBufferSize := 64, maxMessageSize := 100 }
    ∃ log s, Run { settings } log s ∧ log.map Prod.fst = [.deliver (.chunk (f ++ f ++ [0x60, 0]))] ∧
      s.inbound = [.ok p] ∧ s.hand = [.ok p] ∧ s.buffer.length ≤ 99 + 64 ∧
      (∃ frames : List Bytes, f ++ f ++ [0x60, 0] = frames.flatten ++ [0x60, 0] ++ [] ∧
        List.Forall₂ (IsFrameOf 100) frames [.ok p, .ok p]) ∧
      ∀ more t, Run s more t → more.received = [] → t.connection.ahead = more.stream := by
  intro f p settings
  have hframe : IsFrame 100 f p := ⟨rfl, by decide +revert, by decide +kernel +revert⟩
  have hfed := (Run.refl (s := { settings })).act (.deliver (.chunk (f ++ f ++ [0x60, 0])))
  have hread := hfed.step rfl |>.step rfl |>.step rfl
  have hqueued := hread.step (step_of_isFrame (f := f) rfl rfl hframe) |>.step rfl
  have hheld := hqueued.step rfl |>.step rfl |>.step (step_of_isFrame (f := f) rfl rfl hframe)
  obtain ⟨-, -, hbuffer, -, hhand, hconserved⟩ := hheld.bounded_and_conserved (by decide)
  obtain ⟨frames, hfed, hframes⟩ := hconserved rfl
  obtain ⟨-, hstill⟩ := hhand (by simp [hand])
  exact ⟨_, _, hheld, rfl, rfl, rfl, hbuffer, ⟨frames, hfed, hframes⟩,
    fun more t hmore hreceived => (hstill rfl more t hmore hreceived).ahead_eq⟩

end Session

end PacketWatch
