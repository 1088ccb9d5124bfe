import PacketWatch.Session.Step

namespace PacketWatch

namespace Phase

def weight : Phase → Nat
  | starting => 5
  | scanning => 4
  | publishing _ => 6
  | waiting => 3
  | writing left => 6 + 5 * left.length
  | failing _ => 2
  | stopped => 0

end Phase

namespace Session

/-- A bound on the steps of the task and the items it can still deliver: every byte is read,
buffered and taken once, and every write is taken once. -/
def weight (s : Session) : Nat :=
  6 * s.connection.unread + 4 * s.buffer.length + Wire.total (fun b => 5 + 5 * b.length) s.outbound
    + s.phase.weight + s.inbound.length

theorem weight_fail_lt {s t : Session} {e : SessionError}
    (h : t.weight + 2 < s.weight + t.phase.weight) : (t.fail e).weight < s.weight := by
  simp only [fail, weight, Phase.weight, Wire.total_nil] at *
  omega

end Session

namespace Connection

theorem unread_read {c d : Connection} {limit : Nat} {b : Bytes}
    (h : c.read limit = .data b d) : d.unread + b.length = c.unread := by
  unfold read at h
  split at h
  · simp at h
  · next chunk rest hc =>
    cases h
    simp only [unread, hc, Wire.total_cons, Wire.total_append, List.length_take]
    split <;> simp only [Wire.total_nil, Wire.total_cons, List.length_drop] <;> omega
  · cases h; simp
  · simp at h

theorem unread_read_fault {c d : Connection} {limit : Nat} {reason : String}
    (h : c.read limit = .fault reason d) : d.unread = c.unread := by
  unfold read at h
  split at h
  · simp at h
  · simp at h
  · simp at h
  · next rest hc => cases h; simp [unread, hc]

theorem unread_write {c d : Connection} {b left : Bytes}
    (h : c.write b = .sent left d) : d.unread = c.unread := by
  unfold write at h
  split at h
  · simp at h
  · split at h
    · simp at h
    · split at h
      · cases h; rfl
      · simp at h
      · cases h; rfl

theorem unread_flush {c d : Connection} (h : c.flush = .ok d) : d.unread = c.unread := by
  unfold flush at h
  split at h
  · cases h
  · cases h; rfl

theorem length_write_lt {c d : Connection} {b left : Bytes} (hb : b.isEmpty = false)
    (h : c.write b = .sent left d) : left.length < b.length := by
  have : 0 < b.length := List.length_pos_iff.2 (by simpa using hb)
  unfold write at h
  split at h
  · simp at h
  · split at h
    · simp at h
    · split at h
      · cases h; simpa
      · simp at h
      · next n hn _ =>
        cases h
        simp only [List.length_drop]
        have : n ≠ 0 := fun h0 => hn h0
        omega

end Connection

namespace Session

theorem scan_message {limit : Nat} {b : Bytes} {p : Packet} {n : Nat}
    (h : scan limit b = .message p n) : 0 < n ∧ n ≤ b.length := by
  unfold scan at h
  split at h
  · simp at h
  · simp at h
  · next size hs =>
    split at h
    · simp at h
    · split at h
      · simp at h
      · next hr =>
        split at h
        · cases h
          exact ⟨frameSize?_pos hs, by simpa using hr⟩
        · simp at h

theorem scan_badFrame {limit : Nat} {b : Bytes} {e : DecodeError} {n : Nat}
    (h : scan limit b = .badFrame e n) : 0 < n ∧ n ≤ b.length := by
  unfold scan at h
  split at h
  · simp at h
  · simp at h
  · next size hs =>
    split at h
    · simp at h
    · split at h
      · simp at h
      · next hr =>
        split at h
        · simp at h
        · cases h
          exact ⟨frameSize?_pos hs, by simpa using hr⟩

theorem weight_lt_of_step {s t : Session} {events : List Event}
    (h : s.step = some (t, events)) : t.weight < s.weight := by
  unfold step at h
  split at h
  · next hp => cases h; simp [weight, hp, Phase.weight]
  · next hp =>
    split at h
    · cases h; simp [weight, hp, Phase.weight]
    · next hs =>
      have := scan_message hs
      cases h; simp only [weight, hp, Phase.weight, List.length_drop]; omega
    · next hs =>
      have := scan_badFrame hs
      cases h
      apply weight_fail_lt
      simp only [weight, hp, Phase.weight, List.length_drop]; omega
    · cases h
      apply weight_fail_lt
      simp [hp, Phase.weight]
  · next hp =>
    split at h
    · cases h; simp [weight, stop, hp, Phase.weight]; omega
    · split at h
      · cases h; simp [weight, hp, Phase.weight]; omega
      · simp at h
  · next hp =>
    split at h
    · cases h; simp [weight, stop, hp, Phase.weight]; omega
    · split at h
      · next b rest ho => cases h; simp [weight, hp, ho, Phase.weight]; omega
      · next ho =>
        split at h
        · simp at h
        · next hr =>
          have := Connection.unread_read_fault hr
          cases h
          apply weight_fail_lt
          simp only [weight, hp, Phase.weight]; omega
        · next hr =>
          have := Connection.unread_read hr
          cases h
          apply weight_fail_lt
          simp only [weight, hp, Phase.weight, List.length_nil] at *; omega
        · next b c hb hr =>
          have := Connection.unread_read hr
          have : 0 < b.length := List.length_pos_iff.2 hb
          cases h
          simp only [weight, hp, Phase.weight, List.length_append]; omega
  · next left hp =>
    split at h
    · cases h; simp [weight, stop, hp, Phase.weight]; omega
    · split at h
      · split at h
        · cases h
          apply weight_fail_lt
          simp only [weight, hp, Phase.weight]; omega
        · next hf =>
          have := Connection.unread_flush hf
          cases h; simp [weight, hp, Phase.weight]; omega
      · next hl =>
        split at h
        · simp at h
        · cases h
          apply weight_fail_lt
          simp only [weight, hp, Phase.weight]; omega
        · next hw =>
          have := Connection.unread_write hw
          have := Connection.length_write_lt (by simpa using hl) hw
          cases h
          simp only [weight, hp, Phase.weight]; omega
  · next hp =>
    split at h
    · cases h; simp [weight, stop, hp, Phase.weight]; omega
    · split at h
      · cases h; simp [weight, stop, hp, Phase.weight]; omega
      · simp at h
  · simp at h

def settle (s : Session) : Session × List Event :=
  match _h : s.step with
  | none => (s, [])
  | some (t, told) =>
    let (last, rest) := settle t
    (last, told ++ rest)
termination_by s.weight
decreasing_by exact weight_lt_of_step _h

theorem weight_settle_le (s : Session) : s.settle.1.weight ≤ s.weight := by
  fun_induction settle s with
  | case1 => exact Nat.le_refl _
  | case2 s t told h last rest hs ih =>
    have := weight_lt_of_step h
    simp only [hs] at ih
    exact Nat.le_of_lt (Nat.lt_of_le_of_lt ih this)

theorem weight_receive_lt {s t : Session} {i : Item} (h : s.receive = (.item i, t)) :
    t.weight < s.weight := by
  unfold receive at h
  split at h
  · next hi => cases h; simp [weight, hi]
  · split at h <;> simp at h

/-- Receives until nothing is left to receive for now. The task runs after every item. -/
def drain (s : Session) : List Item × Session × List Event :=
  match _h : s.receive with
  | (.item i, t) =>
    let (items, last, told) := drain t.settle.1
    (i :: items, last, t.settle.2 ++ told)
  | (_, t) => ([], t, [])
termination_by s.weight
decreasing_by exact Nat.lt_of_le_of_lt (weight_settle_le t) (weight_receive_lt _h)

end Session

end PacketWatch
