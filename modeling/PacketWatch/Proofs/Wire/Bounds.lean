import PacketWatch.Address.Basic
import PacketWatch.Proofs.Wire.Spelling

namespace PacketWatch

open Wire

namespace Reader

variable {α β : Type} {b : Bytes} {n m : Nat}

/-- Started on `b`, a reader does not read past the end, and if it gives a value, `Q` holds of the value
and of what is left. -/
def Within (r : Reader α) (b : Bytes) (Q : α → Bytes → Prop) : Prop :=
  match r.run b with
  | .ok (a, rest) => Q a rest
  | .error e => e ≠ .pastEnd

/-! What each reader asks of its input. The rules turn a reader into a statement about lengths. -/

theorem Within.of_run {r : Reader α} {Q : α → Bytes → Prop} {a : α} {rest : Bytes}
    (h : r.run b = .ok (a, rest)) : r.Within b Q ↔ Q a rest := by
  rw [Within, h]

theorem run'_ne_pastEnd {r : Reader α} : r.run' b ≠ .error .pastEnd ↔ r.Within b fun _ _ => True := by
  rw [StateT.run'_eq, Within]
  cases r.run b <;> simp [Functor.map, Except.map]

theorem Within.imp {r : Reader α} {P Q : α → Bytes → Prop} (h : r.Within b P)
    (hPQ : ∀ a rest, r.run b = .ok (a, rest) → P a rest → Q a rest) : r.Within b Q := by
  unfold Within at *
  cases hr : r.run b with
  | error e => simpa [hr] using h
  | ok p => exact hPQ _ _ hr (by simpa [hr] using h)

@[simp] theorem within_pure {a : α} {Q : α → Bytes → Prop} : (pure a : Reader α).Within b Q ↔ Q a b :=
  Within.of_run rfl

@[simp] theorem within_bind {r : Reader α} {f : α → Reader β} {Q : β → Bytes → Prop} :
    (r >>= f).Within b Q ↔ r.Within b fun a rest => (f a).Within rest Q := by
  rw [Within, Within, StateT.run_bind]
  cases r.run b with
  | error e => rfl
  | ok p => rfl

@[simp] theorem within_map {r : Reader α} {f : α → β} {Q : β → Bytes → Prop} :
    (f <$> r).Within b Q ↔ r.Within b fun a rest => Q (f a) rest := by
  rw [← bind_pure_comp, within_bind]
  simp only [within_pure]

@[simp] theorem within_get {Q : Bytes → Bytes → Prop} : (get : Reader Bytes).Within b Q ↔ Q b b :=
  Within.of_run rfl

@[simp] theorem within_set {c : Bytes} {Q : PUnit → Bytes → Prop} :
    (set c : Reader PUnit).Within b Q ↔ Q ⟨⟩ c :=
  Within.of_run rfl

@[simp] theorem within_throw {e : DecodeError} {Q : α → Bytes → Prop} :
    (throw e : Reader α).Within b Q ↔ e ≠ .pastEnd := Iff.rfl

@[simp] theorem within_ite {c : Prop} [Decidable c] {r s : Reader α} {Q : α → Bytes → Prop} :
    (if c then r else s).Within b Q ↔ (c → r.Within b Q) ∧ (¬ c → s.Within b Q) := by
  split <;> simp_all

@[simp] theorem within_need {Q : Unit → Bytes → Prop} :
    (need n).Within b Q ↔ (n ≤ b.length → Q () b) := by
  by_cases h : n ≤ b.length
  · have hrun : (need n).run b = .ok ((), b) := run_need_ok.2 ⟨h, rfl⟩
    simp [Within.of_run hrun, h]
  · simp [Within, run_need_of_lt (Nat.lt_of_not_le h), h]

@[simp] theorem within_declare {field : Field} {start : Bytes} {Q : Unit → Bytes → Prop} :
    (declare field n start).Within b Q ↔ (n ≤ start.length → Q () b) := by
  rw [declare, within_ite]
  simp

@[simp] theorem within_minus {Q : Nat → Bytes → Prop} :
    (minus n m).Within b Q ↔ m ≤ n ∧ Q (n - m) b := by
  rw [minus, within_ite]
  by_cases h : m ≤ n <;> simp [h]

@[simp] theorem within_rest {Q : Bytes → Bytes → Prop} : Reader.rest.Within b Q ↔ Q b [] :=
  Within.of_run rfl

@[simp] theorem within_take {Q : Bytes → Bytes → Prop} :
    (take n).Within b Q ↔ n ≤ b.length ∧ Q (b.take n) (b.drop n) := by
  by_cases h : n ≤ b.length
  · simp [Within.of_run (run_take_of_le h), h]
  · simp [Within, run_take_of_lt (Nat.lt_of_not_le h), h]

@[simp] theorem within_skip {Q : Unit → Bytes → Prop} :
    (skip n).Within b Q ↔ n ≤ b.length ∧ Q () (b.drop n) := by
  change ((fun _ => ()) <$> take n).Within b Q ↔ _
  rw [within_map, within_take]

@[simp] theorem within_word {Q : Nat → Bytes → Prop} :
    (word n).Within b Q ↔ n ≤ b.length ∧ Q (value (b.take n)) (b.drop n) := by
  simp [word]

@[simp] theorem within_u8 {Q : UInt8 → Bytes → Prop} :
    u8.Within b Q ↔ 1 ≤ b.length ∧ Q (UInt8.ofNat (value (b.take 1))) (b.drop 1) := by
  simp [u8]

@[simp] theorem within_u16 {Q : UInt16 → Bytes → Prop} :
    u16.Within b Q ↔ 2 ≤ b.length ∧ Q (UInt16.ofNat (value (b.take 2))) (b.drop 2) := by
  simp [u16]

@[simp] theorem within_u32 {Q : UInt32 → Bytes → Prop} :
    u32.Within b Q ↔ 4 ≤ b.length ∧ Q (UInt32.ofNat (value (b.take 4))) (b.drop 4) := by
  simp [u32]

@[simp] theorem within_peekByte {Q : UInt8 → Bytes → Prop} :
    peekByte.Within b Q ↔ 1 ≤ b.length ∧ Q (UInt8.ofNat (value (b.take 1))) b := by
  simp [peekByte]

/-- A reader run on bytes of its own. -/
@[simp] theorem within_lift {r : Reader α} {c : Bytes} {Q : α × Bytes → Bytes → Prop} :
    (liftM (r.run c) : Reader (α × Bytes)).Within b Q ↔ r.Within c fun a rest => Q (a, rest) b := by
  rw [Within, Within]
  cases r.run c with
  | error e => rfl
  | ok p => rfl

def Takes (r : Reader α) (n : Nat) : Prop :=
  ∀ (b : Bytes) (Q : Bytes → Prop), r.Within b (fun _ rest => Q rest) ↔ n ≤ b.length ∧ Q (b.drop n)

theorem takes_u32 : u32.Takes 4 := fun _ _ => within_u32

theorem takes_octets (n : Nat) : (octets n).Takes n := by
  intro b Q
  by_cases h : n ≤ b.length
  · obtain ⟨x, hx⟩ := exists_run_octets_of_le h
    rw [Within.of_run hx]
    simp [h]
  · simp [Within, run_octets_of_lt (Nat.lt_of_not_le h), h]

theorem takes_times {r : Reader α} {width : Nat} (h : r.Takes width) (n : Nat) :
    (times r n).Takes (width * n) := by
  suffices hgo : ∀ seen, (times.go r n seen).Takes (width * n) from hgo []
  induction n with
  | zero => intro seen b Q; simp [times.go]
  | succ n ih =>
      intro seen b Q
      rw [times.go, within_bind]
      simp only [ih _ _ Q, h b fun rest => width * n ≤ rest.length ∧ Q (rest.drop (width * n)),
        List.length_drop, List.drop_drop, Nat.mul_succ, Nat.add_comm (width * n)]
      constructor
      · rintro ⟨hb, hrest, hQ⟩
        exact ⟨by omega, hQ⟩
      · rintro ⟨hb, hQ⟩
        exact ⟨by omega, by omega, hQ⟩

@[simp] theorem within_times_u32 {Q : Bytes → Prop} :
    (times u32 n).Within b (fun _ rest => Q rest) ↔ 4 * n ≤ b.length ∧ Q (b.drop (4 * n)) :=
  takes_times takes_u32 n b Q

/-- Values that check for themselves how long they are can be read in any number. -/
theorem within_times {r : Reader α} (h : ∀ b, r.Within b fun _ _ => True) (n : Nat) (b : Bytes) :
    (times r n).Within b fun _ _ => True := by
  suffices hgo : ∀ seen b, (times.go r n seen).Within b fun _ _ => True from hgo [] b
  induction n with
  | zero => intro seen b; simp [times.go]
  | succ n ih =>
      intro seen b
      rw [times.go, within_bind]
      exact (h b).imp fun a rest _ _ => ih (a :: seen) rest

end Reader

namespace Address

variable {width : Nat} {b : Bytes} {Q : Bytes → Prop}

theorem takes_read : (read : Reader (Address width)).Takes width := by
  intro b Q
  rw [read, Reader.within_bind]
  simpa using Reader.takes_octets width b Q

@[simp] theorem within_read : (read : Reader (Address width)).Within b (fun _ rest => Q rest) ↔
    width ≤ b.length ∧ Q (b.drop width) := takes_read b Q

@[simp] theorem within_times_read {n : Nat} :
    (Reader.times (read : Reader (Address width)) n).Within b (fun _ rest => Q rest) ↔
      width * n ≤ b.length ∧ Q (b.drop (width * n)) := Reader.takes_times takes_read n b Q

end Address

/-- What decoding comes to when no byte behind the end is looked at and no length falls below zero: a
value that takes up no more bytes than there are, or a reason why the bytes are no message. -/
def InBounds {α : Type} (b : Bytes) : Except DecodeError (α × Nat) → Prop
  | .ok (_, n) => n ≤ b.length
  | .error e => e ≠ .pastEnd

theorem Spelling.inBounds_decode {α : Type} [WireFormat α] [Spelling α] {b : Bytes}
    (h : (WireFormat.read : Reader α).Within b fun _ _ => True) : InBounds b (decode α b) := by
  have hrest : (WireFormat.read : Reader α).Within b fun _ rest => rest.length ≤ b.length := by
    refine h.imp fun a rest hr _ => ?_
    obtain ⟨-, -, front, rfl, -⟩ := run_read_ok.1 hr
    simp
  cases hd : decode α b with
  | ok p => exact le_length_of_decode hd
  | error e =>
      rintro rfl
      refine absurd hd (Reader.run'_ne_pastEnd.2 ?_)
      simpa [Reader.consumed] using hrest

end PacketWatch
