import PacketWatch.Proofs.Wire.Spelling

namespace PacketWatch

open Wire

namespace Reader

variable {α β : Type} {b left : Bytes} {n m : Nat} {e : DecodeError}

theorem run_bind_of_ok {r : Reader α} {f : α → Reader β} {a : α} (h : r.run b = .ok (a, left)) :
    (r >>= f).run b = (f a).run left := by
  rw [StateT.run_bind, h]
  rfl

theorem run_bind_of_error {r : Reader α} {f : α → Reader β} (h : r.run b = .error e) :
    (r >>= f).run b = .error e := by
  rw [StateT.run_bind, h]
  rfl

theorem run_bind_error {r : Reader α} {f : α → Reader β} : (r >>= f).run b = .error e ↔
    r.run b = .error e ∨ ∃ a left, r.run b = .ok (a, left) ∧ (f a).run left = .error e := by
  cases h : r.run b with
  | error e' => simp [run_bind_of_error h]
  | ok p =>
      obtain ⟨a, left⟩ := p
      simp [run_bind_of_ok h]

theorem run_map_error {r : Reader α} {f : α → β} : (f <$> r).run b = .error e ↔ r.run b = .error e := by
  rw [← bind_pure_comp, run_bind_error]
  refine or_iff_left ?_
  rintro ⟨a, left, -, h⟩
  cases h

/-- A check that fails with an error. -/
theorem run_unless {c : Prop} [Decidable c] {r : Reader α} :
    (if c then (throw e : Reader PUnit) >>= fun _ => r else r).run b = if c then .error e else r.run b := by
  split <;> rfl

theorem run_get_bind {f : Bytes → Reader α} : (get >>= f).run b = (f b).run b := rfl

theorem run_need_bind_of_lt {f : Unit → Reader α} (h : b.length < n) :
    (need n >>= f).run b = .error (.truncated n b.length) :=
  run_bind_of_error (run_need_of_lt h)

theorem run_need_bind_of_le {f : Unit → Reader α} (h : n ≤ b.length) :
    (need n >>= f).run b = (f ()).run b :=
  run_bind_of_ok (run_need_ok.2 ⟨h, rfl⟩)

theorem run_skip_of_le (h : n ≤ b.length) : (skip n).run b = .ok ((), b.drop n) :=
  run_skip_ok.2 ⟨b.take n, List.length_take_of_le h, (List.take_append_drop n b).symm⟩

theorem run_word_of_le (h : n ≤ b.length) : (word n).run b = .ok (value (b.take n), b.drop n) := by
  rw [word, run_bind_of_ok (run_take_of_le h)]
  rfl

theorem run_u8_of_le (h : 1 ≤ b.length) : u8.run b = .ok (UInt8.ofNat (value (b.take 1)), b.drop 1) := by
  rw [u8, run_bind_of_ok (run_word_of_le h)]
  rfl

theorem run_u16_of_le (h : 2 ≤ b.length) : u16.run b = .ok (UInt16.ofNat (value (b.take 2)), b.drop 2) := by
  rw [u16, run_bind_of_ok (run_word_of_le h)]
  rfl

theorem run_word_cons (x : UInt8) : (word 1).run (x :: b) = .ok (x.toNat, b) :=
  run_word_ok.2 ⟨x.toNat_lt, by rw [digits_one]; rfl⟩

theorem run_declare_of_lt {field : Field} {start : Bytes} (h : start.length < n) :
    (declare field n start).run b = .error (.inconsistentLength field n start.length) := by
  rw [declare, if_neg fun hr => Nat.not_le_of_lt h (reaches_eq_true_iff.1 hr)]
  rfl

theorem run_declare_bind_of_le {field : Field} {start : Bytes} {f : Unit → Reader α} (h : n ≤ start.length) :
    (declare field n start >>= f).run b = (f ()).run b :=
  run_bind_of_ok (run_declare_ok.2 ⟨h, rfl⟩)

def Raises (r : Reader α) (b : Bytes) (E : DecodeError → Prop) : Prop := ∀ e, r.run b = .error e → E e

variable {E : DecodeError → Prop}

theorem Raises.of_run {r : Reader α} {a : α} (h : r.run b = .ok (a, left)) : r.Raises b E := by
  intro e he
  rw [h] at he
  cases he

theorem Raises.of_error {r : Reader α} (h : r.run b = .error e) : r.Raises b E ↔ E e := by
  constructor
  · intro hr
    exact hr e h
  · intro hE e' he'
    rw [h] at he'
    cases he'
    exact hE

theorem Raises.imp {r : Reader α} {F : DecodeError → Prop} (h : r.Raises b E) (hEF : ∀ e, E e → F e) :
    r.Raises b F := fun e he => hEF e (h e he)

@[simp] theorem raises_pure {a : α} : (pure a : Reader α).Raises b E := Raises.of_run rfl

@[simp] theorem raises_get : (get : Reader Bytes).Raises b E := Raises.of_run rfl

@[simp] theorem raises_set {c : Bytes} : (set c : Reader PUnit).Raises b E := Raises.of_run rfl

@[simp] theorem raises_rest : Reader.rest.Raises b E := Raises.of_run rfl

@[simp] theorem raises_throw : (throw e : Reader α).Raises b E ↔ E e := Raises.of_error rfl

@[simp] theorem raises_bind {r : Reader α} {f : α → Reader β} : (r >>= f).Raises b E ↔
    r.Raises b E ∧ ∀ a left, r.run b = .ok (a, left) → (f a).Raises left E := by
  cases h : r.run b with
  | error e =>
      rw [Raises.of_error (run_bind_of_error h), Raises.of_error h]
      simp
  | ok p =>
      obtain ⟨a, left⟩ := p
      simp [Raises, run_bind_of_ok h, h]

@[simp] theorem raises_map {r : Reader α} {f : α → β} : (f <$> r).Raises b E ↔ r.Raises b E := by
  rw [← bind_pure_comp, raises_bind]
  simp

@[simp] theorem raises_ite {c : Prop} [Decidable c] {r s : Reader α} :
    (if c then r else s).Raises b E ↔ (c → r.Raises b E) ∧ (¬ c → s.Raises b E) := by
  by_cases h : c <;> simp [h]

@[simp] theorem raises_need : (need n).Raises b E ↔ (b.length < n → E (.truncated n b.length)) := by
  by_cases h : b.length < n
  · rw [Raises.of_error (run_need_of_lt h)]
    simp [h]
  · have hr : (need n).Raises b E := Raises.of_run (a := ()) (run_need_ok.2 ⟨Nat.le_of_not_lt h, rfl⟩)
    simp [h, hr]

@[simp] theorem raises_declare {field : Field} {start : Bytes} : (declare field n start).Raises b E ↔
    (start.length < n → E (.inconsistentLength field n start.length)) := by
  by_cases h : start.length < n
  · rw [Raises.of_error (run_declare_of_lt h)]
    simp [h]
  · have hr : (declare field n start).Raises b E :=
      Raises.of_run (a := ()) (run_declare_ok.2 ⟨Nat.le_of_not_lt h, rfl⟩)
    simp [h, hr]

@[simp] theorem raises_take : (take n).Raises b E ↔ (b.length < n → E .pastEnd) := by
  by_cases h : b.length < n
  · rw [Raises.of_error (run_take_of_lt h)]
    simp [h]
  · have hr : (take n).Raises b E := Raises.of_run (run_take_of_le (Nat.le_of_not_lt h))
    simp [h, hr]

@[simp] theorem raises_octets : (octets n).Raises b E ↔ (b.length < n → E .pastEnd) := by
  by_cases h : b.length < n
  · rw [Raises.of_error (run_octets_of_lt h)]
    simp [h]
  · obtain ⟨x, hx⟩ := exists_run_octets_of_le (Nat.le_of_not_lt h)
    have hr : (octets n).Raises b E := Raises.of_run hx
    simp [h, hr]

@[simp] theorem raises_minus : (minus n m).Raises b E ↔ (n < m → E .pastEnd) := by
  rw [minus, raises_ite]
  simp

@[simp] theorem raises_word : (word n).Raises b E ↔ (b.length < n → E .pastEnd) := by
  simp [word]

@[simp] theorem raises_skip : (skip n).Raises b E ↔ (b.length < n → E .pastEnd) :=
  raises_map.trans raises_take

@[simp] theorem raises_u8 : u8.Raises b E ↔ (b.length < 1 → E .pastEnd) := by
  simp [u8]

@[simp] theorem raises_u16 : u16.Raises b E ↔ (b.length < 2 → E .pastEnd) := by
  simp [u16]

@[simp] theorem raises_u32 : u32.Raises b E ↔ (b.length < 4 → E .pastEnd) := by
  simp [u32]

@[simp] theorem raises_peekByte : peekByte.Raises b E ↔ (b.length < 1 → E .pastEnd) := by
  simp only [peekByte, raises_bind, raises_get, raises_u8, raises_set, raises_pure, run_get_ok,
    implies_true, and_true, true_and]
  constructor
  · intro h
    exact h b b ⟨rfl, rfl⟩
  · rintro h _ _ ⟨-, rfl⟩
    exact h

/-! What is checked first is known behind the check. -/

@[simp high] theorem raises_get_bind {f : Bytes → Reader β} : (get >>= f).Raises b E ↔ (f b).Raises b E := Iff.rfl

@[simp high] theorem raises_throw_bind {f : α → Reader β} :
    ((throw e : Reader α) >>= f).Raises b E ↔ E e :=
  Raises.of_error (run_bind_of_error rfl)

@[simp high] theorem raises_need_bind {f : Unit → Reader β} : (need n >>= f).Raises b E ↔
    (b.length < n → E (.truncated n b.length)) ∧ (n ≤ b.length → (f ()).Raises b E) := by
  rw [raises_bind, raises_need]
  simp only [run_need_ok, and_imp, forall_eq_apply_imp_iff]
  exact and_congr_right fun _ => ⟨fun h => h (), fun h _ => h⟩

@[simp high] theorem raises_declare_bind {field : Field} {start : Bytes} {f : Unit → Reader β} :
    (declare field n start >>= f).Raises b E ↔
      (start.length < n → E (.inconsistentLength field n start.length)) ∧
        (n ≤ start.length → (f ()).Raises b E) := by
  rw [raises_bind, raises_declare]
  simp only [run_declare_ok, and_imp, forall_eq_apply_imp_iff]
  exact and_congr_right fun _ => ⟨fun h => h (), fun h _ => h⟩

theorem raises_bind_of_ok {r : Reader α} {f : α → Reader β} {a : α} (h : r.run b = .ok (a, left)) :
    (r >>= f).Raises b E ↔ (f a).Raises left E := by
  rw [Raises, run_bind_of_ok h]
  rfl

theorem run_times_go (r : Reader α) (n : Nat) (seen : List α) (b : Bytes) :
    (times.go r n seen).run b = ((times r n).run b).map fun (l, left) => (seen.reverse ++ l, left) := by
  rw [times]
  suffices hgo : ∀ front, (times.go r n (front ++ seen)).run b =
      ((times.go r n front).run b).map fun (l, left) => (seen.reverse ++ l, left) from hgo []
  induction n generalizing b with
  | zero =>
      intro front
      rw [times.go, times.go, List.reverse_append]
      rfl
  | succ n ih =>
      intro front
      rw [times.go, times.go]
      cases hr : r.run b with
      | error e => rw [run_bind_of_error hr, run_bind_of_error hr]; rfl
      | ok p =>
          obtain ⟨a, left⟩ := p
          rw [run_bind_of_ok hr, run_bind_of_ok hr]
          exact ih left (a :: front)

theorem run_times_succ_of_ok {r : Reader α} {a : α} (h : r.run b = .ok (a, left)) (n : Nat) :
    (times r (n + 1)).run b = ((times r n).run left).map fun (l, rest) => (a :: l, rest) := by
  rw [times, times.go, run_bind_of_ok h, run_times_go]
  rfl

/-- Reading the same again and again fails where one of them fails, behind those before it. By induction on
how many there are. -/
theorem run_times_error {r : Reader α} : (times r n).run b = .error e ↔
    ∃ l left, l.length < n ∧ (times r l.length).run b = .ok (l, left) ∧ r.run left = .error e := by
  induction n generalizing b with
  | zero =>
      constructor
      · intro h
        cases h
      · rintro ⟨l, left, hl, -⟩
        cases hl
  | succ n ih =>
      cases hr : r.run b with
      | error e' =>
          have htimes (m : Nat) : (times r (m + 1)).run b = .error e' := by
            rw [times, times.go, run_bind_of_error hr]
          rw [htimes]
          constructor
          · rintro ⟨⟩
            exact ⟨[], b, Nat.succ_pos n, rfl, hr⟩
          · rintro ⟨_ | ⟨a, l⟩, left, -, hl, he⟩
            · cases hl
              rw [hr] at he
              cases he
              rfl
            · rw [List.length_cons, htimes] at hl
              cases hl
      | ok p =>
          obtain ⟨a, left⟩ := p
          have herror : (times r (n + 1)).run b = .error e ↔ (times r n).run left = .error e := by
            rw [run_times_succ_of_ok hr]
            cases (times r n).run left <;> simp [Except.map]
          rw [herror, ih]
          constructor
          · rintro ⟨l, rest, hl, hrest, he⟩
            refine ⟨a :: l, rest, Nat.succ_lt_succ hl, ?_, he⟩
            rw [List.length_cons, run_times_succ_of_ok hr, hrest]
            rfl
          · rintro ⟨_ | ⟨a', l⟩, rest, hlen, hl, he⟩
            · cases hl
              rw [hr] at he
              cases he
            · rw [List.length_cons, run_times_succ_of_ok hr] at hl
              refine ⟨l, rest, Nat.lt_of_succ_lt_succ hlen, ?_, he⟩
              cases hm : (times r l.length).run left with
              | error e' => rw [hm] at hl; cases hl
              | ok q => rw [hm] at hl; cases hl; rfl

theorem raises_times {r : Reader α} (h : ∀ b, r.Raises b E) (n : Nat) (b : Bytes) :
    (times r n).Raises b E := by
  suffices hgo : ∀ seen b, (times.go r n seen).Raises b E from hgo [] b
  induction n with
  | zero => intro seen b; exact raises_pure
  | succ n ih =>
      intro seen b
      rw [times.go, raises_bind]
      exact ⟨h b, fun a left _ => ih (a :: seen) left⟩

end Reader

namespace Spelling

variable {α : Type} [WireFormat α] [Spelling α] {a : α} {b rest : Bytes} {n : Nat} {e : DecodeError}

theorem decode_of_run_ok (h : (WireFormat.read : Reader α).run b = .ok (a, rest)) :
    decode α b = .ok (a, b.length - rest.length) := by
  obtain ⟨-, -, front, rfl, -⟩ := run_read_ok.1 h
  exact decode_ok_iff.2 ⟨rest, h, by simp, rfl⟩

theorem run_read_of_decode (h : decode α b = .ok (a, n)) :
    (WireFormat.read : Reader α).run b = .ok (a, b.drop n) := by
  obtain ⟨rest, hread, -, rfl⟩ := decode_ok_iff.1 h
  obtain ⟨-, -, front, rfl, -⟩ := run_read_ok.1 hread
  have hdrop : (front ++ rest).drop ((front ++ rest).length - rest.length) = rest :=
    List.drop_left' (by simp)
  rw [hdrop, hread]

theorem decode_error_iff : decode α b = .error e ↔ (WireFormat.read : Reader α).run b = .error e := by
  cases h : (WireFormat.read : Reader α).run b with
  | ok p =>
      rw [decode_of_run_ok h]
      simp
  | error e' =>
      have hd : decode α b = .error e' := by
        rw [decode, StateT.run'_eq, Reader.run_bind_of_error h]
        rfl
      rw [hd]
      simp

end Spelling

end PacketWatch
