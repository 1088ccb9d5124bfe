import PacketWatch.Proofs.Wire.Digits
import PacketWatch.Wire.Format

namespace PacketWatch.Reader

variable {α β : Type} {b rest : Bytes}

/-! What it takes for a reader to succeed, from the whole input `b` to what is left of it. -/

theorem run_pure_ok {a x : α} : (pure a : Reader α).run b = .ok (x, rest) ↔ x = a ∧ rest = b := by
  constructor
  · intro h
    cases h
    exact ⟨rfl, rfl⟩
  · rintro ⟨rfl, rfl⟩
    rfl

theorem run_bind_ok {r : Reader α} {f : α → Reader β} {x : β} :
    (r >>= f).run b = .ok (x, rest) ↔
      ∃ a left, r.run b = .ok (a, left) ∧ (f a).run left = .ok (x, rest) := by
  rw [StateT.run_bind]
  cases h : r.run b with
  | error e => simp [bind, Except.bind]
  | ok p =>
      obtain ⟨a, left⟩ := p
      simp [bind, Except.bind]

theorem run_map_ok {r : Reader α} {f : α → β} {x : β} :
    (f <$> r).run b = .ok (x, rest) ↔ ∃ a, r.run b = .ok (a, rest) ∧ x = f a := by
  rw [← bind_pure_comp, run_bind_ok]
  simp only [run_pure_ok]
  constructor
  · rintro ⟨a, left, ha, hx, rfl⟩
    exact ⟨a, ha, hx⟩
  · rintro ⟨a, ha, hx⟩
    exact ⟨a, rest, ha, hx, rfl⟩

theorem run'_ok {r : Reader α} {x : α} : r.run' b = .ok x ↔ ∃ rest, r.run b = .ok (x, rest) := by
  rw [StateT.run'_eq]
  cases r.run b with
  | error e => simp [Functor.map, Except.map]
  | ok p =>
      obtain ⟨a, rest⟩ := p
      simp [Functor.map, Except.map]

theorem run_get_ok {x : Bytes} : (get : Reader Bytes).run b = .ok (x, rest) ↔ x = b ∧ rest = b := by
  constructor
  · intro h
    cases h
    exact ⟨rfl, rfl⟩
  · rintro ⟨rfl, rfl⟩
    rfl

theorem run_set_ok {s : Bytes} {u : PUnit} : (set s : Reader PUnit).run b = .ok (u, rest) ↔ rest = s := by
  constructor
  · intro h
    cases h
    rfl
  · rintro rfl
    rfl

/-- A reader run on bytes of its own. -/
theorem run_lift_ok {r : Except DecodeError α} {x : α} :
    (liftM r : Reader α).run b = .ok (x, rest) ↔ r = .ok x ∧ rest = b := by
  cases r with
  | error e =>
      constructor
      · intro h
        cases h
      · rintro ⟨h, -⟩
        cases h
  | ok a =>
      constructor
      · intro h
        cases h
        exact ⟨rfl, rfl⟩
      · rintro ⟨h, rfl⟩
        cases h
        rfl

theorem run_throw_ok {e : DecodeError} {x : α} : ¬ (throw e : Reader α).run b = .ok (x, rest) := by
  intro h
  cases h

/-- A check that fails with an error. -/
theorem run_unless_ok {c : Prop} [Decidable c] {e : DecodeError} {r : Reader α} {x : α} :
    (if c then (throw e : Reader PUnit) >>= fun _ => r else r).run b = .ok (x, rest) ↔
      ¬ c ∧ r.run b = .ok (x, rest) := by
  by_cases h : c
  · rw [if_pos h, run_bind_ok]
    exact ⟨fun ⟨_, _, ht, _⟩ => absurd ht run_throw_ok, fun hr => absurd h hr.1⟩
  · rw [if_neg h]
    exact ⟨fun hr => ⟨h, hr⟩, fun hr => hr.2⟩

theorem run_need_ok {n : Nat} {u : Unit} :
    (need n).run b = .ok (u, rest) ↔ n ≤ b.length ∧ rest = b := by
  change (if Wire.reaches b n then Except.ok ((), b) else _) = _ ↔ _
  by_cases h : n ≤ b.length
  · simp [Wire.reaches_eq_true_iff.2 h, h, eq_comm]
  · simp [h]

theorem run_need_of_lt {n : Nat} (h : b.length < n) : (need n).run b = .error (.truncated n b.length) :=
  if_neg fun hr => Nat.not_le_of_lt h (Wire.reaches_eq_true_iff.1 hr)

theorem run_declare_ok {field : Field} {n : Nat} {start : Bytes} {u : Unit} :
    (declare field n start).run b = .ok (u, rest) ↔ n ≤ start.length ∧ rest = b := by
  rw [declare]
  by_cases h : n ≤ start.length
  · rw [if_pos (Wire.reaches_eq_true_iff.2 h), run_pure_ok]
    exact ⟨fun hr => ⟨h, hr.2⟩, fun hr => ⟨rfl, hr.2⟩⟩
  · rw [if_neg (fun hr => h (Wire.reaches_eq_true_iff.1 hr))]
    exact ⟨fun hr => absurd hr run_throw_ok, fun hr => absurd hr.1 h⟩

theorem run_minus_ok {n m k : Nat} :
    (minus n m).run b = .ok (k, rest) ↔ m ≤ n ∧ k = n - m ∧ rest = b := by
  rw [minus]
  by_cases h : m ≤ n
  · rw [if_pos h, run_pure_ok]
    exact ⟨fun hr => ⟨h, hr⟩, fun hr => hr.2⟩
  · rw [if_neg h]
    exact ⟨fun hr => absurd hr run_throw_ok, fun hr => absurd hr.1 h⟩

theorem run_consumed_ok {start : Bytes} {n : Nat} : (consumed start).run b = .ok (n, rest) ↔
    b.length ≤ start.length ∧ n = start.length - b.length ∧ rest = b := by
  rw [consumed]
  simp only [run_bind_ok, run_get_ok, run_minus_ok]
  constructor
  · rintro ⟨_, _, ⟨rfl, rfl⟩, h⟩
    exact h
  · intro h
    exact ⟨b, b, ⟨rfl, rfl⟩, h⟩

theorem run_rest_ok {x : Bytes} : Reader.rest.run b = .ok (x, rest) ↔ x = b ∧ rest = [] := by
  change Except.ok (b, []) = _ ↔ _
  simp [eq_comm]

theorem run_take_ok {n : Nat} {x : Bytes} :
    (take n).run b = .ok (x, rest) ↔ x.length = n ∧ b = x ++ rest := by
  change (if (b.take n).length = n then Except.ok (b.take n, b.drop n) else _) = _ ↔ _
  constructor
  · intro h
    split at h
    · next hn =>
      cases h
      exact ⟨hn, (List.take_append_drop n b).symm⟩
    · cases h
  · rintro ⟨rfl, rfl⟩
    simp

theorem run_take_of_le {n : Nat} (h : n ≤ b.length) : (take n).run b = .ok (b.take n, b.drop n) :=
  run_take_ok.2 ⟨List.length_take_of_le h, (List.take_append_drop n b).symm⟩

theorem run_take_of_lt {n : Nat} (h : b.length < n) : (take n).run b = .error .pastEnd :=
  if_neg (by rw [List.length_take]; omega)

theorem run_octets_ok {n : Nat} {x : Vector UInt8 n} :
    (octets n).run b = .ok (x, rest) ↔ b = x.toList ++ rest := by
  simp only [octets, StateT.run]
  constructor
  · intro h
    split at h
    · cases h
      exact (List.take_append_drop n b).symm
    · cases h
  · rintro rfl
    have hn : (x.toList ++ rest).take n = x.toList := by
      rw [List.take_append_of_le_length (by simp), List.take_of_length_le (by simp)]
    have hd : (x.toList ++ rest).drop n = rest := by
      rw [List.drop_append_of_le_length (by simp), List.drop_of_length_le (by simp), List.nil_append]
    rw [dif_pos (by rw [hn, Vector.length_toList]), hd]
    congr 2
    apply Vector.toList_inj.1
    simp [hn]

theorem exists_run_octets_of_le {n : Nat} (h : n ≤ b.length) : ∃ x, (octets n).run b = .ok (x, b.drop n) :=
  ⟨⟨(b.take n).toArray, List.length_take_of_le h⟩, run_octets_ok.2 (by simp)⟩

theorem run_octets_of_lt {n : Nat} (h : b.length < n) : (octets n).run b = .error .pastEnd :=
  dif_neg (by rw [List.length_take]; omega)

theorem run_skip_ok {n : Nat} {u : Unit} :
    (skip n).run b = .ok (u, rest) ↔ ∃ x : Bytes, x.length = n ∧ b = x ++ rest := by
  change ((fun _ => ()) <$> take n).run b = _ ↔ _
  simp only [run_map_ok, run_take_ok, and_true]

theorem run_word_ok {width n : Nat} :
    (word width).run b = .ok (n, rest) ↔ n < 256 ^ width ∧ b = Wire.digits width n ++ rest := by
  change (take width >>= fun x => pure (Wire.value x)).run b = _ ↔ _
  simp only [run_bind_ok, run_pure_ok, run_take_ok]
  constructor
  · rintro ⟨x, left, ⟨rfl, rfl⟩, rfl, rfl⟩
    rw [Wire.digits_value]
    exact ⟨Wire.value_lt x, rfl⟩
  · rintro ⟨hn, rfl⟩
    exact ⟨_, rest, ⟨Wire.length_digits width n, rfl⟩, (Wire.value_digits hn).symm, rfl⟩

theorem run_u8_ok {x : UInt8} : u8.run b = .ok (x, rest) ↔ b = x :: rest := by
  change (word 1 >>= fun n => pure (UInt8.ofNat n)).run b = _ ↔ _
  simp only [run_bind_ok, run_pure_ok, run_word_ok]
  constructor
  · rintro ⟨n, left, ⟨hn, rfl⟩, rfl, rfl⟩
    rfl
  · rintro rfl
    exact ⟨x.toNat, rest, ⟨x.toNat_lt, by rw [Wire.digits_one]; rfl⟩, by simp, rfl⟩

theorem run_u16_ok {x : UInt16} :
    u16.run b = .ok (x, rest) ↔ b = Wire.digits 2 x.toNat ++ rest := by
  change (word 2 >>= fun n => pure (UInt16.ofNat n)).run b = _ ↔ _
  simp only [run_bind_ok, run_pure_ok, run_word_ok]
  constructor
  · rintro ⟨n, left, ⟨hn, rfl⟩, rfl, rfl⟩
    have hmod : n % 2 ^ 16 = n := Nat.mod_eq_of_lt hn
    rw [UInt16.toNat_ofNat', hmod]
  · rintro rfl
    exact ⟨x.toNat, rest, ⟨x.toNat_lt, rfl⟩, by simp, rfl⟩

theorem run_u32_ok {x : UInt32} :
    u32.run b = .ok (x, rest) ↔ b = Wire.digits 4 x.toNat ++ rest := by
  change (word 4 >>= fun n => pure (UInt32.ofNat n)).run b = _ ↔ _
  simp only [run_bind_ok, run_pure_ok, run_word_ok]
  constructor
  · rintro ⟨n, left, ⟨hn, rfl⟩, rfl, rfl⟩
    have hmod : n % 2 ^ 32 = n := Nat.mod_eq_of_lt hn
    rw [UInt32.toNat_ofNat', hmod]
  · rintro rfl
    exact ⟨x.toNat, rest, ⟨x.toNat_lt, rfl⟩, by simp, rfl⟩

theorem run_peekByte_ok {x : UInt8} :
    peekByte.run b = .ok (x, rest) ↔ (∃ left, b = x :: left) ∧ rest = b := by
  rw [peekByte]
  simp only [run_bind_ok, run_get_ok, run_u8_ok, run_set_ok, run_pure_ok]
  constructor
  · rintro ⟨_, _, ⟨rfl, rfl⟩, y, left, hb, _, _, rfl, rfl, rfl⟩
    exact ⟨⟨left, hb⟩, rfl⟩
  · rintro ⟨⟨left, hb⟩, rfl⟩
    exact ⟨_, _, ⟨rfl, rfl⟩, x, left, hb, (), _, rfl, rfl, rfl⟩

section Times

variable {r : Reader α} {P : α → Prop} {f : α → Bytes}

theorem run_times_go_ok
    (hr : ∀ {b rest : Bytes} {a : α}, r.run b = .ok (a, rest) ↔ P a ∧ b = f a ++ rest)
    {n : Nat} {seen l : List α} :
    (times.go r n seen).run b = .ok (l, rest) ↔
      ∃ m : List α, l = seen.reverse ++ m ∧ m.length = n ∧ (∀ a ∈ m, P a) ∧
        b = m.flatMap f ++ rest := by
  induction n generalizing seen b with
  | zero =>
      rw [times.go, run_pure_ok]
      constructor
      · rintro ⟨rfl, rfl⟩
        exact ⟨[], by simp, rfl, by simp, rfl⟩
      · rintro ⟨m, rfl, hm, -, rfl⟩
        rw [List.length_eq_zero_iff.1 hm]
        exact ⟨by simp, rfl⟩
  | succ n ih =>
      rw [times.go]
      simp only [run_bind_ok, hr, ih]
      constructor
      · rintro ⟨a, left, ⟨ha, rfl⟩, m, rfl, rfl, hm, rfl⟩
        refine ⟨a :: m, by simp, rfl, ?_, by simp⟩
        simpa using ⟨ha, hm⟩
      · rintro ⟨m, rfl, hn, hm, rfl⟩
        cases m with
        | nil => simp at hn
        | cons a m =>
            rw [List.forall_mem_cons] at hm
            refine ⟨a, m.flatMap f ++ rest, ⟨hm.1, by simp⟩, m, by simp, by simpa using hn, hm.2, rfl⟩

/-- A reader that reads values back from their encodings reads lists of them back. -/
theorem run_times_ok
    (hr : ∀ {b rest : Bytes} {a : α}, r.run b = .ok (a, rest) ↔ P a ∧ b = f a ++ rest)
    {n : Nat} {l : List α} :
    (times r n).run b = .ok (l, rest) ↔
      l.length = n ∧ (∀ a ∈ l, P a) ∧ b = l.flatMap f ++ rest := by
  rw [times, run_times_go_ok hr]
  constructor
  · rintro ⟨m, rfl, hm⟩
    exact hm
  · intro hl
    exact ⟨l, rfl, hl⟩

end Times

end PacketWatch.Reader
