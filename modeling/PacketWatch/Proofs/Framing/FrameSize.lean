import PacketWatch.Packet.Basic
import PacketWatch.Proofs.Packet.Canonical
import PacketWatch.Proofs.Wire.Failing

namespace PacketWatch

open Wire

variable {b : Bytes} {n : Nat} {e : DecodeError}

theorem peekPayloadLength_of_le (h : 6 ≤ b.length) :
    Packet.peekPayloadLength b = .ok (value ((b.drop 4).take 2)) := by
  rw [Packet.peekPayloadLength, StateT.run'_eq, Reader.run_need_bind_of_le h,
    Reader.run_bind_of_ok (Reader.run_skip_of_le (by omega)),
    Reader.run_word_of_le (by rw [List.length_drop]; omega)]
  rfl

theorem peekPayloadLength_of_lt (h : b.length < 6) :
    Packet.peekPayloadLength b = .error (.truncated 6 b.length) := by
  rw [Packet.peekPayloadLength, StateT.run'_eq, Reader.run_need_bind_of_lt h]
  rfl

/-- The first byte alone tells the version, and the first six bytes the size. -/
theorem frameSize?_cons (first : UInt8) (b : Bytes) : frameSize? (first :: b) =
    if UInt8.ofNat (first.toNat / 16) ≠ 6 then .error (.invalidVersion (UInt8.ofNat (first.toNat / 16)))
    else if (first :: b).length < 6 then .ok none
    else .ok (some (Packet.headerSize + value (((first :: b).drop 4).take 2))) := by
  rw [frameSize?]
  by_cases hlen : (first :: b).length < 6
  · rw [peekPayloadLength_of_lt hlen, if_pos hlen]
    rfl
  · rw [peekPayloadLength_of_le (Nat.le_of_not_lt hlen), if_neg hlen]

theorem exists_version_of_frameSize?_error (h : frameSize? b = .error e) :
    ∃ first rest, b = first :: rest ∧ first >>> 4 ≠ 6 ∧ e = .invalidVersion (first >>> 4) := by
  cases b with
  | nil => cases h
  | cons first b =>
      have hversion : UInt8.ofNat (first.toNat / 16) = first >>> 4 := by
        have hlt := first.toNat_lt
        apply UInt8.toNat_inj.1
        rw [UInt8.toNat_ofNat', UInt8.toNat_shiftRight, Nat.shiftRight_eq_div_pow]
        have hfour : (4 : UInt8).toNat % 8 = 4 := rfl
        rw [hfour]
        omega
      rw [frameSize?_cons, hversion] at h
      split at h
      · next hne =>
        cases h
        exact ⟨first, b, rfl, hne, rfl⟩
      · split at h <;> cases h

theorem frameSize?_append_of_le (h : 6 ≤ b.length) (c : Bytes) : frameSize? (b ++ c) = frameSize? b := by
  cases b with
  | nil => cases h
  | cons first b =>
      have hlong : ¬ (first :: b).length < 6 := Nat.not_lt.2 h
      have hlong' : ¬ (first :: (b ++ c)).length < 6 := by
        rw [← List.cons_append, List.length_append]; omega
      have htwo : ((first :: (b ++ c)).drop 4).take 2 = ((first :: b).drop 4).take 2 := by
        rw [← List.cons_append, List.drop_append_of_le_length (by omega),
          List.take_append_of_le_length (by rw [List.length_drop]; omega)]
      rw [List.cons_append, frameSize?_cons, frameSize?_cons, if_neg hlong, if_neg hlong', htwo]

theorem le_of_frameSize? (h : frameSize? b = .ok (some n)) : 6 ≤ b.length ∧ Packet.headerSize ≤ n := by
  cases b with
  | nil => cases h
  | cons first b =>
      rw [frameSize?_cons] at h
      split at h
      · cases h
      · split at h
        · cases h
        · next hlen =>
          cases h
          exact ⟨Nat.le_of_not_lt hlen, Nat.le_add_right _ _⟩

theorem length_lt_of_frameSize?_none (h : frameSize? b = .ok none) : b.length < 6 := by
  cases b with
  | nil => decide
  | cons first b =>
      rw [frameSize?_cons] at h
      split at h
      · cases h
      · split at h
        · next hlen => exact hlen
        · cases h

/-- The payload length has two bytes. -/
theorem frameSize?_le (h : frameSize? b = .ok (some n)) : n ≤ Packet.headerSize + 0xffff := by
  cases b with
  | nil => cases h
  | cons first b =>
      rw [frameSize?_cons] at h
      split at h
      · cases h
      · split at h
        · cases h
        · next hlen =>
          cases h
          have hlt := value_lt (((first :: b).drop 4).take 2)
          rw [List.length_take_of_le (by rw [List.length_drop]; omega)] at hlt
          omega

/-- More bytes change nothing once the size is known. -/
theorem frameSize?_append (h : frameSize? b = .ok (some n)) (c : Bytes) :
    frameSize? (b ++ c) = .ok (some n) := by
  rw [frameSize?_append_of_le (le_of_frameSize? h).1, h]

theorem frameSize?_take (h : frameSize? b = .ok (some n)) (hle : n ≤ b.length) :
    frameSize? (b.take n) = .ok (some n) := by
  obtain ⟨-, hn⟩ := le_of_frameSize? h
  rw [Packet.headerSize] at hn
  have hlen : 6 ≤ (b.take n).length := by
    rw [List.length_take]; omega
  rw [← frameSize?_append_of_le hlen (b.drop n), List.take_append_drop, h]

theorem frameSize?_append_of_error (h : frameSize? b = .error e) (c : Bytes) :
    frameSize? (b ++ c) = .error e := by
  cases b with
  | nil => cases h
  | cons first b =>
      rw [frameSize?_cons] at h
      rw [List.cons_append, frameSize?_cons]
      split at h
      · next hversion =>
        rw [if_pos hversion]
        exact h
      · split at h <;> cases h

theorem frameSize?_headerBytes {p : Packet} (hversion : p.version = 6) (hfit : Fit p.limits) :
    frameSize? (p.headerBytes ++ b) = .ok (some p.size) := by
  simp only [Packet.limits, fit_append, fit_cons, fit_nil, and_true] at hfit
  obtain ⟨⟨-, hflow, hlength⟩, -⟩ := hfit
  obtain ⟨-, hsix⟩ := Packet.firstWord_of_six hversion hflow
  have htwo : ((p.headerBytes ++ b).drop 4).take 2 = digits 2 p.payloadLength := by
    rw [Packet.headerBytes, List.append_assoc, List.append_assoc, List.drop_left' (length_digits 4 _),
      List.take_left' (length_digits 2 _)]
  have hlong : ¬ (p.headerBytes ++ b).length < 6 := by
    rw [List.length_append, Packet.length_headerBytes, Packet.headerSize]
    omega
  have hcons : ∃ left, p.headerBytes ++ b = UInt8.ofNat (p.firstWord / 256 ^ 3) :: left := by
    rw [Packet.headerBytes, digits_succ 3, List.cons_append, List.cons_append]
    exact ⟨_, rfl⟩
  obtain ⟨left, hleft⟩ := hcons
  rw [hleft] at htwo hlong ⊢
  rw [frameSize?_cons, if_neg (not_not_intro hsix), if_neg hlong, htwo, value_digits (by omega)]
  rfl

/-- The frame of a packet that can be decoded is as long as what its decoder takes. -/
theorem frameSize?_of_decode {p : Packet} (h : decode Packet b = .ok (p, n)) :
    frameSize? b = .ok (some n) := by
  obtain ⟨rfl, -, hcanonical, hfit, hc⟩ := Spelling.decode_ok_iff_clears.1 h
  obtain ⟨back, hback, -⟩ := Packet.eq_headerBytes_of_clears hc
  rw [← List.take_append_drop (WireFormat.size p) b, hback, List.append_assoc]
  exact frameSize?_headerBytes hcanonical.version hfit

theorem parseFrame_ok_iff {p : Packet} : parseFrame b = .ok p ↔ decode Packet b = .ok (p, b.length) := by
  rw [parseFrame]
  cases decode Packet b with
  | error e => simp [bind, Except.bind]
  | ok r =>
      obtain ⟨q, used⟩ := r
      by_cases hused : used = b.length
      · simp [bind, Except.bind, pure, Except.pure, hused]
      · simp [bind, Except.bind, hused, throw, throwThe, MonadExceptOf.throw]

end PacketWatch
