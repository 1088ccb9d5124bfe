import Mathlib.Algebra.Group.Nat.Defs
import Mathlib.Data.List.Induction
import PacketWatch.Wire.Basic

namespace PacketWatch.Wire

theorem value_concat (b : Bytes) (d : UInt8) : value (b ++ [d]) = 256 * value b + d.toNat := by
  simp [value]

theorem value_lt (b : Bytes) : value b < 256 ^ b.length := by
  induction b using List.reverseRecOn with
  | nil => simp [value]
  | append_singleton b d ih =>
      rw [value_concat, List.length_append, List.length_singleton, Nat.pow_succ]
      have hd : d.toNat < 256 := d.toNat_lt
      omega

/-- Reading digits undoes writing them when the number has no more of them. -/
theorem value_digits {width n : Nat} (h : n < 256 ^ width) : value (digits width n) = n := by
  induction width generalizing n with
  | zero =>
      rw [Nat.pow_zero, Nat.lt_one_iff] at h
      rw [h]; rfl
  | succ width ih =>
      have hq : n / 256 < 256 ^ width := by
        rw [Nat.div_lt_iff_lt_mul (by decide), ← Nat.pow_succ]
        exact h
      rw [digits, value_concat, ih hq, UInt8.toNat_ofNat']
      omega

/-- Every byte string is the digits of its value. -/
theorem digits_value (b : Bytes) : digits b.length (value b) = b := by
  induction b using List.reverseRecOn with
  | nil => rfl
  | append_singleton b d ih =>
      have hd : d.toNat < 256 := d.toNat_lt
      have hq : (256 * value b + d.toNat) / 256 = value b := by omega
      rw [value_concat, List.length_append, List.length_singleton, digits, hq, ih]
      congr 2
      apply UInt8.toNat_inj.1
      rw [UInt8.toNat_ofNat']
      omega

theorem digits_one (x : UInt8) : digits 1 x.toNat = [x] := by
  simp [digits]

theorem digits_succ (width n : Nat) :
    digits (width + 1) n = UInt8.ofNat (n / 256 ^ width) :: digits width n := by
  induction width generalizing n with
  | zero => simp [digits]
  | succ width ih =>
      have hq : n / 256 / 256 ^ width = n / 256 ^ (width + 1) := by
        rw [Nat.div_div_eq_div_mul, Nat.pow_succ, Nat.mul_comm]
      rw [digits, ih, hq, digits, List.cons_append]

theorem digits_two (n : Nat) : digits 2 n = [UInt8.ofNat (n / 256), UInt8.ofNat n] := rfl

end PacketWatch.Wire
