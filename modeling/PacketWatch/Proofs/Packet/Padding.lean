import Mathlib.Order.Bounds.Defs
import PacketWatch.Proofs.Packet.Extension

namespace PacketWatch

open Wire

theorem isLeast_pad8 (n : Nat) : IsLeast {m | 8 ∣ m ∧ n ≤ m} (pad8 n) := by
  refine ⟨⟨dvd_pad8 n, le_pad8 n⟩, ?_⟩
  rintro m ⟨hm, hle⟩
  have hlt := pad8_lt n
  have hdvd := dvd_pad8 n
  omega

/-- What a mask keeps of a word and what its complement keeps add up to the word. -/
theorem toNat_and_add_and_not {w : Nat} (x mask : BitVec w) :
    (x &&& mask).toNat + (x &&& ~~~mask).toNat = x.toNat := by
  have hdisjoint : (x &&& mask) &&& (x &&& ~~~mask) = 0#w := by
    ext i
    simp only [BitVec.getElem_and, BitVec.getElem_not, BitVec.getElem_zero]
    cases mask[i] <;> simp
  have hjoin : (x &&& mask) ||| (x &&& ~~~mask) = x := by
    ext i
    simp only [BitVec.getElem_or, BitVec.getElem_and, BitVec.getElem_not]
    cases mask[i] <;> simp
  rw [← BitVec.toNat_add_of_and_eq_zero hdisjoint, BitVec.add_eq_or_of_and_eq_zero _ _ hdisjoint, hjoin]

/-- In words of 64 bits a sum that does not wrap is rounded down by clearing its three lowest bits. -/
theorem toNat_add_seven_and_not {n : Nat} (h : n + 7 < 2 ^ 64) :
    ((BitVec.ofNat 64 n + 7#64) &&& ~~~7#64).toNat = pad8 n := by
  have hsum : (BitVec.ofNat 64 n + 7#64).toNat = n + 7 := by
    rw [BitVec.toNat_add, BitVec.toNat_ofNat, BitVec.toNat_ofNat]
    omega
  have hlow : ((BitVec.ofNat 64 n + 7#64) &&& 7#64).toNat = (n + 7) % 8 := by
    rw [BitVec.toNat_and, hsum]
    exact Nat.and_two_pow_sub_one_eq_mod (n + 7) 3
  have hparts := toNat_and_add_and_not (BitVec.ofNat 64 n + 7#64) 7#64
  rw [hlow, hsum] at hparts
  rw [pad8]
  omega

/-- A header of the given size with so many bytes in it. Rounding up adds nothing to them, and the units
of 8 bytes are at least the one that the header does not count. -/
structure FillsUnits (used size : Nat) : Prop where
  size_eq : size = used
  pad8_eq : pad8 used = size
  pos : 0 < size
  dvd : 8 ∣ size
  one_le_units : 1 ≤ size / 8

theorem fillsUnits_of_dvd {n : Nat} (hpos : 0 < n) (h : 8 ∣ n) : FillsUnits n n :=
  ⟨rfl, pad8_of_dvd h, hpos, h, Nat.div_pos (Nat.le_of_dvd hpos h) (by decide)⟩

namespace HopOption

inductive Fills : Nat → List HopOption → Prop
  | none : Fills 0 []
  | one : Fills 1 [pad1]
  | zeros {gap : Nat} : 2 ≤ gap → Fills gap [tlv padKind (List.replicate (gap - 2) 0)]

theorem fills_padding (gap : Nat) : Fills gap (padding gap) := by
  match gap with
  | 0 => exact .none
  | 1 => exact .one
  | gap + 2 => exact .zeros (Nat.le_add_left 2 gap)

end HopOption

namespace HopByHop

structure PadsOut (options : List HopOption) (h : HopByHop) : Prop where
  least : IsLeast {m | 8 ∣ m ∧ 2 + total HopOption.size options ≤ m} (2 + total HopOption.size h.options)
  added : ∃ gap pad, h.options = options ++ pad ∧ HopOption.Fills gap pad ∧
    2 + total HopOption.size options + gap = 2 + total HopOption.size h.options
  rebuilt : ∀ nextHeader, (ofOptions nextHeader h.options).options = h.options
  fills : FillsUnits (2 + total HopOption.size h.options) h.size

variable {b : Bytes} {h : HopByHop} {n : Nat}

theorem fillsUnits (h : HopByHop) : FillsUnits (2 + total HopOption.size h.options) h.size :=
  fillsUnits_of_dvd (Nat.add_pos_left (by decide) _) h.aligned

theorem total_size_ofOptions (nextHeader : UInt8) (options : List HopOption) :
    2 + total HopOption.size (ofOptions nextHeader options).options = pad8 (2 + total HopOption.size options) := by
  have hle := le_pad8 (2 + total HopOption.size options)
  rw [ofOptions, total_append, HopOption.total_size_padding]
  omega

theorem padsOut_ofOptions (nextHeader : UInt8) (options : List HopOption) :
    PadsOut options (ofOptions nextHeader options) where
  least := by
    rw [total_size_ofOptions]
    exact isLeast_pad8 _
  added := by
    have hle := le_pad8 (2 + total HopOption.size options)
    refine ⟨_, _, rfl, HopOption.fills_padding _, ?_⟩
    rw [total_size_ofOptions, Nat.add_sub_cancel' hle]
  rebuilt nextHeader' := by
    rw [ofOptions_of_dvd nextHeader' _ (ofOptions nextHeader options).aligned]
  fills := fillsUnits _

/-- The options that the reader finds are those of the header: they fill it as they are. -/
theorem readUntil_of_decode (hd : decode HopByHop b = .ok (h, n)) : n = h.size ∧
    (HopOption.readUntil n 2 []).run (b.drop 2) = .ok (h.options, b.drop n) := by
  have hsize : n = h.size := Spelling.size_of_decode hd
  obtain ⟨rest, hr, -⟩ := Spelling.decode_ok_iff.1 hd
  obtain ⟨hback, hfit, rfl⟩ := run_read_ok.1 hr
  have hrest : (h.bytes ++ rest).drop n = rest := by
    rw [hsize, ← length_bytes, List.drop_left]
  rw [limits, fit_cons] at hfit
  refine ⟨hsize, ?_⟩
  rw [hrest, HopOption.run_readUntil_ok (hsize ▸ Nat.le_add_right 2 _)]
  exact ⟨h.options, rfl, hback, hfit.2, hsize.symm, rfl⟩

end HopByHop

namespace Routing

structure PadsOut (data : Bytes) (h : Routing) : Prop where
  least : IsLeast {m | 8 ∣ m ∧ 4 + data.length ≤ m} (4 + h.data.length)
  added : ∃ gap ≤ 7, h.data = data ++ List.replicate gap 0
  rebuilt : ∀ nextHeader kind segmentsLeft, (ofData nextHeader kind segmentsLeft h.data).data = h.data
  fills : FillsUnits (4 + h.data.length) h.size

variable {b : Bytes} {h : Routing} {n : Nat}

theorem fillsUnits (h : Routing) : FillsUnits (4 + h.data.length) h.size :=
  fillsUnits_of_dvd (Nat.add_pos_left (by decide) _) h.aligned

theorem padsOut_ofData (nextHeader kind segmentsLeft : UInt8) (data : Bytes) :
    PadsOut data (ofData nextHeader kind segmentsLeft data) where
  least := by
    have hle := le_pad8 (4 + data.length)
    have hlength : 4 + (ofData nextHeader kind segmentsLeft data).data.length = pad8 (4 + data.length) := by
      rw [ofData, List.length_append, List.length_replicate]
      omega
    rw [hlength]
    exact isLeast_pad8 _
  added := by
    have hlt := pad8_lt (4 + data.length)
    exact ⟨pad8 (4 + data.length) - (4 + data.length), by omega, rfl⟩
  rebuilt nextHeader' kind' segmentsLeft' := by
    rw [ofData_of_dvd nextHeader' kind' segmentsLeft' _ (ofData nextHeader kind segmentsLeft data).aligned]
  fills := fillsUnits _

/-- The data of a decoded header are the bytes behind its fixed part, and no zeros. -/
theorem data_of_decode (hd : decode Routing b = .ok (h, n)) : n = h.size ∧ h.data = (b.take n).drop 4 := by
  have hsize : n = h.size := Spelling.size_of_decode hd
  obtain ⟨rest, hr, -⟩ := Spelling.decode_ok_iff.1 hd
  obtain ⟨-, rfl⟩ := run_read_ok.1 hr
  refine ⟨hsize, ?_⟩
  rw [hsize, ← length_bytes, List.take_left]
  rfl

end Routing

/-- Headers are padded up to the end of a unit of 8 bytes and no further, and what is padded already stays
as it is. A header that is decoded is filled by what was read. -/
theorem headers_fill_units :
    (∀ n, IsLeast {m | 8 ∣ m ∧ n ≤ m} (pad8 n) ∧
      (n + 7 < 2 ^ 64 → ((BitVec.ofNat 64 n + 7#64) &&& ~~~7#64).toNat = pad8 n)) ∧
    (∀ nextHeader options, HopByHop.PadsOut options (HopByHop.ofOptions nextHeader options)) ∧
    (∀ nextHeader kind segmentsLeft data,
      Routing.PadsOut data (Routing.ofData nextHeader kind segmentsLeft data)) ∧
    (∀ b h n, decode HopByHop b = .ok (h, n) → n = h.size ∧
      (HopOption.readUntil n 2 []).run (b.drop 2) = .ok (h.options, b.drop n) ∧
      FillsUnits (2 + total HopOption.size h.options) n) ∧
    ∀ b h n, decode Routing b = .ok (h, n) → n = h.size ∧ h.data = (b.take n).drop 4 ∧
      FillsUnits (4 + h.data.length) n := by
  refine ⟨fun n => ⟨isLeast_pad8 n, toNat_add_seven_and_not⟩, HopByHop.padsOut_ofOptions, Routing.padsOut_ofData,
    fun b h n hd => ?_, fun b h n hd => ?_⟩
  · obtain ⟨rfl, hr⟩ := HopByHop.readUntil_of_decode hd
    exact ⟨rfl, hr, h.fillsUnits⟩
  · obtain ⟨rfl, hdata⟩ := Routing.data_of_decode hd
    exact ⟨rfl, hdata, h.fillsUnits⟩

theorem headers_fill_units_router_alert :
    (13 + 7 < 2 ^ 64 ∧ ((BitVec.ofNat 64 13 + 7#64) &&& ~~~7#64).toNat = 16) ∧
    (decode HopByHop [58, 0, 5, 2, 0, 0, 1, 0] = .ok (.ofOptions 58 [.routerAlert 0], 8) ∧
      (HopOption.readUntil 8 2 []).run [5, 2, 0, 0, 1, 0] = .ok ([.routerAlert 0, .tlv 1 []], [])) ∧
    decode Routing [44, 0, 4, 1, 1, 2, 3, 4] = .ok (.ofData 44 4 1 [1, 2, 3, 4], 8) ∧
      (Routing.ofData 44 4 1 [1, 2, 3, 4]).data = [1, 2, 3, 4] := by
  obtain ⟨hround, -, -, hop, routing⟩ := headers_fill_units
  have hhop : decode HopByHop [58, 0, 5, 2, 0, 0, 1, 0] = .ok (.ofOptions 58 [.routerAlert 0], 8) := by
    have hoptions : (HopByHop.ofOptions 58 [.routerAlert 0]).options = [.routerAlert 0, .tlv 1 []] := rfl
    have hback : (HopByHop.ofOptions 58 [.routerAlert 0]).ReadsBack := by
      rw [HopByHop.readsBack_iff, hoptions]
      simp [HopOption.routerAlert, HopOption.routerAlertKind]
    exact (Spelling.decode_of_encode rfl).2 hback
  have hrouting : decode Routing [44, 0, 4, 1, 1, 2, 3, 4] = .ok (.ofData 44 4 1 [1, 2, 3, 4], 8) :=
    (Spelling.decode_of_encode rfl).2 trivial
  exact ⟨⟨by decide, (hround 13).2 (by decide)⟩, ⟨hhop, (hop _ _ _ hhop).2.1⟩, hrouting,
    (routing _ _ _ hrouting).2.1⟩

end PacketWatch
