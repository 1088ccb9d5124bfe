import Mathlib.Data.List.Basic
import PacketWatch.Packet.Extension
import PacketWatch.Proofs.Packet.HopByHop

namespace PacketWatch

open Wire

namespace Routing

def limits (h : Routing) : List EncodeError := [⟨.routingLength, h.size / 8 - 1, 0xff⟩]

def bytes (h : Routing) : Bytes :=
  [h.nextHeader] ++ (digits 1 (h.size / 8 - 1) ++ ([h.kind] ++ ([h.segmentsLeft] ++ h.data)))

theorem length_bytes (h : Routing) : h.bytes.length = h.size := by
  simp only [bytes, size, List.length_append, length_digits, List.length_singleton]
  omega

theorem puts_write (h : Routing) : h.write.Puts h.limits h.bytes :=
  (Writer.puts_fit _ _ _).bind <| (Writer.puts_u8 _).bind <| (Writer.puts_word _ _).bind <|
    (Writer.puts_u8 _).bind <| (Writer.puts_u8 _).bind <| Writer.puts_bytes _

/-- No zeros are missing from data that fill the header. -/
theorem ofData_of_dvd (nextHeader kind segmentsLeft : UInt8) (data : Bytes) (h : 8 ∣ 4 + data.length) :
    ofData nextHeader kind segmentsLeft data = ⟨nextHeader, kind, segmentsLeft, data, h⟩ := by
  have hgap : pad8 (4 + data.length) - (4 + data.length) = 0 := by
    rw [pad8_of_dvd h, Nat.sub_self]
  simp only [ofData, hgap, List.replicate_zero, List.append_nil]

theorem run_read_ok {b rest : Bytes} {h : Routing} :
    read.run b = .ok (h, rest) ↔ Fit h.limits ∧ b = h.bytes ++ rest := by
  rw [read]
  simp only [Reader.run_bind_ok, Reader.run_get_ok, Reader.run_need_ok, Reader.run_u8_ok,
    Reader.run_word_ok, Reader.run_declare_ok, Reader.run_minus_ok, Reader.run_take_ok, Reader.run_pure_ok]
  simp only [limits, fit_cons, fit_nil, and_true]
  constructor
  · rintro ⟨_, _, ⟨rfl, rfl⟩, _, _, ⟨-, rfl⟩, nextHeader, _, rfl, units, _, ⟨hunits, rfl⟩, _, _, ⟨-, rfl⟩,
      kind, _, rfl, segmentsLeft, _, rfl, _, _, ⟨-, rfl, rfl⟩, data, _, ⟨hdata, rfl⟩, rfl, rfl⟩
    have hlen : 4 + data.length = 8 * (units + 1) := by omega
    rw [ofData_of_dvd nextHeader kind segmentsLeft data ⟨units + 1, hlen⟩]
    have hsize : (8 * (units + 1)) / 8 - 1 = units := by omega
    refine ⟨?_, ?_⟩
    · simp only [size, hlen, hsize]
      omega
    · simp [bytes, size, hlen]
  · rintro ⟨hfit, rfl⟩
    obtain ⟨k, hk⟩ := h.aligned
    have hsize : h.size = 8 * (h.size / 8 - 1 + 1) := by
      rw [size]; omega
    have hlen : (h.bytes ++ rest).length = h.size + rest.length := by
      rw [List.length_append, length_bytes]
    have hb : h.bytes ++ rest = h.nextHeader :: (digits 1 (h.size / 8 - 1) ++
        (h.kind :: h.segmentsLeft :: (h.data ++ rest))) := by
      simp [bytes]
    refine ⟨_, _, ⟨rfl, rfl⟩, (), _, ⟨by omega, rfl⟩, h.nextHeader, _, hb, h.size / 8 - 1, _,
      ⟨by omega, rfl⟩, (), _, ⟨by omega, rfl⟩, h.kind, _, rfl, h.segmentsLeft, _, rfl, _, _,
      ⟨by omega, rfl, rfl⟩, h.data, rest, ⟨?_, rfl⟩, ?_, rfl⟩
    · rw [← hsize, size]; omega
    · exact (ofData_of_dvd h.nextHeader h.kind h.segmentsLeft h.data h.aligned).symm

instance : Spelling Routing :=
  .ofExact limits bytes (fun _ _ => True) puts_write length_bytes <| by
    intro b rest h
    rw [true_and]
    exact run_read_ok

end Routing

namespace Fragment

def limits (h : Fragment) : List EncodeError := [⟨.fragmentOffset, h.offset.toNat, 0x1fff⟩]

def bytes (h : Fragment) : Bytes :=
  [h.nextHeader] ++ ([0] ++ (digits 2 (8 * h.offset.toNat + h.more.toNat) ++
    digits 4 h.identification.toNat))

def reserved : Bytes := kept 1 ++ (ignored 1 ++ ([0, 6] ++ kept 4))

theorem length_bytes (h : Fragment) : h.bytes.length = length := by
  simp [bytes]

theorem puts_write (h : Fragment) : h.write.Puts h.limits h.bytes :=
  (Writer.puts_fit _ _ _).bind <| (Writer.puts_u8 _).bind <| (Writer.puts_u8 _).bind <|
    (Writer.puts_word _ _).bind <| Writer.puts_u32 _

/-- Offset and flag, from the bits of the two bytes that were read. -/
theorem clears_offset_iff {offset : UInt16} {more : Bool} {x : Bytes} :
    Clears [0, 6] x (digits 2 (8 * offset.toNat + more.toNat)) ∧ offset.toNat ≤ 0x1fff ↔
      ∃ v < 256 ^ 2, x = digits 2 v ∧ offset = UInt16.ofNat (v / 8) ∧ more = decide (v % 2 = 1) := by
  have hmask (z : UInt8) : (z &&& ~~~6).toNat = 8 * (z.toNat / 8) + z.toNat % 2 := by
    have h : ∀ n < 256, n &&& 249 = 8 * (n / 8) + n % 2 := by decide +kernel
    rw [UInt8.toNat_and]
    exact h z.toNat z.toNat_lt
  have hclear (y z : UInt8) : clear [0, 6] [y, z] = [y, z &&& ~~~6] := by
    simp [clear]
  have hm := more.toNat_lt
  constructor
  · rintro ⟨⟨hl, hc⟩, ho⟩
    obtain ⟨y, z, rfl⟩ := List.length_eq_two.1 hl.symm
    rw [hclear, digits_two] at hc
    obtain ⟨hy, hc'⟩ := List.cons.inj hc
    have hz := congrArg UInt8.toNat (List.singleton_inj.1 hc')
    rw [hmask, UInt8.toNat_ofNat'] at hz
    have hyt := congrArg UInt8.toNat hy
    rw [UInt8.toNat_ofNat'] at hyt
    have hzt := z.toNat_lt
    refine ⟨256 * y.toNat + z.toNat, by omega, ?_, ?_, ?_⟩
    · have hv : (256 * y.toNat + z.toNat) / 256 = y.toNat := by omega
      have hlow : UInt8.ofNat (256 * y.toNat + z.toNat) = z := by
        apply UInt8.toNat_inj.1
        rw [UInt8.toNat_ofNat']; omega
      rw [digits_two, hv, hlow, UInt8.ofNat_toNat]
    · apply UInt16.toNat_inj.1
      rw [UInt16.toNat_ofNat']; omega
    · cases more <;> simp only [Bool.toNat_false, Bool.toNat_true] at hz hm <;> simp <;> omega
  · rintro ⟨v, hv, rfl, rfl, rfl⟩
    have ho : (UInt16.ofNat (v / 8)).toNat = v / 8 := by
      rw [UInt16.toNat_ofNat']; omega
    have hv2 : (decide (v % 2 = 1)).toNat = v % 2 := by
      rcases Nat.mod_two_eq_zero_or_one v with h | h <;> rw [h] <;> rfl
    rw [ho, hv2]
    have hhigh : (8 * (v / 8) + v % 2) / 256 = v / 256 := by omega
    have hlow : UInt8.ofNat v &&& ~~~6 = UInt8.ofNat (8 * (v / 8) + v % 2) := by
      apply UInt8.toNat_inj.1
      rw [hmask, UInt8.toNat_ofNat', UInt8.toNat_ofNat']; omega
    refine ⟨⟨rfl, ?_⟩, by omega⟩
    rw [digits_two, digits_two, hclear, hhigh, hlow]

theorem clears_iff {h : Fragment} {front : Bytes} : Clears reserved front h.bytes ↔
    ∃ x y : Bytes, x.length = 1 ∧ front = [h.nextHeader] ++ (x ++ (y ++ digits 4 h.identification.toNat)) ∧
      Clears [0, 6] y (digits 2 (8 * h.offset.toNat + h.more.toNat)) := by
  have hcode : (kept 1).length = [h.nextHeader].length := rfl
  have hword : (ignored 1).length = ([0] : Bytes).length := rfl
  rw [reserved, bytes, Clears.append_iff hcode]
  simp only [Clears.append_iff hword, Clears.append_iff (m := [0, 6]) (length_digits 2 _).symm,
    Clears.kept_iff, Clears.ignored_iff]
  constructor
  · rintro ⟨_, _, rfl, ⟨rfl, -⟩, x, _, rfl, ⟨hx, -⟩, y, _, rfl, hy, rfl, -⟩
    exact ⟨x, y, hx, rfl, hy⟩
  · rintro ⟨x, y, hx, rfl, hy⟩
    exact ⟨_, _, rfl, ⟨rfl, rfl⟩, x, _, rfl, ⟨hx, rfl⟩, y, _, rfl, hy, rfl, length_digits 4 _⟩

theorem clears_bytes (h : Fragment) (hfit : Fit h.limits) : Clears reserved h.bytes h.bytes := by
  simp only [limits, fit_cons, fit_nil, and_true] at hfit
  have hm := h.more.toNat_lt
  refine clears_iff.2 ⟨[0], _, rfl, rfl, (clears_offset_iff.2 ⟨_, by omega, rfl, ?_, ?_⟩).1⟩
  · apply UInt16.toNat_inj.1
    rw [UInt16.toNat_ofNat']; omega
  · cases hmore : h.more <;> simp <;> omega

theorem run_read_ok {b rest : Bytes} {h : Fragment} :
    read.run b = .ok (h, rest) ↔
      Fit h.limits ∧ ∃ front, b = front ++ rest ∧ Clears reserved front h.bytes := by
  rw [read]
  simp only [Reader.run_bind_ok, Reader.run_need_ok, Reader.run_u8_ok, Reader.run_skip_ok,
    Reader.run_word_ok, Reader.run_u32_ok, Reader.run_pure_ok, clears_iff]
  simp only [limits, fit_cons, fit_nil, and_true]
  constructor
  · rintro ⟨_, _, ⟨-, rfl⟩, nextHeader, _, rfl, _, _, ⟨x, hx, rfl⟩, v, _, ⟨hv, rfl⟩, identification, _, rfl,
      rfl, rfl⟩
    obtain ⟨hy, ho⟩ := clears_offset_iff.2 ⟨v, hv, rfl, rfl, rfl⟩
    exact ⟨ho, _, by simp, x, _, hx, rfl, hy⟩
  · rintro ⟨ho, _, rfl, x, y, hx, rfl, hy⟩
    obtain ⟨v, hv, rfl, hoffset, hmore⟩ := clears_offset_iff.1 ⟨hy, ho⟩
    have hb : [h.nextHeader] ++ (x ++ (digits 2 v ++ digits 4 h.identification.toNat)) ++ rest =
        h.nextHeader :: (x ++ (digits 2 v ++ (digits 4 h.identification.toNat ++ rest))) := by
      simp
    refine ⟨(), _, ⟨?_, rfl⟩, h.nextHeader, _, hb, (), _, ⟨x, hx, rfl⟩, v, _, ⟨hv, rfl⟩, h.identification, _,
      rfl, ?_, rfl⟩
    · simp only [length, List.length_append, List.length_singleton, length_digits, hx]
      omega
    · rw [← hoffset, ← hmore]

instance : Spelling Fragment where
  limits
  bytes
  reserved _ := reserved
  ReadsBack _ _ := True
  puts_write
  length_bytes
  clears_bytes
  run_read_ok := by
    intro b rest h
    rw [true_and]
    exact run_read_ok

end Fragment

namespace Extension

def limits : Extension → List EncodeError
  | hopByHop h => h.limits
  | routing h => h.limits
  | fragment h => h.limits

def bytes : Extension → Bytes
  | hopByHop h => h.bytes
  | routing h => h.bytes
  | fragment h => h.bytes

def reserved : Extension → Bytes
  | hopByHop h => kept h.size
  | routing h => kept h.size
  | fragment _ => Fragment.reserved

def ReadsBack : Extension → Prop
  | hopByHop h => h.ReadsBack
  | _ => True

theorem length_bytes (e : Extension) : e.bytes.length = e.size := by
  cases e with
  | hopByHop h => exact h.length_bytes
  | routing h => exact h.length_bytes
  | fragment h => exact h.length_bytes

theorem puts_write (e : Extension) : e.write.Puts e.limits e.bytes := by
  cases e with
  | hopByHop h => exact h.puts_write
  | routing h => exact h.puts_write
  | fragment h => exact h.puts_write

theorem clears_bytes (e : Extension) (hfit : Fit e.limits) : Clears e.reserved e.bytes e.bytes := by
  cases e with
  | hopByHop h => exact Spelling.clears_bytes h hfit
  | routing h => exact Spelling.clears_bytes h hfit
  | fragment h => exact Spelling.clears_bytes h hfit

theorem isNamedBy_code (e : Extension) : isNamedBy e.code = true := by
  cases e <;> rfl

/-- A header is read only as the code that names it. -/
theorem run_readAs_ok {code : UInt8} {b rest : Bytes} {e : Extension} :
    (readAs code).run b = .ok (e, rest) ↔ code = e.code ∧ e.ReadsBack ∧ Fit e.limits ∧
      ∃ front, b = front ++ rest ∧ Clears e.reserved front e.bytes := by
  rw [readAs]
  constructor
  · intro h
    split at h
    · next hcode =>
      simp only [Reader.run_bind_ok, HopByHop.run_read_ok, Reader.run_pure_ok] at h
      obtain ⟨header, _, ⟨hback, hfit, hb⟩, rfl, rfl⟩ := h
      exact ⟨hcode, hback, hfit, header.bytes, hb, Clears.kept_iff.2 ⟨rfl, header.length_bytes⟩⟩
    split at h
    · next hcode =>
      simp only [Reader.run_bind_ok, Routing.run_read_ok, Reader.run_pure_ok] at h
      obtain ⟨header, _, ⟨hfit, hb⟩, rfl, rfl⟩ := h
      exact ⟨hcode, trivial, hfit, header.bytes, hb, Clears.kept_iff.2 ⟨rfl, header.length_bytes⟩⟩
    split at h
    · next hcode =>
      simp only [Reader.run_bind_ok, Fragment.run_read_ok, Reader.run_pure_ok] at h
      obtain ⟨header, _, ⟨hfit, hb⟩, rfl, rfl⟩ := h
      exact ⟨hcode, trivial, hfit, hb⟩
    · exact absurd h Reader.run_throw_ok
  · rintro ⟨rfl, hback, hfit, front, rfl, hc⟩
    cases e with
    | hopByHop h =>
        obtain ⟨rfl, -⟩ := Clears.kept_iff.1 hc
        rw [code, if_pos rfl]
        simp only [Reader.run_bind_ok, HopByHop.run_read_ok, Reader.run_pure_ok]
        exact ⟨h, rest, ⟨hback, hfit, rfl⟩, rfl, rfl⟩
    | routing h =>
        obtain ⟨rfl, -⟩ := Clears.kept_iff.1 hc
        rw [code, if_neg (by decide), if_pos rfl]
        simp only [Reader.run_bind_ok, Routing.run_read_ok, Reader.run_pure_ok]
        exact ⟨h, rest, ⟨hfit, rfl⟩, rfl, rfl⟩
    | fragment h =>
        rw [code, if_neg (by decide), if_neg (by decide), if_pos rfl]
        simp only [Reader.run_bind_ok, Fragment.run_read_ok, Reader.run_pure_ok]
        exact ⟨h, rest, ⟨hfit, front, rfl, hc⟩, rfl, rfl⟩

end Extension

end PacketWatch
