import PacketWatch.Icmpv6.Message
import PacketWatch.Proofs.Wire.Spelling

namespace PacketWatch.Icmpv6

open Wire

namespace Header

def bytes (h : Header) : Bytes := [h.kind] ++ ([h.code] ++ digits 2 h.checksum.toNat)

theorem length_bytes (h : Header) : h.bytes.length = 4 := by
  simp [bytes]

theorem puts_write (h : Header) : h.write.Puts [] h.bytes :=
  (Writer.puts_u8 _).bind <| (Writer.puts_u8 _).bind <| Writer.puts_u16 _

theorem run_read_ok {b rest : Bytes} {h : Header} :
    read.run b = .ok (h, rest) ↔ b = h.bytes ++ rest := by
  rw [read]
  simp only [Reader.run_bind_ok, Reader.run_need_ok, Reader.run_u8_ok, Reader.run_u16_ok,
    Reader.run_pure_ok]
  constructor
  · rintro ⟨_, _, ⟨-, rfl⟩, kind, _, rfl, code, _, rfl, checksum, _, rfl, rfl, rfl⟩
    simp [bytes]
  · rintro rfl
    have hb : h.bytes ++ rest = h.kind :: h.code :: (digits 2 h.checksum.toNat ++ rest) := by
      simp [bytes]
    refine ⟨(), _, ⟨?_, rfl⟩, h.kind, _, hb, h.code, _, rfl, h.checksum, _, rfl, rfl, rfl⟩
    rw [List.length_append, length_bytes]; omega

instance : Spelling Header :=
  .ofExact (fun _ => []) bytes (fun _ _ => True) puts_write length_bytes <| by
    intro b rest h
    simp only [fit_nil, true_and]
    exact run_read_ok

end Header

namespace Echo

def bytes (e : Echo) : Bytes :=
  e.header.bytes ++ (digits 2 e.identifier.toNat ++ (digits 2 e.sequence.toNat ++ e.data))

theorem length_bytes (e : Echo) : e.bytes.length = e.size := by
  simp only [bytes, size, List.length_append, length_digits, Header.length_bytes]
  omega

theorem puts_write (e : Echo) : e.write.Puts [] e.bytes :=
  e.header.puts_write.bind <| (Writer.puts_u16 _).bind <| (Writer.puts_u16 _).bind <| Writer.puts_bytes _

/-- The data of an echo message leaves nothing unread. -/
theorem run_read_ok {b rest : Bytes} {e : Echo} :
    read.run b = .ok (e, rest) ↔ rest = [] ∧ b = e.bytes ++ rest := by
  rw [read]
  simp only [Reader.run_bind_ok, Reader.run_need_ok, Header.run_read_ok, Reader.run_u16_ok,
    Reader.run_rest_ok, Reader.run_pure_ok]
  constructor
  · rintro ⟨_, _, ⟨-, rfl⟩, header, _, rfl, identifier, _, rfl, sequence, _, rfl, data, _, ⟨rfl, rfl⟩,
      rfl, rfl⟩
    simp [bytes]
  · rintro ⟨rfl, rfl⟩
    have hb : e.bytes ++ [] = e.header.bytes ++ (digits 2 e.identifier.toNat ++
        (digits 2 e.sequence.toNat ++ e.data)) := by
      simp [bytes]
    refine ⟨(), _, ⟨?_, rfl⟩, e.header, _, hb, e.identifier, _, rfl, e.sequence, _, rfl, e.data, _,
      ⟨rfl, rfl⟩, rfl, rfl⟩
    rw [List.append_nil, length_bytes, size]; omega

instance : Spelling Echo :=
  .ofExact (fun _ => []) bytes (fun _ n => n = 0) puts_write length_bytes <| by
    intro b rest e
    simp only [List.length_eq_zero_iff, fit_nil, true_and]
    exact run_read_ok

end Echo

end PacketWatch.Icmpv6
