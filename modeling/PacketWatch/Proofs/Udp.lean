import PacketWatch.Proofs.Wire.Spelling
import PacketWatch.Packet.Payload

namespace PacketWatch.Udp

open Wire

def limits (u : Udp) : List EncodeError := [⟨.udpLength, u.size, 0xffff⟩]

def bytes (u : Udp) : Bytes :=
  digits 2 u.sourcePort.toNat ++ (digits 2 u.destinationPort.toNat ++
    (digits 2 u.size ++ (digits 2 u.checksum.toNat ++ u.payload)))

theorem length_bytes (u : Udp) : u.bytes.length = u.size := by
  simp only [bytes, size, List.length_append, length_digits]
  omega

theorem puts_write (u : Udp) : u.write.Puts u.limits u.bytes :=
  (Writer.puts_fit _ _ _).bind <| (Writer.puts_u16 _).bind <| (Writer.puts_u16 _).bind <|
    (Writer.puts_word _ _).bind <| (Writer.puts_u16 _).bind <| Writer.puts_bytes _

theorem run_read_ok {b rest : Bytes} {u : Udp} :
    read.run b = .ok (u, rest) ↔ Fit u.limits ∧ b = u.bytes ++ rest := by
  rw [read]
  simp only [Reader.run_bind_ok, Reader.run_get_ok, Reader.run_need_ok, Reader.run_u16_ok,
    Reader.run_word_ok, Reader.run_unless_ok, Reader.run_declare_ok, Reader.run_minus_ok,
    Reader.run_take_ok, Reader.run_pure_ok]
  simp only [limits, fit_cons, fit_nil, and_true]
  constructor
  · rintro ⟨_, _, ⟨rfl, rfl⟩, _, _, ⟨-, rfl⟩, source, _, rfl, destination, _, rfl, length, _,
      ⟨hlength, rfl⟩, checksum, _, rfl, h8, _, _, ⟨-, rfl⟩, _, _, ⟨-, rfl, rfl⟩, payload, _,
      ⟨hpayload, rfl⟩, rfl, rfl⟩
    have hsize : size ⟨source, destination, checksum, payload⟩ = length := by
      rw [size, hpayload]; omega
    refine ⟨by omega, ?_⟩
    simp [bytes, hsize]
  · rintro ⟨hsize, rfl⟩
    have hlen : (u.bytes ++ rest).length = u.size + rest.length := by
      rw [List.length_append, length_bytes]
    have hb : u.bytes ++ rest = digits 2 u.sourcePort.toNat ++ (digits 2 u.destinationPort.toNat ++
        (digits 2 u.size ++ (digits 2 u.checksum.toNat ++ (u.payload ++ rest)))) := by
      simp [bytes]
    have hpayload : u.payload.length = u.size - 8 := by
      rw [size]; omega
    refine ⟨_, _, ⟨rfl, rfl⟩, (), _, ⟨?_, rfl⟩, u.sourcePort, _, hb, u.destinationPort, _, rfl, u.size, _,
      ⟨by omega, rfl⟩, u.checksum, _, rfl, ?_, (), _, ⟨?_, rfl⟩, _, _, ⟨?_, rfl, rfl⟩, u.payload, _,
      ⟨hpayload, rfl⟩, rfl, rfl⟩
    · rw [hlen, size]; omega
    · rw [size]; omega
    · rw [hlen]; omega
    · rw [size]; omega

instance : Spelling Udp :=
  .ofExact limits bytes (fun _ _ => True) puts_write length_bytes <| by
    intro b rest u
    rw [true_and]
    exact run_read_ok

end PacketWatch.Udp
