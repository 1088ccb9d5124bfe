import PacketWatch.Packet.Payload
import PacketWatch.Proofs.Icmpv6.Message
import PacketWatch.Proofs.Udp

namespace PacketWatch.Payload

open Wire

def limits : Payload → List EncodeError
  | icmpv6 m => m.limits
  | udp u => u.limits
  | raw _ _ => []

def bytes : Payload → Bytes
  | icmpv6 m => m.bytes
  | udp u => u.bytes
  | raw _ data => data

def reserved : Payload → Bytes
  | icmpv6 m => m.reserved
  | udp u => kept u.size
  | raw _ data => kept data.length

/-- Raw data are read back only under a code that names no message, and take up what is left. -/
def ReadsBack : Payload → Nat → Prop
  | icmpv6 m, n => m.ReadsBack n
  | udp _, _ => True
  | raw code _, n => code ≠ HeaderCode.icmpv6 ∧ code ≠ HeaderCode.udp ∧ n = 0

theorem length_bytes (p : Payload) : p.bytes.length = p.size := by
  cases p with
  | icmpv6 m => exact m.length_bytes
  | udp u => exact u.length_bytes
  | raw _ _ => rfl

theorem puts_write (p : Payload) : p.write.Puts p.limits p.bytes := by
  cases p with
  | icmpv6 m => exact m.puts_write
  | udp u => exact u.puts_write
  | raw _ data => exact Writer.puts_bytes data

theorem clears_bytes (p : Payload) (hfit : Fit p.limits) : Clears p.reserved p.bytes p.bytes := by
  cases p with
  | icmpv6 m => exact m.clears_bytes hfit
  | udp u => exact Clears.kept_iff.2 ⟨rfl, u.length_bytes⟩
  | raw _ _ => exact Clears.kept_iff.2 ⟨rfl, rfl⟩

theorem run_readAs_ok {code : UInt8} {b rest : Bytes} {p : Payload} :
    (readAs code).run b = .ok (p, rest) ↔ code = p.code ∧ p.ReadsBack rest.length ∧ Fit p.limits ∧
      ∃ front, b = front ++ rest ∧ Clears p.reserved front p.bytes := by
  rw [readAs]
  constructor
  · intro h
    split at h
    · next hcode =>
      simp only [Reader.run_bind_ok, Icmpv6.Message.run_read_ok, Reader.run_pure_ok] at h
      obtain ⟨m, _, hm, rfl, rfl⟩ := h
      exact ⟨hcode, hm⟩
    split at h
    · next hcode =>
      simp only [Reader.run_bind_ok, Udp.run_read_ok, Reader.run_pure_ok] at h
      obtain ⟨u, _, ⟨hfit, hb⟩, rfl, rfl⟩ := h
      exact ⟨hcode, trivial, hfit, u.bytes, hb, Clears.kept_iff.2 ⟨rfl, u.length_bytes⟩⟩
    · next hicmpv6 hudp =>
      simp only [Reader.run_bind_ok, Reader.run_rest_ok, Reader.run_pure_ok] at h
      obtain ⟨data, _, ⟨rfl, rfl⟩, rfl, rfl⟩ := h
      exact ⟨rfl, ⟨hicmpv6, hudp, rfl⟩, fit_nil, data, (List.append_nil data).symm,
        Clears.kept_iff.2 ⟨rfl, rfl⟩⟩
  · rintro ⟨rfl, hback, hfit, front, rfl, hc⟩
    cases p with
    | icmpv6 m =>
        rw [code, if_pos rfl]
        simp only [Reader.run_bind_ok, Icmpv6.Message.run_read_ok, Reader.run_pure_ok]
        exact ⟨m, rest, ⟨hback, hfit, front, rfl, hc⟩, rfl, rfl⟩
    | udp u =>
        obtain ⟨rfl, -⟩ := Clears.kept_iff.1 hc
        rw [code, if_neg (by decide), if_pos rfl]
        simp only [Reader.run_bind_ok, Udp.run_read_ok, Reader.run_pure_ok]
        exact ⟨u, rest, ⟨hfit, rfl⟩, rfl, rfl⟩
    | raw c data =>
        obtain ⟨hicmpv6, hudp, hrest⟩ := hback
        obtain ⟨rfl, -⟩ := Clears.kept_iff.1 hc
        rw [code, if_neg hicmpv6, if_neg hudp, List.length_eq_zero_iff.1 hrest, List.append_nil]
        simp only [Reader.run_bind_ok, Reader.run_rest_ok, Reader.run_pure_ok]
        exact ⟨front, [], ⟨rfl, rfl⟩, rfl, rfl⟩

end PacketWatch.Payload
