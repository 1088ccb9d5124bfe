import PacketWatch.Proofs.Packet.Canonical
import PacketWatch.Proofs.Wire.Failing

namespace PacketWatch

open Wire

theorem Address.exists_bytes_eq {width : Nat} {x : Bytes} (h : x.length = width) :
    ∃ a : Address width, a.bytes = x :=
  ⟨⟨⟨x.toArray, h⟩⟩, rfl⟩

structure BaseHeader where
  /-- Version, traffic class and flow label. -/
  first : Nat
  payloadLength : Nat
  nextHeader : UInt8
  hopLimit : UInt8
  source : Ipv6Address
  destination : Ipv6Address
  first_lt : first < 256 ^ 4
  payloadLength_lt : payloadLength < 256 ^ 2

namespace BaseHeader

def bytes (h : BaseHeader) : Bytes :=
  digits 4 h.first ++ (digits 2 h.payloadLength ++ (h.nextHeader :: h.hopLimit ::
    (h.source.bytes ++ h.destination.bytes)))

def version (h : BaseHeader) : UInt8 := UInt8.ofNat ((UInt8.ofNat (h.first / 256 ^ 3)).toNat / 16)

def frameSize (h : BaseHeader) : Nat := Packet.headerSize + h.payloadLength

def packet (h : BaseHeader) (extensions : List Extension) (payload : Payload) (trailer : Bytes) : Packet where
  version := h.version
  trafficClass := UInt8.ofNat (h.first / 0x100000)
  flowLabel := UInt32.ofNat (h.first % 0x100000)
  nextHeader := h.nextHeader
  hopLimit := h.hopLimit
  source := h.source
  destination := h.destination
  extensions
  payload
  trailer

variable {b : Bytes}

theorem length_bytes (h : BaseHeader) : h.bytes.length = Packet.headerSize := by
  simp [bytes, Address.length_bytes]

theorem take_frameSize (h : BaseHeader) (tail : Bytes) :
    (h.bytes ++ tail).take h.frameSize = h.bytes ++ tail.take h.payloadLength := by
  rw [frameSize, ← h.length_bytes, List.take_length_add_append]

theorem getD_six (h : BaseHeader) (tail : Bytes) : (h.bytes ++ tail).getD 6 0 = h.nextHeader := by
  simp [bytes, List.getElem?_append]

/-- Any forty bytes are a base header. -/
theorem exists_eq_append (hb : Packet.headerSize ≤ b.length) :
    ∃ (h : BaseHeader) (tail : Bytes), b = h.bytes ++ tail := by
  have hsplit (n : Nat) (b : Bytes) (hn : n ≤ b.length) : ∃ x y : Bytes, x.length = n ∧ b = x ++ y :=
    ⟨b.take n, b.drop n, List.length_take_of_le hn, (List.take_append_drop n b).symm⟩
  rw [Packet.headerSize] at hb
  obtain ⟨first, b, hfirst, rfl⟩ := hsplit 4 b (by omega)
  rw [List.length_append] at hb
  obtain ⟨length, b, hlength, rfl⟩ := hsplit 2 b (by omega)
  rw [List.length_append] at hb
  obtain ⟨nextHeader, b, hnext, rfl⟩ := hsplit 1 b (by omega)
  rw [List.length_append] at hb
  obtain ⟨hopLimit, b, hhop, rfl⟩ := hsplit 1 b (by omega)
  rw [List.length_append] at hb
  obtain ⟨source, b, hsource, rfl⟩ := hsplit 16 b (by omega)
  rw [List.length_append] at hb
  obtain ⟨destination, tail, hdestination, rfl⟩ := hsplit 16 b (by omega)
  obtain ⟨nextHeader, rfl⟩ := List.length_eq_one_iff.1 hnext
  obtain ⟨hopLimit, rfl⟩ := List.length_eq_one_iff.1 hhop
  obtain ⟨source, rfl⟩ := Address.exists_bytes_eq hsource
  obtain ⟨destination, rfl⟩ := Address.exists_bytes_eq hdestination
  have hfirst' := value_lt first
  have hlength' := value_lt length
  rw [hfirst] at hfirst'
  rw [hlength] at hlength'
  refine ⟨⟨value first, value length, nextHeader, hopLimit, source, destination, hfirst', hlength'⟩, tail, ?_⟩
  have hd := digits_value first
  have hl := digits_value length
  rw [hfirst] at hd
  rw [hlength] at hl
  simp [bytes, hd, hl]

end BaseHeader

namespace Packet

/-- What is read behind forty bytes, in all cases: only the bytes that the payload length covers matter. -/
theorem run_read_header (h : BaseHeader) (tail : Bytes) : read.run (h.bytes ++ tail) =
    if h.version ≠ 6 then .error (.invalidVersion h.version)
    else if tail.length < h.payloadLength then
      .error (.inconsistentLength .payloadLength h.frameSize (headerSize + tail.length))
    else
      match (readBody h.nextHeader).run (tail.take h.payloadLength) with
      | .error e => .error e
      | .ok ((extensions, payload), trailer) =>
        .ok (h.packet extensions payload trailer, tail.drop h.payloadLength) := by
  have hlen : (h.bytes ++ tail).length = headerSize + tail.length := by
    rw [List.length_append, h.length_bytes]
  have hb : h.bytes ++ tail = digits 4 h.first ++ (digits 2 h.payloadLength ++
      (h.nextHeader :: h.hopLimit :: (h.source.bytes ++ (h.destination.bytes ++ tail)))) := by
    simp [BaseHeader.bytes]
  have hpeek : (Reader.peekByte).run (h.bytes ++ tail) =
      .ok (UInt8.ofNat (h.first / 256 ^ 3), h.bytes ++ tail) := by
    refine Reader.run_peekByte_ok.2 ⟨?_, rfl⟩
    rw [hb, digits_succ 3, List.cons_append]
    exact ⟨_, rfl⟩
  have hneed : headerSize ≤ (h.bytes ++ tail).length := by omega
  rw [read, Reader.run_get_bind, Reader.run_need_bind_of_le hneed, Reader.run_bind_of_ok hpeek,
    ← BaseHeader.version, Reader.run_unless]
  by_cases hversion : h.version ≠ 6
  · rw [if_pos hversion, if_pos hversion]
  rw [if_neg hversion, if_neg hversion, hb, Reader.run_bind_of_ok (Reader.run_word_ok.2 ⟨h.first_lt, rfl⟩),
    Reader.run_bind_of_ok (Reader.run_word_ok.2 ⟨h.payloadLength_lt, rfl⟩),
    Reader.run_bind_of_ok (Reader.run_u8_ok.2 rfl), Reader.run_bind_of_ok (Reader.run_u8_ok.2 rfl),
    Reader.run_bind_of_ok (Address.run_read_ok.2 rfl), Reader.run_bind_of_ok (Address.run_read_ok.2 rfl),
    ← hb]
  by_cases hshort : tail.length < h.payloadLength
  · have hlt : (h.bytes ++ tail).length < headerSize + h.payloadLength := by omega
    rw [if_pos hshort, Reader.run_bind_of_error (Reader.run_declare_of_lt hlt), hlen]
    rfl
  have hle : h.payloadLength ≤ tail.length := Nat.le_of_not_lt hshort
  rw [if_neg hshort, Reader.run_declare_bind_of_le (by omega), Reader.run_bind_of_ok (Reader.run_take_of_le hle)]
  cases hbody : (readBody h.nextHeader).run (tail.take h.payloadLength) with
  | error e => rfl
  | ok body => rfl

variable {h : BaseHeader} {tail : Bytes}

theorem decode_of_lt {b : Bytes} (hlt : b.length < headerSize) :
    decode Packet b = .error (.truncated headerSize b.length) := by
  refine Spelling.decode_error_iff.2 ?_
  change read.run b = _
  rw [read, Reader.run_get_bind]
  exact Reader.run_need_bind_of_lt hlt

theorem decode_of_version (hversion : h.version ≠ 6) :
    decode Packet (h.bytes ++ tail) = .error (.invalidVersion h.version) := by
  have hread := run_read_header h tail
  rw [if_pos hversion] at hread
  exact Spelling.decode_error_iff.2 hread

theorem decode_of_short (hversion : h.version = 6) (hshort : tail.length < h.payloadLength) :
    decode Packet (h.bytes ++ tail) =
      .error (.inconsistentLength .payloadLength h.frameSize (headerSize + tail.length)) := by
  have hread := run_read_header h tail
  rw [if_neg (not_not_intro hversion), if_pos hshort] at hread
  exact Spelling.decode_error_iff.2 hread

/-- A whole frame is decoded as its body is read. -/
theorem decode_of_le (hversion : h.version = 6) (hle : h.payloadLength ≤ tail.length) :
    decode Packet (h.bytes ++ tail) = ((readBody h.nextHeader).run (tail.take h.payloadLength)).map
      fun ((extensions, payload), trailer) => (h.packet extensions payload trailer, h.frameSize) := by
  have hread := run_read_header h tail
  rw [if_neg (not_not_intro hversion), if_neg (Nat.not_lt.2 hle)] at hread
  cases hbody : (readBody h.nextHeader).run (tail.take h.payloadLength) with
  | error e =>
      rw [hbody] at hread
      exact Spelling.decode_error_iff.2 hread
  | ok body =>
      rw [hbody] at hread
      have hlen : (h.bytes ++ tail).length - (tail.drop h.payloadLength).length = h.frameSize := by
        rw [List.length_append, h.length_bytes, List.length_drop, BaseHeader.frameSize]
        omega
      rw [Spelling.decode_of_run_ok hread, hlen]
      rfl

end Packet

end PacketWatch
