import PacketWatch.Proofs.Framing.FrameSize
import PacketWatch.Proofs.Packet.Header

namespace PacketWatch

open Wire

variable {b : Bytes} {h : BaseHeader} {tail : Bytes} {n : Nat} {e : DecodeError} {p : Packet}

theorem frameSize?_eq_none_iff :
    frameSize? b = .ok none ↔ b.length < 6 ∧ ∀ first ∈ b.head?, first.toNat / 16 = 6 := by
  cases b with
  | nil => exact iff_of_true rfl ⟨by decide, by simp⟩
  | cons first b =>
      have hsix : UInt8.ofNat (first.toNat / 16) = 6 ↔ first.toNat / 16 = 6 := by
        have hlt := first.toNat_lt
        rw [← UInt8.toNat_inj, UInt8.toNat_ofNat']
        have h6 : (6 : UInt8).toNat = 6 := rfl
        omega
      rw [frameSize?_cons, List.head?_cons]
      simp only [Option.mem_def, Option.some.injEq, forall_eq', ← hsix]
      by_cases hversion : UInt8.ofNat (first.toNat / 16) = 6
      · rw [if_neg (not_not_intro hversion)]
        by_cases hlen : (first :: b).length < 6
        · rw [if_pos hlen]
          exact iff_of_true rfl ⟨hlen, hversion⟩
        · rw [if_neg hlen]
          exact iff_of_false nofun fun h => hlen h.1
      · rw [if_pos hversion]
        exact iff_of_false nofun fun h => hversion h.2

/-- The base header tells the size of the frame. -/
theorem frameSize?_header (h : BaseHeader) (tail : Bytes) : frameSize? (h.bytes ++ tail) =
    if h.version ≠ 6 then .error (.invalidVersion h.version) else .ok (some h.frameSize) := by
  have hcons : ∃ left, h.bytes ++ tail = UInt8.ofNat (h.first / 256 ^ 3) :: left := by
    rw [BaseHeader.bytes, digits_succ 3, List.cons_append, List.cons_append]
    exact ⟨_, rfl⟩
  have htwo : ((h.bytes ++ tail).drop 4).take 2 = digits 2 h.payloadLength := by
    rw [BaseHeader.bytes, List.append_assoc, List.append_assoc, List.drop_left' (length_digits 4 _),
      List.take_left' (length_digits 2 _)]
  have hlong : ¬ (h.bytes ++ tail).length < 6 := by
    rw [List.length_append, h.length_bytes, Packet.headerSize]
    omega
  obtain ⟨left, hleft⟩ := hcons
  rw [hleft] at htwo hlong ⊢
  rw [frameSize?_cons, if_neg hlong, htwo, value_digits h.payloadLength_lt]
  rfl

/-- A frame of which forty bytes are there begins with a base header of version 6. -/
theorem exists_header_of_frameSize? (hs : frameSize? b = .ok (some n)) (hb : Packet.headerSize ≤ b.length) :
    ∃ (h : BaseHeader) (tail : Bytes), b = h.bytes ++ tail ∧ h.version = 6 ∧ n = h.frameSize := by
  obtain ⟨h, tail, rfl⟩ := BaseHeader.exists_eq_append hb
  rw [frameSize?_header] at hs
  split at hs
  · cases hs
  · next hversion =>
    cases hs
    exact ⟨h, tail, rfl, Decidable.not_not.1 hversion, rfl⟩

/-- A whole frame is decoded by itself, whatever follows it, and as a whole. -/
theorem decode_append_of_frameSize? (hs : frameSize? b = .ok (some n)) (hle : n ≤ b.length) (s : Bytes) :
    decode Packet (b ++ s) = decode Packet (b.take n) := by
  have hforty := (le_of_frameSize? hs).2
  obtain ⟨h, tail, rfl, hversion, rfl⟩ := exists_header_of_frameSize? hs (Nat.le_trans hforty hle)
  have hlen := h.length_bytes
  rw [List.length_append, hlen, BaseHeader.frameSize, Nat.add_le_add_iff_left] at hle
  have hbody : (tail.take h.payloadLength).length = h.payloadLength := List.length_take_of_le hle
  rw [h.take_frameSize, List.append_assoc, Packet.decode_of_le hversion (by rw [List.length_append]; omega),
    Packet.decode_of_le hversion (Nat.le_of_eq hbody.symm), List.take_append_of_le_length hle,
    List.take_take, Nat.min_self]

theorem eq_of_decode_take (hs : frameSize? b = .ok (some n)) (hle : n ≤ b.length) {m : Nat}
    (hd : decode Packet (b.take n) = .ok (p, m)) : m = n := by
  have hs' := frameSize?_take hs hle
  rw [frameSize?_of_decode hd] at hs'
  cases hs'
  rfl

theorem parseFrame_take (hs : frameSize? b = .ok (some n)) (hle : n ≤ b.length) :
    parseFrame (b.take n) = (decode Packet (b.take n)).map Prod.fst := by
  cases hd : decode Packet (b.take n) with
  | error e =>
      rw [parseFrame, hd]
      rfl
  | ok r =>
      obtain ⟨p, m⟩ := r
      obtain rfl := eq_of_decode_take hs hle hd
      refine parseFrame_ok_iff.2 ?_
      rw [hd, List.length_take_of_le hle]

theorem decode_of_lt_frameSize? (hs : frameSize? b = .ok (some n)) (hb : Packet.headerSize ≤ b.length)
    (hlt : b.length < n) :
    decode Packet b = .error (.inconsistentLength .payloadLength n b.length) := by
  obtain ⟨h, tail, rfl, hversion, rfl⟩ := exists_header_of_frameSize? hs hb
  have hlen := h.length_bytes
  rw [List.length_append, hlen] at hlt ⊢
  exact Packet.decode_of_short hversion (Nat.lt_of_add_lt_add_left hlt)

theorem decode_of_frameSize?_error (hs : frameSize? b = .error e) (hb : Packet.headerSize ≤ b.length) :
    decode Packet b = .error e := by
  obtain ⟨h, tail, rfl⟩ := BaseHeader.exists_eq_append hb
  rw [frameSize?_header] at hs
  split at hs
  · next hversion =>
    cases hs
    exact Packet.decode_of_version hversion
  · cases hs

theorem frameSize?_of_encode {w : Bytes} (hp : encode p = .ok w) (hversion : p.version = 6) (s : Bytes) :
    frameSize? (w ++ s) = .ok (some p.size) := by
  obtain ⟨hfit, rfl⟩ := Spelling.encode_ok_iff.1 hp
  have hbytes : p.bytes ++ s = p.headerBytes ++ (p.bodyBytes ++ p.trailer ++ s) := List.append_assoc _ _ _
  exact hbytes ▸ frameSize?_headerBytes hversion hfit

/-- The size of a frame is told by its beginning, once and for all, and is what its decoder takes: a
whole frame is decoded as it is decoded by itself, what is no whole frame or has another version is
rejected by both in the same way, and each packet is framed in its own size. -/
theorem frames_agree_with_packets (b s : Bytes) :
    (frameSize? b = .ok none ↔ b.length < 6 ∧ ∀ first ∈ b.head?, first.toNat / 16 = 6) ∧
      (∀ n, frameSize? b = .ok (some n) → frameSize? (b ++ s) = .ok (some n) ∧
        (n ≤ b.length → decode Packet (b ++ s) = decode Packet (b.take n) ∧
          parseFrame (b.take n) = (decode Packet (b.take n)).map Prod.fst ∧
          ∀ p m, decode Packet (b.take n) = .ok (p, m) → m = n) ∧
        (40 ≤ b.length → b.length < n →
          decode Packet b = .error (.inconsistentLength .payloadLength n b.length))) ∧
      (∀ e, frameSize? b = .error e → frameSize? (b ++ s) = .error e ∧
        (40 ≤ b.length → decode Packet b = .error e)) ∧
      ∀ (p : Packet) (w : Bytes), encode p = .ok w → p.version = 6 → frameSize? (w ++ s) = .ok (some p.size) := by
  refine ⟨frameSize?_eq_none_iff, fun n hs => ⟨frameSize?_append hs s, fun hle => ⟨?_, ?_, ?_⟩, ?_⟩,
    fun e hs => ⟨frameSize?_append_of_error hs s, decode_of_frameSize?_error hs⟩,
    fun p w hp hversion => frameSize?_of_encode hp hversion s⟩
  · exact decode_append_of_frameSize? hs hle s
  · exact parseFrame_take hs hle
  · exact fun p m => eq_of_decode_take hs hle
  · exact decode_of_lt_frameSize? hs

end PacketWatch
