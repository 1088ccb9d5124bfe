import PacketWatch.Proofs.Formats.Messages

namespace PacketWatch

open Wire

structure LengthLaw (α : Type) [WireFormat α] : Prop where
  /-- A value is written behind what is there, in bytes that do not depend on it. -/
  append_ok_iff : ∀ (a : α) (buffer result : Array UInt8), append buffer a = .ok result ↔
    ∃ w, encode a = .ok w ∧ result = buffer ++ w
  length_of_encode : ∀ (a : α) (w : Bytes), encode a = .ok w → w.length = WireFormat.size a
  size_of_decode : ∀ (b : Bytes) (a : α) (n : Nat), decode α b = .ok (a, n) →
    n = WireFormat.size a ∧ n ≤ b.length
  /-- Values written one behind the other are their encodings in a row, each of which ends where the
  sizes so far add up to. -/
  appendAll_ok_iff : ∀ (l : List α) (buffer result : Array UInt8), l.foldlM append buffer = .ok result ↔
    ∃ encodings : List Bytes, l.map encode = encodings.map .ok ∧ result = buffer ++ encodings.flatten ∧
      ∀ k, (encodings.take k).flatten.length = total WireFormat.size (l.take k)

namespace Spelling

variable {α : Type} [WireFormat α] [Spelling α]

theorem append_ok_iff (a : α) (buffer result : Array UInt8) : append buffer a = .ok result ↔
    ∃ w, encode a = .ok w ∧ result = buffer ++ w := by
  rw [append_eq]
  simp only [encode_ok_iff]
  cases h : firstExceeded (limits a) with
  | some e =>
      have hfit : ¬ Fit (limits a) := by
        simp [← firstExceeded_eq_none, h]
      simp [hfit]
  | none =>
      have hfit : Fit (limits a) := firstExceeded_eq_none.1 h
      simp [hfit, eq_comm]

theorem total_of_encodings {l : List α} {encodings : List Bytes} (h : l.map encode = encodings.map .ok) :
    encodings.flatten.length = total WireFormat.size l := by
  induction l generalizing encodings with
  | nil =>
      cases encodings with
      | nil => rfl
      | cons w encodings => cases h
  | cons a l ih =>
      cases encodings with
      | nil => cases h
      | cons w encodings =>
          obtain ⟨ha, hl⟩ := List.cons.inj h
          rw [List.flatten_cons, List.length_append, total_cons, length_of_encode ha, ih hl]

theorem appendAll_ok_iff (l : List α) (buffer result : Array UInt8) :
    l.foldlM append buffer = .ok result ↔
      ∃ encodings : List Bytes, l.map encode = encodings.map .ok ∧ result = buffer ++ encodings.flatten := by
  induction l generalizing buffer with
  | nil =>
      constructor
      · intro h
        cases h
        exact ⟨[], rfl, (Writer.append_nil _).symm⟩
      · rintro ⟨encodings, he, rfl⟩
        cases encodings with
        | nil => rw [List.flatten_nil, Writer.append_nil]; rfl
        | cons w encodings => cases he
  | cons a l ih =>
      rw [List.foldlM_cons]
      constructor
      · intro h
        cases ha : append buffer a with
        | error e => rw [ha] at h; cases h
        | ok buffer' =>
            rw [ha] at h
            obtain ⟨w, hw, rfl⟩ := (append_ok_iff _ _ _).1 ha
            obtain ⟨encodings, he, rfl⟩ := (ih _).1 h
            refine ⟨w :: encodings, ?_, ?_⟩
            · rw [List.map_cons, List.map_cons, hw, he]
            · rw [List.flatten_cons, Writer.append_append]
      · rintro ⟨encodings, he, rfl⟩
        cases encodings with
        | nil => cases he
        | cons w encodings =>
            obtain ⟨ha, hl⟩ := List.cons.inj he
            rw [(append_ok_iff a buffer _).2 ⟨w, ha, rfl⟩]
            exact (ih _).2 ⟨encodings, hl, by rw [List.flatten_cons, Writer.append_append]⟩

theorem lengthLaw (α : Type) [WireFormat α] [Spelling α] : LengthLaw α where
  append_ok_iff := append_ok_iff
  length_of_encode _ _ := length_of_encode
  size_of_decode _ _ _ h := ⟨size_of_decode h, le_length_of_decode h⟩
  appendAll_ok_iff l buffer result := by
    rw [appendAll_ok_iff]
    constructor
    · rintro ⟨encodings, he, rfl⟩
      refine ⟨encodings, he, rfl, fun k => total_of_encodings ?_⟩
      rw [List.map_take, List.map_take, he]
    · rintro ⟨encodings, he, rfl, -⟩
      exact ⟨encodings, he, rfl⟩

end Spelling

theorem GroupRecord.size_pos {p : Protocol} (r : GroupRecord p) : 0 < r.size := by
  rw [size, minSize]; omega

/-- Every message takes up at least a byte. -/
theorem EveryMessage.size_pos : EveryMessage fun α _ => ∀ a : α, 0 < WireFormat.size a where
  icmpv6Header _ := Nat.succ_pos 3
  echo m := Nat.add_pos_left (by decide) m.data.length
  listener _ := Nat.succ_pos 23
  mldSourceQuery q := Nat.add_pos_left (by decide) q.querier.size
  listenerQuery q :=
    match q with
    | .v1 _ => Nat.succ_pos 23
    | .v2 q => Nat.add_pos_left (by decide) q.querier.size
  mldRecord r := r.size_pos
  mldReport r := Nat.add_pos_left (by decide) (GroupRecord.listSize r.records)
  icmpv6 m := Nat.lt_of_lt_of_le (by decide) m.four_le_size
  shortIgmp _ := Nat.succ_pos 7
  igmpSourceQuery q := Nat.add_pos_left (by decide) q.querier.size
  igmpRecord r := r.size_pos
  igmpReport r := Nat.add_pos_left (by decide) (GroupRecord.listSize r.records)
  igmp m := Nat.lt_of_lt_of_le (by decide) m.eight_le_size
  udp u := Nat.add_pos_left (by decide) u.payload.length
  hopByHop h := Nat.add_pos_left (by decide) (total HopOption.size h.options)
  routing h := Nat.add_pos_left (by decide) h.data.length
  fragment _ := Nat.succ_pos 7
  packet p := Nat.add_pos_left (by decide) p.payloadLength

/-- The length law holds of every message, and of extension headers and payloads under every code.
The headers that are padded to a multiple of eight bytes have no gap left to pad. -/
theorem formats_lengthLaw :
    EveryMessage (fun α _ => LengthLaw α) ∧ EveryMessage (fun α _ => ∀ a : α, 0 < WireFormat.size a) ∧
      (∀ code, @LengthLaw Extension (Extension.format code)) ∧
      (∀ code, @LengthLaw Payload (Payload.format code)) ∧
      (∀ h : HopByHop, pad8 (2 + total HopOption.size h.options) = WireFormat.size h) ∧
      ∀ h : Routing, pad8 (4 + h.data.length) = WireFormat.size h := by
  refine ⟨.of_spelling fun α _ _ => Spelling.lengthLaw α, .size_pos, fun code => ?_, fun code => ?_,
    fun h => pad8_of_dvd h.aligned, fun h => pad8_of_dvd h.aligned⟩
  · let _ := Extension.format code
    exact Spelling.lengthLaw Extension
  · let _ := Payload.format code
    exact Spelling.lengthLaw Payload

end PacketWatch
