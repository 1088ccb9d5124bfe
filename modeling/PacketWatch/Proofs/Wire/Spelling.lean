import PacketWatch.Proofs.Wire.Mask
import PacketWatch.Proofs.Wire.Reading
import PacketWatch.Proofs.Wire.Writing

namespace PacketWatch

/-- The encodings of a type without a buffer or a cursor: which bytes a value is written as, which
limits it must keep, and which bytes are read as it. -/
class Spelling (α : Type) [WireFormat α] where
  limits : α → List EncodeError
  bytes : α → Bytes
  /-- The bits that are written as zero and passed over when read. -/
  reserved : α → Bytes
  /-- Whether a value is read back from its encoding when that many bytes follow. -/
  ReadsBack : α → Nat → Prop
  puts_write : ∀ a, (WireFormat.write a).Puts (limits a) (bytes a)
  length_bytes : ∀ a, (bytes a).length = WireFormat.size a
  clears_bytes : ∀ a, Fit (limits a) → Wire.Clears (reserved a) (bytes a) (bytes a)
  run_read_ok : ∀ {b rest : Bytes} {a : α}, (WireFormat.read : Reader α).run b = .ok (a, rest) ↔
    ReadsBack a rest.length ∧ Fit (limits a) ∧
      ∃ front, b = front ++ rest ∧ Wire.Clears (reserved a) front (bytes a)

namespace Spelling

open WireFormat

variable {α : Type} [WireFormat α] {a : α} {b : Bytes} {n : Nat}

@[reducible] def ofExact (limits : α → List EncodeError) (bytes : α → Bytes)
    (ReadsBack : α → Nat → Prop) (puts_write : ∀ a, (write a).Puts (limits a) (bytes a))
    (length_bytes : ∀ a, (bytes a).length = size a)
    (run_read_ok : ∀ {b rest : Bytes} {a : α}, (read : Reader α).run b = .ok (a, rest) ↔
      ReadsBack a rest.length ∧ Fit (limits a) ∧ b = bytes a ++ rest) : Spelling α where
  limits
  bytes
  reserved a := Wire.kept (size a)
  ReadsBack
  puts_write
  length_bytes
  clears_bytes a _ := Wire.Clears.kept_iff.2 ⟨rfl, length_bytes a⟩
  run_read_ok {b rest a} := by
    rw [run_read_ok]
    simp only [Wire.Clears.kept_iff, length_bytes, and_true]
    constructor
    · rintro ⟨hr, hf, rfl⟩
      exact ⟨hr, hf, _, rfl, rfl⟩
    · rintro ⟨hr, hf, _, rfl, rfl⟩
      exact ⟨hr, hf, rfl⟩

theorem decode_ok_iff : decode α b = .ok (a, n) ↔ ∃ rest, (read : Reader α).run b = .ok (a, rest) ∧
    rest.length ≤ b.length ∧ n = b.length - rest.length := by
  rw [decode, Reader.run'_ok]
  simp only [Reader.run_bind_ok, Reader.run_consumed_ok, Reader.run_pure_ok, Prod.mk.injEq]
  constructor
  · rintro ⟨_, _, rest, ha, _, _, ⟨hle, rfl, rfl⟩, ⟨rfl, rfl⟩, rfl⟩
    exact ⟨_, ha, hle, rfl⟩
  · rintro ⟨rest, ha, hle, rfl⟩
    exact ⟨rest, a, rest, ha, _, rest, ⟨hle, rfl, rfl⟩, ⟨rfl, rfl⟩, rfl⟩

variable [Spelling α]

theorem append_eq (buffer : Array UInt8) (a : α) : append buffer a =
    match firstExceeded (limits a) with
    | some e => .error e
    | none => .ok (buffer ++ bytes a) := by
  rw [append, puts_write a buffer]
  cases firstExceeded (limits a) <;> rfl

theorem encode_ok_iff : encode a = .ok b ↔ Fit (limits a) ∧ b = bytes a := by
  rw [encode, append_eq, ← firstExceeded_eq_none]
  cases firstExceeded (limits a) with
  | some e => simp [bind, Except.bind]
  | none => simp [bind, Except.bind, pure, Except.pure, eq_comm]

theorem length_of_encode (h : encode a = .ok b) : b.length = size a := by
  rw [(encode_ok_iff.1 h).2, length_bytes]

theorem map_encode {l : List α} (h : ∀ a ∈ l, Fit (limits a)) : l.map encode = (l.map bytes).map .ok := by
  rw [List.map_map]
  exact List.map_congr_left fun a ha => encode_ok_iff.2 ⟨h a ha, rfl⟩

/-- What a decoder accepts: the bytes that become the encoding when the reserved bits are cleared. -/
theorem decode_ok_iff_clears : decode α b = .ok (a, n) ↔
    n = size a ∧ n ≤ b.length ∧ ReadsBack a (b.length - n) ∧
      Fit (limits a) ∧ Wire.Clears (reserved a) (b.take n) (bytes a) := by
  rw [decode_ok_iff]
  simp only [run_read_ok]
  constructor
  · rintro ⟨rest, ⟨hr, hf, front, rfl, hc⟩, -, hn⟩
    have hl : front.length = size a := by rw [← length_bytes, hc.length_eq]
    have hn' : n = front.length := by
      rw [hn, List.length_append]; omega
    subst hn'
    refine ⟨hl, by simp, ?_, hf, by rwa [List.take_left]⟩
    rwa [List.length_append, Nat.add_sub_cancel_left]
  · rintro ⟨hn, hle, hr, hf, hc⟩
    refine ⟨b.drop n, ⟨?_, hf, b.take n, (List.take_append_drop n b).symm, hc⟩, ?_, ?_⟩
    · rwa [List.length_drop]
    · rw [List.length_drop]; omega
    · rw [List.length_drop]; omega

/-- An encoding is decoded in front of `s` exactly if its value is one that is read back there. -/
theorem decode_append_iff (h : encode a = .ok b) (s : Bytes) :
    decode α (b ++ s) = .ok (a, size a) ↔ ReadsBack a s.length := by
  obtain ⟨hf, rfl⟩ := encode_ok_iff.1 h
  have hl : (bytes a).length = size a := length_bytes a
  have hs : (bytes a ++ s).length - size a = s.length := by
    rw [List.length_append]; omega
  rw [decode_ok_iff_clears, hs, ← hl, List.take_left]
  constructor
  · rintro ⟨-, -, hr, -, -⟩
    exact hr
  · intro hr
    exact ⟨rfl, by simp, hr, hf, clears_bytes a hf⟩

theorem decode_of_encode (h : encode a = .ok b) :
    decode α b = .ok (a, size a) ↔ ReadsBack a 0 := by
  simpa using decode_append_iff h []

/-- Encoding what has been decoded gives the bytes it took, with the reserved bits cleared. -/
theorem encode_of_decode (h : decode α b = .ok (a, n)) :
    encode a = .ok (Wire.clear (reserved a) (b.take n)) := by
  obtain ⟨-, -, -, hf, hc⟩ := decode_ok_iff_clears.1 h
  rw [encode_ok_iff]
  exact ⟨hf, hc.2⟩

/-- The same place by place, by the reserved bits of the byte at each. -/
theorem encode_of_decode_clearAt {bits : Nat → UInt8} (hbits : ∀ i, (reserved a).getD i 0 = bits i)
    (h : decode α b = .ok (a, n)) : encode a = .ok (Wire.clearAt bits (b.take n)) := by
  obtain ⟨-, -, -, -, hc⟩ := decode_ok_iff_clears.1 h
  rw [encode_of_decode h, Wire.clear_eq_clearAt hc.1, funext hbits]

/-- Without what follows them the bytes are read as the same, if that is one that is read back. -/
theorem decode_take (h : decode α b = .ok (a, n)) :
    decode α (b.take n) = .ok (a, n) ↔ ReadsBack a 0 := by
  obtain ⟨rfl, hle, -, hf, hc⟩ := decode_ok_iff_clears.1 h
  rw [decode_ok_iff_clears, List.length_take_of_le hle, Nat.sub_self, List.take_take, Nat.min_self]
  constructor
  · rintro ⟨-, -, hr, -, -⟩
    exact hr
  · exact fun hr => ⟨rfl, Nat.le_refl _, hr, hf, hc⟩

theorem head?_of_decode {kind : UInt8}
    (hkind : ∀ {front : Bytes}, Wire.Clears (reserved a) front (bytes a) → ∃ back, front = kind :: back)
    (h : decode α b = .ok (a, n)) : b.head? = some kind := by
  obtain ⟨-, -, -, -, hc⟩ := decode_ok_iff_clears.1 h
  obtain ⟨back, hback⟩ := hkind hc
  rw [← List.take_append_drop n b, hback]
  rfl

theorem size_of_decode (h : decode α b = .ok (a, n)) : n = size a := (decode_ok_iff_clears.1 h).1

theorem le_length_of_decode (h : decode α b = .ok (a, n)) : n ≤ b.length :=
  (decode_ok_iff_clears.1 h).2.1

end Spelling

end PacketWatch
