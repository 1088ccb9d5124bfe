import PacketWatch.Proofs.Packet.Canonical

namespace PacketWatch.Packet

open Wire

/-- The encodings that are decoded to the packet they were made from are those of the canonical packets. -/
theorem decode_encode_iff_isCanonical {p : Packet} {b : Bytes} (h : encode p = .ok b) :
    decode Packet b = .ok (p, p.size) ↔ p.IsCanonical :=
  Spelling.decode_of_encode h

theorem decode_encode_routed_echo :
    let p := build default default 64
      [.hopByHop (.ofOptions 0 [.routerAlert 0]), .routing (.ofData 0 0 0 [1]), .fragment ⟨0, 0, true, 7⟩]
      (.icmpv6 (.echo (.request 1 2 [1, 2, 3])))
    ∃ b, encode p = .ok b ∧ (decode Packet b = .ok (p, p.size) ↔ p.IsCanonical) :=
  ⟨_, rfl, decode_encode_iff_isCanonical rfl⟩

/-- Encoding what has been decoded gives the bytes it took, except that reserved bits are zero, and
those bytes are decoded to the same again. -/
theorem encode_of_decode_faithful {p : Packet} {b : Bytes} {n : Nat} (h : decode Packet b = .ok (p, n)) :
    ∃ c, encode p = .ok c ∧ c.length = n ∧ n ≤ b.length ∧ p.reserved.length = n ∧
      c = clear p.reserved (b.take n) ∧
      ((∀ x ∈ masked p.reserved (b.take n), x = 0) → c = b.take n) ∧
      decode Packet c = .ok (p, n) := by
  obtain ⟨-, -, hcanonical, -, hc⟩ := Spelling.decode_ok_iff_clears.1 h
  have hencode := Spelling.encode_of_decode h
  have hn := Spelling.size_of_decode h
  have hle := Spelling.le_length_of_decode h
  have hlength := (Spelling.length_of_encode hencode).trans hn.symm
  refine ⟨_, hencode, hlength, hle, ?_, rfl, hc.2 ▸ hc.eq_of_masked_eq_zero, ?_⟩
  · rw [← List.length_take_of_le hle]
    exact hc.1
  · have hback := (Spelling.decode_of_encode hencode).2 hcanonical
    rwa [← hn] at hback

theorem encode_of_decode_dirty_fragment :
    let b : Bytes := [0x60, 0, 0, 0, 0, 33, 44, 1] ++ List.replicate 32 0 ++
      [58, 0xff, 0, 6, 0, 0, 0, 7] ++ [132, 0, 0, 0, 0, 0, 0xff, 0xff] ++ List.replicate 16 0 ++ [1, 2]
    let p : Packet := {
      nextHeader := 44, hopLimit := 1, source := default, destination := default
      extensions := [.fragment ⟨58, 0, false, 7⟩]
      payload := .icmpv6 (.listener (.done default))
      trailer := [1] }
    decode Packet b = .ok (p, 73) ∧ ∃ c, encode p = .ok c ∧ c = clear p.reserved (b.take 73) ∧
      decode Packet c = .ok (p, 73) := by
  intro b p
  have hp : decode Packet b = .ok (p, 73) := by decide +kernel +revert
  obtain ⟨c, hc, -, -, -, hclear, -, hback⟩ := encode_of_decode_faithful hp
  exact ⟨hp, c, hc, hclear, hback⟩

end PacketWatch.Packet
