import PacketWatch.Proofs.Igmp.Message

namespace PacketWatch.Igmp.Message

open Wire

def KindMatches : Message → Prop
  | short m => m.kind ∈ shortKinds
  | query q => q.base.kind = Short.queryKind
  | report _ => True

def reservedAt : Message → Nat → UInt8
  | short _, _ => 0
  | query _, i => if i = 8 then 0xf0 else 0
  | report _, i => if i = 1 ∨ i = 4 ∨ i = 5 then 0xff else 0

variable {m : Message} {b : Bytes} {n : Nat}

theorem readsBack_zero_iff : m.ReadsBack 0 ↔ m.KindMatches := by
  cases m with
  | short _ => exact and_iff_left fun _ => rfl
  | query _ | report _ => exact Iff.rfl

theorem kindMatches_of_readsBack (h : m.ReadsBack n) : m.KindMatches := by
  cases m with
  | short _ => exact h.1
  | query _ | report _ => exact h

theorem getD_reserved (m : Message) (i : Nat) : m.reserved.getD i 0 = m.reservedAt i := by
  cases m with
  | short _ => exact getD_kept _ _
  | query q =>
      rw [reserved, SourceQuery.reserved, Querier.reserved, reservedAt, ← List.replicate_one]
      simp only [Short.length, getD_replicate_append, getD_kept]
      grind
  | report r =>
      rw [reserved, Report.reserved, GroupRecord.listReserved, reservedAt]
      simp only [getD_replicate_append, getD_kept]
      grind

/-- A message that can be encoded is read back from its encoding exactly if its type is one of its form.
What has been read has such a type and is encoded as the bytes it took, except that reserved bits are
zero; and with or without that those bytes are read as the same, whatever stood behind them. -/
theorem reads_back_iff_kindMatches :
    (∀ (m : Message) (b : Bytes), encode m = .ok b → (decode Message b = .ok (m, m.size) ↔ m.KindMatches)) ∧
    ∀ (b : Bytes) (m : Message) (n : Nat), decode Message b = .ok (m, n) →
      m.KindMatches ∧ b.head? = some m.kind ∧ n ≤ b.length ∧ decode Message (b.take n) = .ok (m, n) ∧
      ∃ c, encode m = .ok c ∧ c = clearAt m.reservedAt (b.take n) ∧ decode Message c = .ok (m, n) := by
  constructor
  · exact fun m b h => (Spelling.decode_of_encode h).trans readsBack_zero_iff
  · intro b m n h
    obtain rfl := Spelling.size_of_decode h
    have hkind := kindMatches_of_readsBack (Spelling.decode_ok_iff_clears.1 h).2.2.1
    have hback := readsBack_zero_iff.2 hkind
    have hencode := Spelling.encode_of_decode_clearAt (getD_reserved m) h
    exact ⟨hkind, Spelling.head?_of_decode eq_cons_of_clears h, Spelling.le_length_of_decode h, (Spelling.decode_take h).2 hback, _,
      hencode, rfl, (Spelling.decode_of_encode hencode).2 hback⟩

theorem reads_back_iff_kindMatches_dirty_report :
    let b : Bytes := [0x22, 0xff, 0, 6, 0xff, 0xff, 0, 1] ++ [4, 1, 0, 2, 224, 0, 0, 22, 10, 0, 0, 1, 10, 0, 0, 2] ++
      [0, 0, 0, 9] ++ [0x11, 7]
    let m : Message := .report {
      checksum := 6
      records := [{
        kind := 4, group := ⟨#v[224, 0, 0, 22]⟩, sources := [⟨#v[10, 0, 0, 1]⟩, ⟨#v[10, 0, 0, 2]⟩], aux := [9] }] }
    let stray : Message := .short { kind := 0x13, group := default }
    decode Message b = .ok (m, 28) ∧
      (∃ c, encode m = .ok c ∧ c = clearAt m.reservedAt (b.take 28) ∧ decode Message c = .ok (m, 28)) ∧
      ∃ c, encode stray = .ok c ∧ decode Message c ≠ .ok (stray, stray.size) := by
  intro b m stray
  have hdecode : decode Message b = .ok (m, 28) := by decide +kernel +revert
  obtain ⟨hwritten, hread⟩ := reads_back_iff_kindMatches
  obtain ⟨-, -, -, -, c, hencode, hclear, hback⟩ := hread b m 28 hdecode
  refine ⟨hdecode, ⟨c, hencode, hclear, hback⟩, _, rfl, fun h => ?_⟩
  exact absurd ((hwritten stray _ rfl).1 h) (show (0x13 : UInt8) ∉ shortKinds by decide)

end PacketWatch.Igmp.Message
