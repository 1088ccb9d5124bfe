import PacketWatch.Proofs.Formats.Bounds
import PacketWatch.Proofs.Wire.Failing

namespace PacketWatch

open Wire

/-- What a check that failed tells about the bytes it was made on: how many there are, and that these are
too few. Only the length of a datagram, which counts its own header, can be too small in itself. -/
def DecodeError.Measures (c : Bytes) : DecodeError → Prop
  | truncated needed available => available = c.length ∧ available < needed
  | inconsistentLength field declared available => available = c.length ∧
      if field = .udpLength ∧ declared < 8 then 8 ≤ available else available < declared
  | optionOverrun offset length remaining => 2 ≤ offset ∧ remaining < length
  | pastEnd => True
  | _ => False

section Readers

variable {p : Protocol} {width older : Nat} {start b : Bytes} {e : DecodeError}

theorem Address.raises_read (c : Bytes) : (read : Reader (Address width)).Raises b (DecodeError.Measures c) := by
  simp [read, DecodeError.Measures]

theorem Address.raises_times_read (n : Nat) (c : Bytes) :
    (Reader.times (read : Reader (Address width)) n).Raises b (DecodeError.Measures c) :=
  Reader.raises_times (fun _ => raises_read c) n b

theorem Udp.raises_read : read.Raises b (DecodeError.Measures b) := by
  simp [read, DecodeError.Measures]
  grind

theorem Querier.raises_read : (read p older start).Raises b (DecodeError.Measures start) := by
  simp [read, Address.raises_times_read, DecodeError.Measures]

theorem HopOption.raises_readUntil {length offset : Nat} (h : 2 ≤ offset) (seen : List HopOption) (c : Bytes) :
    (readUntil length offset seen).Raises b (DecodeError.Measures c) := by
  fun_induction readUntil length offset seen generalizing b with
  | case1 offset seen hlt ihPad ihTlv =>
      have hpad : ∀ left : Bytes, (readUntil length (offset + 1) (pad1 :: seen)).Raises left
          (DecodeError.Measures c) := fun left => ihPad (by omega)
      have htlv : ∀ kind size data (left : Bytes), (readUntil length (offset + 2 + size)
          (tlv kind data :: seen)).Raises left (DecodeError.Measures c) :=
        fun kind size data left => ihTlv kind size data (by omega)
      simp [DecodeError.Measures, hpad, htlv, h]
  | case2 => exact Reader.raises_pure

theorem HopByHop.raises_read : read.Raises b (DecodeError.Measures b) := by
  simp [read, HopOption.raises_readUntil, DecodeError.Measures]

theorem Routing.raises_read : read.Raises b (DecodeError.Measures b) := by
  simp [read, DecodeError.Measures]

theorem Fragment.raises_read : read.Raises b (DecodeError.Measures b) := by
  simp [read, DecodeError.Measures]

theorem Extension.raises_readAs {code : UInt8} : (readAs code).Raises b fun e =>
    e.Measures b ∨ isNamedBy code = false ∧ e = .unknownType .extensionHeader code := by
  rw [readAs]
  simp only [bind_pure_comp]
  split_ifs with hhop hrouting hfragment
  · exact Reader.raises_map.2 (HopByHop.raises_read.imp fun _ => .inl)
  · exact Reader.raises_map.2 (Routing.raises_read.imp fun _ => .inl)
  · exact Reader.raises_map.2 (Fragment.raises_read.imp fun _ => .inl)
  · exact Reader.raises_throw.2 (.inr ⟨by simp [isNamedBy, hhop, hrouting, hfragment], rfl⟩)

theorem Extension.measures_of_named {code : UInt8} (hcode : isNamedBy code = true)
    (h : (readAs code).run b = .error e) : e.Measures b := by
  obtain he | ⟨hfalse, -⟩ := raises_readAs e h
  · exact he
  · rw [hcode] at hfalse
    cases hfalse

namespace GroupRecord

theorem raises_read : (read (p := p)).Raises b (DecodeError.Measures b) := by
  have haux (c : Bytes) : Reader.u32.Raises c (DecodeError.Measures b) := by
    simp [DecodeError.Measures]
  simp [read, Address.raises_read, Address.raises_times_read, Reader.raises_times haux, DecodeError.Measures]

def StandsAt (p : Protocol) (b c : Bytes) : Prop :=
  8 + minSize p * value ((b.drop 6).take 2) ≤ b.length ∧ ∃ l : List (GroupRecord p),
    l.length < value ((b.drop 6).take 2) ∧ (Reader.times read l.length).run (b.drop 8) = .ok (l, c)

theorem StandsAt.isSuffix {c : Bytes} (h : StandsAt p b c) : c <:+ b := by
  obtain ⟨-, l, -, hl⟩ := h
  obtain ⟨-, -, hb⟩ := (Reader.run_times_ok run_read_ok).1 hl
  exact List.IsSuffix.trans ⟨_, hb.symm⟩ (List.drop_suffix 8 b)

/-- The records of a report are refused for their number, or as one of them is. -/
theorem run_readList_error (hb : 8 ≤ b.length) : (readList p b).run (b.drop 4) = .error e ↔
    (∃ declared, b.length < declared ∧ declared = 8 + minSize p * value ((b.drop 6).take 2) ∧
      e = .inconsistentLength (.recordCount p) declared b.length) ∨
      ∃ c, StandsAt p b c ∧ decode (GroupRecord p) c = .error e := by
  rw [readList, Reader.run_bind_of_ok (Reader.run_skip_of_le (by simp; omega)), List.drop_drop,
    Reader.run_bind_of_ok (Reader.run_word_of_le (by simp; omega)), List.drop_drop]
  by_cases hlt : b.length < 8 + minSize p * value ((b.drop 6).take 2)
  · rw [Reader.run_bind_of_error (Reader.run_declare_of_lt hlt)]
    constructor
    · rintro ⟨⟩
      exact .inl ⟨_, hlt, rfl, rfl⟩
    · rintro (⟨_, -, rfl, rfl⟩ | ⟨c, ⟨hle, -⟩, -⟩)
      · rfl
      · omega
  · have hle := Nat.le_of_not_lt hlt
    rw [Reader.run_declare_bind_of_le hle, Reader.run_times_error]
    constructor
    · rintro ⟨l, c, hl, hrest, he⟩
      exact .inr ⟨c, ⟨hle, l, hl, hrest⟩, Spelling.decode_error_iff.2 he⟩
    · rintro (⟨_, hlt', rfl, -⟩ | ⟨c, ⟨-, l, hl, hrest⟩, he⟩)
      · exact absurd hlt' hlt
      · exact ⟨l, c, hl, hrest, Spelling.decode_error_iff.1 he⟩

theorem raises_readList (hb : 8 ≤ b.length) : (readList p b).Raises (b.drop 4) fun e =>
    e.Measures b ∨ ∃ c, StandsAt p b c ∧ decode (GroupRecord p) c = .error e := by
  intro e he
  refine ((run_readList_error hb).1 he).imp_left ?_
  rintro ⟨declared, hlt, -, rfl⟩
  exact ⟨rfl, by simpa using hlt⟩

end GroupRecord

namespace Icmpv6

theorem Header.raises_read : read.Raises b (DecodeError.Measures b) := by
  simp [read, DecodeError.Measures]

theorem Echo.raises_read : read.Raises b (DecodeError.Measures b) := by
  simp [read, Header.raises_read, DecodeError.Measures]

theorem Listener.raises_read : read.Raises b (DecodeError.Measures b) := by
  simp [read, Header.raises_read, Address.raises_read, DecodeError.Measures]

theorem SourceQuery.raises_read : read.Raises b (DecodeError.Measures b) := by
  simp [read, Listener.raises_read, Querier.raises_read, DecodeError.Measures]

theorem Query.raises_read : read.Raises b (DecodeError.Measures b) := by
  simp [read, SourceQuery.raises_read, Listener.raises_read, DecodeError.Measures]

theorem Header.exists_run_read (h : 4 ≤ b.length) : ∃ header, read.run b = .ok (header, b.drop 4) := by
  rw [read, Reader.run_need_bind_of_le h, Reader.run_bind_of_ok (Reader.run_u8_of_le (by omega)),
    Reader.run_bind_of_ok (Reader.run_u8_of_le (by simp; omega)), List.drop_drop,
    Reader.run_bind_of_ok (Reader.run_u16_of_le (by simp; omega)), List.drop_drop]
  exact ⟨_, rfl⟩

theorem Report.run_read_error (h : 8 ≤ b.length) : read.run b = .error e ↔
    (GroupRecord.readList .mld b).run (b.drop 4) = .error e := by
  obtain ⟨header, hheader⟩ := Header.exists_run_read (b := b) (by omega)
  rw [read, Reader.run_get_bind, Reader.run_need_bind_of_le h, Reader.run_bind_of_ok hheader,
    bind_pure_comp, Reader.run_map_error]

theorem Report.raises_read : read.Raises b fun e =>
    e.Measures b ∨ ∃ c, GroupRecord.StandsAt .mld b c ∧ decode (GroupRecord .mld) c = .error e := by
  intro e he
  by_cases h : b.length < 8
  · rw [read, Reader.run_get_bind, Reader.run_need_bind_of_lt h] at he
    cases he
    exact .inl ⟨rfl, h⟩
  · replace h := Nat.le_of_not_lt h
    exact GroupRecord.raises_readList h e ((run_read_error h).1 he)

theorem Message.raises_read : read.Raises b fun e =>
    e.Measures b ∨ (∃ rest, 3 ≤ rest.length ∧ b = Report.kind :: rest) ∧ decode Report b = .error e := by
  rw [read, Reader.raises_need_bind]
  refine ⟨fun h => .inl ⟨rfl, h⟩, fun h => ?_⟩
  cases b with
  | nil => cases h
  | cons kind b =>
      rw [Reader.raises_bind_of_ok (Reader.run_peekByte_ok.2 ⟨⟨b, rfl⟩, rfl⟩)]
      simp only [bind_pure_comp]
      split_ifs with hecho hquery hlistener hreport
      · exact Reader.raises_map.2 (Echo.raises_read.imp fun _ => .inl)
      · exact Reader.raises_map.2 (Query.raises_read.imp fun _ => .inl)
      · exact Reader.raises_map.2 (Listener.raises_read.imp fun _ => .inl)
      · refine Reader.raises_map.2 fun e he => .inr ⟨⟨b, Nat.le_of_succ_le_succ h, ?_⟩, Spelling.decode_error_iff.2 he⟩
        rw [hreport]
      · exact Reader.raises_bind.2 ⟨Header.raises_read.imp fun _ => .inl, by simp⟩

/-- Whatever an ICMPv6 message is refused for was measured, on its own bytes or on those of a record. -/
theorem Message.exists_measures (h : decode Message b = .error e) : ∃ c, e.Measures c := by
  obtain he | ⟨-, hreport⟩ := raises_read e (Spelling.decode_error_iff.1 h)
  · exact ⟨b, he⟩
  · obtain he | ⟨c, -, hrecord⟩ := Report.raises_read e (Spelling.decode_error_iff.1 hreport)
    · exact ⟨b, he⟩
    · exact ⟨c, GroupRecord.raises_read e (Spelling.decode_error_iff.1 hrecord)⟩

end Icmpv6

namespace Igmp

theorem Short.raises_read : read.Raises b (DecodeError.Measures b) := by
  simp [read, Address.raises_read, DecodeError.Measures]

theorem SourceQuery.raises_read : read.Raises b (DecodeError.Measures b) := by
  simp [read, Short.raises_read, Querier.raises_read, DecodeError.Measures]

theorem Report.run_read_error (h : 8 ≤ (kind :: b).length) : read.run (kind :: b) = .error e ↔
    (GroupRecord.readList .igmp (kind :: b)).run (b.drop 3) = .error e := by
  rw [List.length_cons] at h
  rw [read, Reader.run_get_bind, Reader.run_need_bind_of_le h, Reader.run_bind_of_ok (Reader.run_u8_ok.2 rfl),
    if_neg (not_not_intro rfl), Reader.run_bind_of_ok (Reader.run_skip_of_le (by omega)),
    Reader.run_bind_of_ok (Reader.run_u16_of_le (by simp; omega)), List.drop_drop, bind_pure_comp,
    Reader.run_map_error]

theorem Report.raises_read : read.Raises b fun e =>
    e.Measures b ∨ (∃ code, e = .unknownType .igmpv3Report code) ∨ (∃ rest, b = kind :: rest) ∧
      ∃ c, GroupRecord.StandsAt .igmp b c ∧ decode (GroupRecord .igmp) c = .error e := by
  intro e he
  by_cases h : b.length < 8
  · rw [read, Reader.run_get_bind, Reader.run_need_bind_of_lt h] at he
    cases he
    exact .inl ⟨rfl, h⟩
  · replace h := Nat.le_of_not_lt h
    cases b with
    | nil => cases h
    | cons found b =>
        by_cases hkind : found = kind
        · subst hkind
          exact (GroupRecord.raises_readList h e ((run_read_error h).1 he)).imp_right
            fun hrecord => .inr ⟨⟨b, rfl⟩, hrecord⟩
        · rw [read, Reader.run_get_bind, Reader.run_need_bind_of_le h,
            Reader.run_bind_of_ok (Reader.run_u8_ok.2 rfl), if_pos hkind] at he
          cases he
          exact .inr (.inl ⟨found, rfl⟩)

theorem Message.raises_read : read.Raises b fun e =>
    e.Measures b ∨ (∃ code, e = .unknownType .igmp code) ∨
      (∃ rest, b = Report.kind :: rest) ∧ decode Report b = .error e := by
  rw [read, Reader.raises_get_bind, Reader.raises_need_bind]
  refine ⟨fun h => .inl ⟨rfl, h⟩, fun h => ?_⟩
  cases b with
  | nil => cases h
  | cons kind b =>
      rw [Reader.raises_bind_of_ok (Reader.run_peekByte_ok.2 ⟨⟨b, rfl⟩, rfl⟩)]
      simp only [bind_pure_comp]
      split_ifs with hquery hshort hreport
      · exact Reader.raises_map.2 (SourceQuery.raises_read.imp fun _ => .inl)
      · exact Reader.raises_map.2 (Short.raises_read.imp fun _ => .inl)
      · refine Reader.raises_map.2 fun e he => .inr (.inr ⟨⟨b, ?_⟩, Spelling.decode_error_iff.2 he⟩)
        rw [hreport]
      · exact Reader.raises_throw.2 (.inr (.inl ⟨kind, rfl⟩))

end Igmp

theorem Payload.raises_readAs {code : UInt8} : (readAs code).Raises b fun e =>
    e.Measures b ∨ code = HeaderCode.icmpv6 ∧ decode Icmpv6.Message b = .error e := by
  rw [readAs]
  simp only [bind_pure_comp]
  split_ifs with hicmpv6 hudp
  · exact Reader.raises_map.2 fun e he => .inr ⟨hicmpv6, Spelling.decode_error_iff.2 he⟩
  · exact Reader.raises_map.2 (Udp.raises_read.imp fun _ => .inl)
  · exact Reader.raises_map.2 Reader.raises_rest

theorem Payload.exists_measures {code : UInt8} (h : (readAs code).run b = .error e) : ∃ c, e.Measures c := by
  obtain he | ⟨-, hmessage⟩ := raises_readAs e h
  · exact ⟨b, he⟩
  · exact Icmpv6.Message.exists_measures hmessage

end Readers

end PacketWatch
