import PacketWatch.Proofs.Formats.Decoder

namespace PacketWatch

open Wire

namespace Decoder

variable {d d' : Decoder} {b c : Bytes} {e : DecodeError}

def Tells (d : Decoder) (b : Bytes) : DecodeError → Prop
  | .invalidVersion version => d = packet ∧ ∃ first rest, b = first :: rest ∧ first >>> 4 ≠ 6 ∧
      version = first >>> 4
  | .chainTooLong max => d = packet ∧ max = Packet.maxExtensions
  | .unknownType _ _ => True
  | .pastEnd => False
  | e => e.Measures b

theorem tells_of_measures (h : e.Measures b) (hend : e ≠ .pastEnd) : d.Tells b e := by
  cases e with
  | pastEnd => exact hend rfl
  | _ => first | exact h | exact h.elim

theorem tells_of_decode {α : Type} [WireFormat α] [Spelling α] {E : DecodeError → Prop}
    (hwithin : (WireFormat.read : Reader α).Within b fun _ _ => True)
    (hraises : (WireFormat.read : Reader α).Raises b E) (h : decode α b = .error e)
    (hE : E e → e.Measures b ∨ d.Tells b e) : d.Tells b e := by
  have hbounds := Spelling.inBounds_decode hwithin
  rw [h] at hbounds
  rcases hE (hraises e (Spelling.decode_error_iff.1 h)) with he | he
  · exact tells_of_measures he hbounds
  · exact he

theorem tells_of_packet_fails (h : decode Packet b = .error e)
    (hown : ∀ d' c, Hands packet b d' c → ¬ d'.Fails c e) : packet.Tells b e := by
  refine tells_of_decode (Packet.within_read b) (E := fun e => decode Packet b = .error e)
    (fun e => Spelling.decode_error_iff.2) h fun _ => ?_
  rcases Packet.decode_error_cases h with he | hs | ⟨n, hs, hle, hbody⟩
  · exact .inl he
  · obtain ⟨first, rest, rfl, hsix, rfl⟩ := exists_version_of_frameSize?_error hs
    exact .inr ⟨rfl, first, rest, rfl, hsix, rfl⟩
  · rcases Packet.run_readBody_error.1 hbody with hchain | ⟨l, last, c, hchain, htrailing, hpayload⟩
    · obtain ⟨l, last, c, hl, hfs, hlast, ⟨hlen, rfl⟩ | ⟨hlen, hext⟩⟩ := Packet.run_readChain_error.1 hchain
      · exact .inr ⟨rfl, rfl⟩
      · let _ := Extension.format last
        exact absurd (Spelling.decode_error_iff.2 hext) (hown _ c (.packetExtension hs hle hl hlen hfs hlast))
    · obtain ⟨hl, hlen, hfollow⟩ := Packet.run_readChain_ok_iff_reads.1 hchain
      let _ := Payload.format last
      exact absurd (Spelling.decode_error_iff.2 hpayload)
        (hown _ c (.packetPayload hs hle hl hlen hfollow (by simpa using htrailing)))

/-- What a decoder finds itself it tells of its own bytes. Where it has only these bytes decoded by others,
the checks of the others are made on the same bytes. -/
theorem tells_of_fails (h : d.Fails b e) (hown : ∀ d' c, Hands d b d' c → ¬ d'.Fails c e) : d.Tells b e := by
  cases d with
  | icmpv6Header => exact tells_of_decode (Icmpv6.Header.within_read.2 fun _ => trivial) Icmpv6.Header.raises_read h .inl
  | echo => exact tells_of_decode (Icmpv6.Echo.within_read b) Icmpv6.Echo.raises_read h .inl
  | listener => exact tells_of_decode (Icmpv6.Listener.within_read.2 fun _ => trivial) Icmpv6.Listener.raises_read h .inl
  | mldSourceQuery => exact tells_of_decode (Icmpv6.SourceQuery.within_read b) Icmpv6.SourceQuery.raises_read h .inl
  | listenerQuery => exact tells_of_decode (Icmpv6.Query.within_read b) Icmpv6.Query.raises_read h .inl
  | record p => exact tells_of_decode (GroupRecord.within_read b) GroupRecord.raises_read h .inl
  | mldReport =>
      refine tells_of_decode (Icmpv6.Report.within_read b) Icmpv6.Report.raises_read h (Or.imp_right ?_)
      rintro ⟨c, hc, hrecord⟩
      exact absurd hrecord (hown _ c (.mldRecord hc))
  | icmpv6 =>
      refine tells_of_decode (Icmpv6.Message.within_read b) Icmpv6.Message.raises_read h (Or.imp_right ?_)
      rintro ⟨⟨rest, hlen, rfl⟩, hreport⟩
      exact absurd hreport (hown _ _ (.icmpv6 hlen))
  | shortIgmp => exact tells_of_decode (Igmp.Short.within_read.2 fun _ => trivial) Igmp.Short.raises_read h .inl
  | igmpSourceQuery => exact tells_of_decode (Igmp.SourceQuery.within_read b) Igmp.SourceQuery.raises_read h .inl
  | igmpReport =>
      refine tells_of_decode (Igmp.Report.within_read b) Igmp.Report.raises_read h (Or.imp_right ?_)
      rintro (⟨code, rfl⟩ | ⟨⟨rest, rfl⟩, c, hc, hrecord⟩)
      · trivial
      · exact absurd hrecord (hown _ c (.igmpRecord hc))
  | igmp =>
      refine tells_of_decode (Igmp.Message.within_read b) Igmp.Message.raises_read h (Or.imp_right ?_)
      rintro (⟨code, rfl⟩ | ⟨⟨rest, rfl⟩, hreport⟩)
      · trivial
      · exact absurd hreport (hown _ _ (.igmp rfl))
  | udp => exact tells_of_decode (Udp.within_read b) Udp.raises_read h .inl
  | hopByHop => exact tells_of_decode (HopByHop.within_read b) HopByHop.raises_read h .inl
  | routing => exact tells_of_decode (Routing.within_read b) Routing.raises_read h .inl
  | fragment => exact tells_of_decode (Fragment.within_read b) Fragment.raises_read h .inl
  | extension code =>
      let _ := Extension.format code
      refine tells_of_decode (Extension.within_readAs code b) Extension.raises_readAs h (Or.imp_right ?_)
      rintro ⟨-, rfl⟩
      trivial
  | payload code =>
      let _ := Payload.format code
      refine tells_of_decode (Payload.within_readAs code b) Payload.raises_readAs h (Or.imp_right ?_)
      rintro ⟨rfl, hmessage⟩
      exact absurd hmessage (hown _ b (.payload rfl))
  | packet => exact tells_of_packet_fails h hown
  | payloadLength =>
      by_cases hlt : b.length < 6
      · have hpeek := peekPayloadLength_of_lt hlt
        cases hpeek.symm.trans h
        exact ⟨rfl, hlt⟩
      · cases (peekPayloadLength_of_le (Nat.le_of_not_lt hlt)).symm.trans h

theorem FoundBy.tells (h : FoundBy e d b d' c) : d'.Tells c e := by
  induction h with
  | own h hown => exact tells_of_fails h hown
  | handed _ _ ih => exact ih

end Decoder

/-- What an error says is true of the bytes `b` that were to be decoded and of those among them, `c`, on
which it was found. -/
def DecodeError.IsTrueOf (b c : Bytes) : DecodeError → Prop
  | truncated needed available => available = c.length ∧ available ≤ b.length ∧ available < needed
  | inconsistentLength field declared available => available = c.length ∧ available ≤ b.length ∧
      if field = .udpLength ∧ declared < 8 then 8 ≤ available else available < declared
  | optionOverrun offset length remaining => 2 ≤ offset ∧ remaining < length
  | invalidVersion version => ∃ first rest, b = first :: rest ∧ version = first >>> 4 ∧ version ≠ 6
  | chainTooLong max => max = 16
  | unknownType _ _ => True
  | pastEnd => False

theorem Decoder.FoundBy.isTrueOf {d d' : Decoder} {b c : Bytes} {e : DecodeError} (h : FoundBy e d b d' c) :
    e.IsTrueOf b c := by
  have htells := h.tells
  have hle := h.isInfix.length_le
  cases e with
  | truncated needed available =>
      obtain ⟨rfl, hlt⟩ := htells
      exact ⟨rfl, hle, hlt⟩
  | inconsistentLength field declared available =>
      obtain ⟨rfl, hlt⟩ := htells
      exact ⟨rfl, hle, hlt⟩
  | optionOverrun offset length remaining => exact htells
  | invalidVersion version =>
      obtain ⟨rfl, first, rest, rfl, hsix, rfl⟩ := htells
      obtain ⟨-, hb⟩ := h.eq_of_packet rfl
      exact ⟨first, rest, hb.symm, rfl, hsix⟩
  | chainTooLong max => exact htells.2
  | unknownType kind code => trivial
  | pastEnd => exact htells

section Known

variable {b : Bytes} {kind : Kind} {code : UInt8}

theorem Packet.decode_ne_unknownType : decode Packet b ≠ .error (.unknownType kind code) := by
  intro h
  obtain ⟨⟨⟩⟩ | hs | ⟨n, hs, hle, hbody⟩ := decode_error_cases h
  · obtain ⟨_, _, -, -, ⟨⟩⟩ := exists_version_of_frameSize?_error hs
  · obtain hchain | ⟨l, last, c, -, -, hpayload⟩ := run_readBody_error.1 hbody
    · obtain ⟨l, last, c, -, -, hlast, ⟨-, ⟨⟩⟩ | ⟨-, hext⟩⟩ := run_readChain_error.1 hchain
      cases Extension.measures_of_named hlast hext
    · obtain ⟨_, ⟨⟩⟩ := Payload.exists_measures hpayload

theorem Icmpv6.Message.decode_ne_unknownType : decode Message b ≠ .error (.unknownType kind code) := by
  intro h
  obtain ⟨_, ⟨⟩⟩ := exists_measures h

theorem Payload.decode_ne_unknownType {named : UInt8} :
    @decode Payload (format named) b ≠ .error (.unknownType kind code) := by
  let _ := format named
  intro h
  obtain ⟨_, ⟨⟩⟩ := exists_measures (Spelling.decode_error_iff.1 h)

theorem Icmpv6.Message.decode_of_unknown (h : 4 ≤ b.length)
    (hkind : b.getD 0 0 ∉ [Echo.requestKind, Echo.replyKind, Listener.queryKind, Listener.reportKind,
      Listener.doneKind, Report.kind]) :
    ∃ header, decode Message b = .ok (.unknown header (b.drop 4), b.length) := by
  obtain ⟨header, hheader⟩ := Header.exists_run_read h
  cases b with
  | nil => cases h
  | cons first rest =>
      have hrun : read.run (first :: rest) = .ok (.unknown header ((first :: rest).drop 4), []) := by
        simp only [List.getD_cons_zero, List.mem_cons, List.not_mem_nil, or_false, not_or] at hkind
        obtain ⟨hrequest, hreply, hquery, hreport, hdone, hlist⟩ := hkind
        rw [read, Reader.run_need_bind_of_le h,
          Reader.run_bind_of_ok (Reader.run_peekByte_ok.2 ⟨⟨rest, rfl⟩, rfl⟩),
          if_neg (not_or.2 ⟨hrequest, hreply⟩), if_neg hquery, if_neg (not_or.2 ⟨hreport, hdone⟩), if_neg hlist,
          Reader.run_bind_of_ok hheader]
        rfl
      exact ⟨header, Spelling.decode_of_run_ok hrun⟩

theorem Payload.decode_of_unknown (hicmpv6 : code ≠ HeaderCode.icmpv6) (hudp : code ≠ HeaderCode.udp) :
    @decode Payload (format code) b = .ok (.raw code b, b.length) := by
  let _ := format code
  have hrun : (readAs code).run b = .ok (.raw code b, []) := by
    rw [readAs, if_neg hicmpv6, if_neg hudp]
    rfl
  exact Spelling.decode_of_run_ok hrun

end Known

/-- Decode errors tell the truth. Whatever a decoder refuses, it or one of those that it passes bytes on to has
found the error, and what the error says is true of the bytes on which it was found. A packet, an ICMPv6
message and a payload are never refused for a type that is unknown: such a message or payload is kept
as it is. -/
theorem decode_errors_true :
    (∀ (d : Decoder) (b : Bytes) (e : DecodeError), (d.Fails b e ↔ ∃ d' c, Decoder.FoundBy e d b d' c) ∧
      ∀ d' c, Decoder.FoundBy e d b d' c → c <:+: b ∧ e.IsTrueOf b c) ∧
    (∀ (b : Bytes) (kind : Kind) (found : UInt8),
      decode Packet b ≠ .error (.unknownType kind found) ∧
      decode Icmpv6.Message b ≠ .error (.unknownType kind found) ∧
      ∀ code, @decode Payload (Payload.format code) b ≠ .error (.unknownType kind found)) ∧
    (∀ b : Bytes, 4 ≤ b.length → b.getD 0 0 ∉ [128, 129, 130, 131, 132, 143] →
      ∃ header, decode Icmpv6.Message b = .ok (.unknown header (b.drop 4), b.length)) ∧
    ∀ (code : UInt8) (b : Bytes), code ≠ 58 → code ≠ 17 →
      @decode Payload (Payload.format code) b = .ok (.raw code b, b.length) := by
  refine ⟨fun d b e => ⟨⟨Decoder.exists_foundBy, ?_⟩, fun d' c h => ⟨h.isInfix, h.isTrueOf⟩⟩,
    fun b kind found => ⟨Packet.decode_ne_unknownType, Icmpv6.Message.decode_ne_unknownType,
      fun code => Payload.decode_ne_unknownType⟩,
    fun b => Icmpv6.Message.decode_of_unknown, fun code b => Payload.decode_of_unknown⟩
  rintro ⟨d', c, h⟩
  exact h.fails

/-- A packet with a report whose only record declares a source that is not there. -/
theorem decode_errors_true_short_record :
    let b : Bytes := [0x60, 0, 0, 0, 0, 28, 58, 1] ++ List.replicate 32 0 ++
      [143, 0, 0, 0, 0, 0, 0, 1] ++ [4, 0, 0, 1] ++ List.replicate 16 0
    let e : DecodeError := .inconsistentLength (.recordLength .mld) 36 20
    Decoder.packet.Fails b e ∧
      (∃ d c, Decoder.FoundBy e .packet b d c ∧ c <:+: b ∧ e.IsTrueOf b c) ∧
      (∃ header, decode Icmpv6.Message [133, 0, 0, 0, 9] = .ok (.unknown header [9], 5)) ∧
      @decode Payload (Payload.format 59) [9] = .ok (.raw 59 [9], 1) := by
  intro b e
  have hfails : decode Packet b = .error e := by decide +kernel +revert
  obtain ⟨d, c, hfound⟩ := (decode_errors_true.1 .packet b e).1.1 hfails
  exact ⟨hfails, ⟨d, c, hfound, (decode_errors_true.1 .packet b e).2 d c hfound⟩,
    decode_errors_true.2.2.1 [133, 0, 0, 0, 9] (by decide) (by decide),
    decode_errors_true.2.2.2 59 [9] (by decide) (by decide)⟩

end PacketWatch
