import PacketWatch.Proofs.Packet.Walk

namespace PacketWatch

open Wire

inductive Decoder where
  | icmpv6Header
  | echo
  | listener
  | mldSourceQuery
  | listenerQuery
  | record (protocol : Protocol)
  | mldReport
  | icmpv6
  | shortIgmp
  | igmpSourceQuery
  | igmpReport
  | igmp
  | udp
  | hopByHop
  | routing
  | fragment
  | extension (code : UInt8)
  | payload (code : UInt8)
  | packet
  | payloadLength

namespace Decoder

def Fails : Decoder → Bytes → DecodeError → Prop
  | icmpv6Header, b, e => decode Icmpv6.Header b = .error e
  | echo, b, e => decode Icmpv6.Echo b = .error e
  | listener, b, e => decode Icmpv6.Listener b = .error e
  | mldSourceQuery, b, e => decode Icmpv6.SourceQuery b = .error e
  | listenerQuery, b, e => decode Icmpv6.Query b = .error e
  | record p, b, e => decode (GroupRecord p) b = .error e
  | mldReport, b, e => decode Icmpv6.Report b = .error e
  | icmpv6, b, e => decode Icmpv6.Message b = .error e
  | shortIgmp, b, e => decode Igmp.Short b = .error e
  | igmpSourceQuery, b, e => decode Igmp.SourceQuery b = .error e
  | igmpReport, b, e => decode Igmp.Report b = .error e
  | igmp, b, e => decode Igmp.Message b = .error e
  | udp, b, e => decode Udp b = .error e
  | hopByHop, b, e => decode HopByHop b = .error e
  | routing, b, e => decode Routing b = .error e
  | fragment, b, e => decode Fragment b = .error e
  | extension code, b, e => @decode Extension (Extension.format code) b = .error e
  | payload code, b, e => @decode Payload (Payload.format code) b = .error e
  | packet, b, e => decode Packet b = .error e
  | payloadLength, b, e => Packet.peekPayloadLength b = .error e

/-! The decoders that bytes are passed on to. -/

def ofIcmpv6 (kind : UInt8) : Decoder :=
  if kind = Icmpv6.Echo.requestKind ∨ kind = Icmpv6.Echo.replyKind then echo
  else if kind = Icmpv6.Listener.queryKind then listenerQuery
  else if kind = Icmpv6.Listener.reportKind ∨ kind = Icmpv6.Listener.doneKind then listener
  else if kind = Icmpv6.Report.kind then mldReport
  else icmpv6Header

def ofIgmp (kind : UInt8) (length : Nat) : Option Decoder :=
  if kind = Igmp.Short.queryKind ∧ Igmp.Short.length + 1 ≤ length then some igmpSourceQuery
  else if kind = Igmp.Short.queryKind ∨ kind = Igmp.Short.v1ReportKind ∨ kind = Igmp.Short.v2ReportKind
      ∨ kind = Igmp.Short.v2LeaveKind then some shortIgmp
  else if kind = Igmp.Report.kind then some igmpReport
  else none

def ofExtension (code : UInt8) : Option Decoder :=
  if code = HeaderCode.hopByHop then some hopByHop
  else if code = HeaderCode.routing then some routing
  else if code = HeaderCode.fragment then some fragment
  else none

def ofPayload (code : UInt8) : Option Decoder :=
  if code = HeaderCode.icmpv6 then some icmpv6 else if code = HeaderCode.udp then some udp else none

inductive Hands : Decoder → Bytes → Decoder → Bytes → Prop
  | echo {b : Bytes} : 8 ≤ b.length → Hands echo b icmpv6Header b
  | listener {b : Bytes} : 24 ≤ b.length → Hands listener b icmpv6Header b
  | mldSourceQuery {b : Bytes} : 28 ≤ b.length → Hands mldSourceQuery b listener b
  | listenerQuery {b : Bytes} : 24 ≤ b.length →
      Hands listenerQuery b (if 28 < b.length then mldSourceQuery else listener) b
  | mldReport {b : Bytes} : 8 ≤ b.length → Hands mldReport b icmpv6Header b
  | mldRecord {b c : Bytes} : GroupRecord.StandsAt .mld b c → Hands mldReport b (record .mld) c
  | icmpv6 {kind : UInt8} {b : Bytes} : 3 ≤ b.length → Hands icmpv6 (kind :: b) (ofIcmpv6 kind) (kind :: b)
  | igmpSourceQuery {b : Bytes} : 12 ≤ b.length → Hands igmpSourceQuery b shortIgmp b
  | igmpRecord {b c : Bytes} : GroupRecord.StandsAt .igmp (Igmp.Report.kind :: b) c →
      Hands igmpReport (Igmp.Report.kind :: b) (record .igmp) c
  | igmp {kind : UInt8} {b : Bytes} {d : Decoder} : ofIgmp kind (kind :: b).length = some d →
      Hands igmp (kind :: b) d (kind :: b)
  | extension {code : UInt8} {b : Bytes} {d : Decoder} : ofExtension code = some d →
      Hands (extension code) b d b
  | payload {code : UInt8} {b : Bytes} {d : Decoder} : ofPayload code = some d → Hands (payload code) b d b
  | packetExtension {b c : Bytes} {n : Nat} {l : List Extension} {code : UInt8} :
      frameSize? b = .ok (some n) → n ≤ b.length →
      Packet.Reads (b.getD 6 0) ((b.take n).drop 40) l code c → l.length < 16 →
      (∀ e ∈ l, e.isFragment = false) → Extension.isNamedBy code = true →
      Hands packet b (extension code) c
  | packetPayload {b c : Bytes} {n : Nat} {l : List Extension} {code : UInt8} :
      frameSize? b = .ok (some n) → n ≤ b.length →
      Packet.Reads (b.getD 6 0) ((b.take n).drop 40) l code c → l.length ≤ 16 →
      Packet.Followed l code → (∀ e ∈ l, e.isTrailingFragment = false) →
      Hands packet b (payload code) c

/-- Decoder `d` on `b` fails with an error that decoder `d'` finds on `c`: none of those to which `d'` passes
bytes on fails with it. -/
inductive FoundBy (e : DecodeError) : Decoder → Bytes → Decoder → Bytes → Prop
  | own {d : Decoder} {b : Bytes} : d.Fails b e → (∀ d' c, Hands d b d' c → ¬ d'.Fails c e) →
      FoundBy e d b d b
  | handed {d d' d'' : Decoder} {b c c' : Bytes} : Hands d b d' c → FoundBy e d' c d'' c' →
      FoundBy e d b d'' c'

variable {d d' : Decoder} {b c : Bytes} {e : DecodeError}

def depth : Decoder → Nat
  | packet => 6
  | payload _ => 5
  | icmpv6 => 4
  | listenerQuery => 3
  | mldSourceQuery | igmp => 2
  | echo | listener | mldReport | igmpSourceQuery | igmpReport | extension _ => 1
  | _ => 0

theorem Hands.depth_lt (h : Hands d b d' c) : d'.depth < d.depth := by
  cases h with
  | listenerQuery => split_ifs <;> decide
  | icmpv6 => rw [ofIcmpv6]; split_ifs <;> decide
  | igmp h => rw [ofIgmp] at h; split_ifs at h <;> cases h <;> decide
  | extension h => rw [ofExtension] at h; split_ifs at h <;> cases h <;> simp [depth]
  | payload h => rw [ofPayload] at h; split_ifs at h <;> cases h <;> simp [depth]
  | _ => simp [depth]

/-- An error comes from a decoder further down, or is found here: by induction on the depth. -/
theorem exists_foundBy (h : d.Fails b e) : ∃ d' c, FoundBy e d b d' c := by
  induction hn : d.depth using Nat.strongRecOn generalizing d b with
  | _ n ih =>
    by_cases hhanded : ∃ d' c, Hands d b d' c ∧ d'.Fails c e
    · obtain ⟨d', c, hd, hc⟩ := hhanded
      obtain ⟨d'', c', hf⟩ := ih _ (hn ▸ hd.depth_lt) hc rfl
      exact ⟨d'', c', .handed hd hf⟩
    · exact ⟨d, b, .own h fun d' c hd hc => hhanded ⟨d', c, hd, hc⟩⟩

theorem Hands.isInfix (h : Hands d b d' c) : c <:+: b := by
  have hbody {x y : Bytes} {n : Nat} (hy : y <:+ (x.take n).drop 40) : y <:+: x :=
    (hy.trans (List.drop_suffix _ _)).isInfix.trans (List.take_prefix n x).isInfix
  cases h with
  | mldRecord h => exact h.isSuffix.isInfix
  | igmpRecord h => exact h.isSuffix.isInfix
  | packetExtension _ _ h => exact hbody h.isSuffix
  | packetPayload _ _ h => exact hbody h.isSuffix
  | _ => exact List.infix_rfl

theorem FoundBy.isInfix (h : FoundBy e d b d' c) : c <:+: b := by
  induction h with
  | own => exact List.infix_rfl
  | handed hd _ ih => exact ih.trans hd.isInfix

/-- An error found in what a decoder passes on comes out unchanged. -/
theorem Hands.fails (h : Hands d b d' c) (he : d'.Fails c e) : d.Fails b e := by
  cases h with
  | echo hlen =>
      refine Spelling.decode_error_iff.2 ?_
      change Icmpv6.Echo.read.run b = _
      rw [Icmpv6.Echo.read, Reader.run_need_bind_of_le hlen]
      exact Reader.run_bind_of_error (Spelling.decode_error_iff.1 he)
  | listener hlen =>
      refine Spelling.decode_error_iff.2 ?_
      change Icmpv6.Listener.read.run b = _
      rw [Icmpv6.Listener.read, Reader.run_need_bind_of_le hlen]
      exact Reader.run_bind_of_error (Spelling.decode_error_iff.1 he)
  | mldSourceQuery hlen =>
      refine Spelling.decode_error_iff.2 ?_
      change Icmpv6.SourceQuery.read.run b = _
      rw [Icmpv6.SourceQuery.read, Reader.run_get_bind, Reader.run_need_bind_of_le hlen]
      exact Reader.run_bind_of_error (Spelling.decode_error_iff.1 he)
  | listenerQuery hlen =>
      refine Spelling.decode_error_iff.2 ?_
      change Icmpv6.Query.read.run b = _
      rw [Icmpv6.Query.read, Reader.run_get_bind, Reader.run_need_bind_of_le hlen]
      simp only [reaches_eq_true_iff, Nat.succ_le_iff]
      split_ifs at he ⊢ <;> exact Reader.run_bind_of_error (Spelling.decode_error_iff.1 he)
  | mldReport hlen =>
      refine Spelling.decode_error_iff.2 ?_
      change Icmpv6.Report.read.run b = _
      rw [Icmpv6.Report.read, Reader.run_get_bind, Reader.run_need_bind_of_le hlen]
      exact Reader.run_bind_of_error (Spelling.decode_error_iff.1 he)
  | mldRecord hstands =>
      have hlen := hstands.1
      refine Spelling.decode_error_iff.2 ((Icmpv6.Report.run_read_error (by omega)).2 ?_)
      exact (GroupRecord.run_readList_error (by omega)).2 (.inr ⟨c, hstands, he⟩)
  | icmpv6 hlen =>
      refine Spelling.decode_error_iff.2 ?_
      change Icmpv6.Message.read.run _ = _
      rw [Icmpv6.Message.read, Reader.run_need_bind_of_le (Nat.succ_le_succ hlen),
        Reader.run_bind_of_ok (Reader.run_peekByte_ok.2 ⟨⟨_, rfl⟩, rfl⟩)]
      rw [ofIcmpv6] at he
      split_ifs at he ⊢ <;> exact Reader.run_bind_of_error (Spelling.decode_error_iff.1 he)
  | igmpSourceQuery hlen =>
      refine Spelling.decode_error_iff.2 ?_
      change Igmp.SourceQuery.read.run b = _
      rw [Igmp.SourceQuery.read, Reader.run_get_bind, Reader.run_need_bind_of_le hlen]
      exact Reader.run_bind_of_error (Spelling.decode_error_iff.1 he)
  | igmpRecord hstands =>
      have hlen := hstands.1
      refine Spelling.decode_error_iff.2 ((Igmp.Report.run_read_error (by omega)).2 ?_)
      exact (GroupRecord.run_readList_error (by omega)).2 (.inr ⟨c, hstands, he⟩)
  | igmp hd =>
      refine Spelling.decode_error_iff.2 ?_
      change Igmp.Message.read.run _ = _
      rw [Igmp.Message.read, Reader.run_get_bind, Reader.run_need_bind_of_le (by simp),
        Reader.run_bind_of_ok (Reader.run_peekByte_ok.2 ⟨⟨_, rfl⟩, rfl⟩)]
      simp only [reaches_eq_true_iff]
      rw [ofIgmp] at hd
      split_ifs at hd ⊢ <;> cases hd <;> exact Reader.run_bind_of_error (Spelling.decode_error_iff.1 he)
  | @extension code _ _ hd =>
      let _ := Extension.format code
      refine Spelling.decode_error_iff.2 ?_
      change (Extension.readAs code).run b = _
      rw [Extension.readAs]
      rw [ofExtension] at hd
      split_ifs at hd ⊢ <;> cases hd <;> exact Reader.run_bind_of_error (Spelling.decode_error_iff.1 he)
  | @payload code _ _ hd =>
      let _ := Payload.format code
      refine Spelling.decode_error_iff.2 ?_
      change (Payload.readAs code).run b = _
      rw [Payload.readAs]
      rw [ofPayload] at hd
      split_ifs at hd ⊢ <;> cases hd <;> exact Reader.run_bind_of_error (Spelling.decode_error_iff.1 he)
  | @packetExtension _ _ _ _ code hs hle hl hlen hfs hcode =>
      let _ := Extension.format code
      refine (Packet.decode_error_iff_of_frameSize? hs hle).2 (Packet.run_readBody_error.2 (.inl ?_))
      exact Packet.run_readChain_error.2 ⟨_, _, c, hl, hfs, hcode, .inr ⟨hlen, Spelling.decode_error_iff.1 he⟩⟩
  | @packetPayload _ _ _ _ code hs hle hl hlen hfollow htrailing =>
      let _ := Payload.format code
      refine (Packet.decode_error_iff_of_frameSize? hs hle).2 (Packet.run_readBody_error.2 (.inr ?_))
      exact ⟨_, _, c, Packet.run_readChain_ok_iff_reads.2 ⟨hl, hlen, hfollow⟩, by simpa using htrailing,
        Spelling.decode_error_iff.1 he⟩

theorem FoundBy.fails (h : FoundBy e d b d' c) : d.Fails b e := by
  induction h with
  | own h _ => exact h
  | handed hd _ ih => exact hd.fails ih

theorem Hands.ne_packet (h : Hands d b d' c) : d' ≠ packet := by
  rintro rfl
  have hlt := h.depth_lt
  cases d <;> simp [depth] at hlt

/-- No decoder has a packet decoded within its input. -/
theorem FoundBy.eq_of_packet (h : FoundBy e d b d' c) (hd' : d' = packet) : d = packet ∧ c = b := by
  induction h with
  | own => exact ⟨hd', rfl⟩
  | handed hd _ ih => exact absurd (ih hd').1 hd.ne_packet

end Decoder

end PacketWatch
