import PacketWatch.Proofs.Formats.Messages

namespace PacketWatch

open Wire

namespace Wire

variable {front back b : Bytes} {i width n : Nat}

def numberAt (b : Bytes) (i width : Nat) : Nat := value ((b.drop i).take width)

theorem numberAt_append (h : front.length ≤ i) :
    numberAt (front ++ b) i width = numberAt b (i - front.length) width := by
  rw [numberAt, List.drop_append, List.drop_of_length_le h, List.nil_append, numberAt]

theorem numberAt_digits (h : n < 256 ^ width) : numberAt (digits width n ++ back) 0 width = n := by
  rw [numberAt, List.drop_zero, List.take_left' (length_digits width n), value_digits h]

end Wire

/-! The numbers that are limited, where they stand in the bytes. -/

theorem Udp.number {u : Udp} (hfit : Fit u.limits) : numberAt u.bytes 4 2 = u.size := by
  simp only [limits, fit_cons, fit_nil, and_true] at hfit
  rw [bytes, numberAt_append (by simp), numberAt_append (by simp)]
  exact numberAt_digits (Nat.lt_succ_iff.2 hfit)

theorem Querier.numbers {p : Protocol} {q : Querier p} (hfit : Fit q.limits) :
    numberAt q.bytes 0 1 % 8 = q.robustness.toNat ∧ numberAt q.bytes 2 2 = q.sources.length := by
  simp only [limits, fit_cons, fit_nil, and_true] at hfit
  have hs := q.suppress.toNat_lt
  constructor
  · rw [bytes, numberAt_digits (by omega)]
    omega
  · rw [bytes, numberAt_append (by simp), numberAt_append (by simp)]
    exact numberAt_digits (Nat.lt_succ_iff.2 hfit.2)

namespace GroupRecord

variable {p : Protocol}

theorem numbers {r : GroupRecord p} (hfit : Fit r.limits) :
    numberAt r.bytes 1 1 = r.aux.length ∧ numberAt r.bytes 2 2 = r.sources.length := by
  simp only [limits, fit_cons, fit_nil, and_true] at hfit
  constructor
  · rw [bytes, numberAt_append (by simp)]
    exact numberAt_digits (Nat.lt_succ_iff.2 hfit.1)
  · rw [bytes, numberAt_append (by simp), numberAt_append (by simp)]
    exact numberAt_digits (Nat.lt_succ_iff.2 hfit.2)

/-- The records of a report, behind the four bytes that begin it. -/
theorem number_list {l : List (GroupRecord p)} {front : Bytes} (hfront : front.length = 4)
    (hfit : Fit (listLimits l)) : numberAt (front ++ listBytes l) 6 2 = l.length ∧
      ∃ encodings : List Bytes, l.map encode = encodings.map .ok ∧
        (front ++ listBytes l).drop 8 = encodings.flatten := by
  simp only [listLimits, fit_cons, fit_flatMap] at hfit
  constructor
  · rw [numberAt_append (by omega), hfront, listBytes, numberAt_append (by simp)]
    exact numberAt_digits (Nat.lt_succ_iff.2 hfit.1)
  · refine ⟨_, Spelling.map_encode hfit.2, ?_⟩
    rw [listBytes, ← List.append_assoc, ← List.append_assoc, List.drop_left' (by simp [hfront])]
    exact List.flatMap_def

end GroupRecord

namespace HopByHop

variable {h : HopByHop}

theorem number (hfit : Fit h.limits) : 8 * (numberAt h.bytes 1 1 + 1) = h.size := by
  simp only [limits, fit_cons] at hfit
  obtain ⟨k, hk⟩ := h.aligned
  rw [bytes, numberAt_append (by simp), List.length_singleton, numberAt_digits (Nat.lt_succ_iff.2 hfit.1),
    size]
  omega

theorem number_option (hfit : Fit h.limits) {front back : List HopOption} {kind : UInt8} {data : Bytes}
    (hoptions : h.options = front ++ .tlv kind data :: back) :
    numberAt h.bytes (3 + total HopOption.size front) 1 = data.length := by
  rw [limits, fit_cons, fit_flatMap] at hfit
  have hdata : data.length ≤ 255 := by
    simpa [HopOption.limits] using hfit.2 (.tlv kind data) (by simp [hoptions])
  have hfront : (front.flatMap HopOption.bytes).length = total HopOption.size front :=
    HopOption.length_flatMap_bytes front
  have hb : h.bytes = ([h.nextHeader] ++ digits 1 (h.size / 8 - 1) ++ front.flatMap HopOption.bytes ++
      [kind]) ++ (digits 1 data.length ++ (data ++ back.flatMap HopOption.bytes)) := by
    simp [bytes, hoptions, HopOption.bytes]
  rw [hb, numberAt_append (by simp [hfront]; omega)]
  have hi : 3 + total HopOption.size front - ([h.nextHeader] ++ digits 1 (h.size / 8 - 1) ++
      front.flatMap HopOption.bytes ++ [kind]).length = 0 := by
    simp [hfront]; omega
  rw [hi]
  exact numberAt_digits (Nat.lt_succ_iff.2 hdata)

end HopByHop

theorem Routing.number {h : Routing} (hfit : Fit h.limits) : 8 * (numberAt h.bytes 1 1 + 1) = h.size := by
  simp only [limits, fit_cons, fit_nil, and_true] at hfit
  obtain ⟨k, hk⟩ := h.aligned
  rw [bytes, numberAt_append (by simp), List.length_singleton, numberAt_digits (Nat.lt_succ_iff.2 hfit), size]
  omega

theorem Fragment.number {h : Fragment} (hfit : Fit h.limits) :
    numberAt h.bytes 2 2 / 8 = h.offset.toNat := by
  simp only [limits, fit_cons, fit_nil, and_true] at hfit
  have hmore := h.more.toNat_lt
  have hword : numberAt h.bytes 2 2 = 8 * h.offset.toNat + h.more.toNat := by
    rw [bytes, numberAt_append (by simp), numberAt_append (by simp)]
    exact numberAt_digits (by omega)
  rw [hword]
  omega

namespace Packet

variable {p : Packet}

theorem numbers (hfit : Fit p.limits) :
    numberAt p.bytes 0 4 / 2 ^ 28 = p.version.toNat ∧ numberAt p.bytes 0 4 % 2 ^ 20 = p.flowLabel.toNat ∧
      numberAt p.bytes 4 2 = p.payloadLength := by
  simp only [limits, fit_append, fit_cons, fit_nil, and_true] at hfit
  obtain ⟨⟨hversion, hflow, hlength⟩, -⟩ := hfit
  have hclass := p.trafficClass.toNat_lt
  have hword : numberAt p.bytes 0 4 = p.firstWord := by
    rw [bytes, headerBytes, List.append_assoc]
    exact numberAt_digits (by rw [firstWord]; omega)
  rw [hword, firstWord]
  refine ⟨by omega, by omega, ?_⟩
  rw [bytes, headerBytes, List.append_assoc, numberAt_append (by simp), List.append_assoc]
  exact numberAt_digits (Nat.lt_succ_iff.2 hlength)

theorem parts (hfit : Fit p.limits) : ∃ (encodings : List Bytes) (payload : Bytes),
    p.extensions.map (fun e => @encode Extension (Extension.format e.code) e) = encodings.map .ok ∧
      @encode Payload (Payload.format p.payload.code) p.payload = .ok payload ∧
      p.bytes.drop 40 = encodings.flatten ++ (payload ++ p.trailer) := by
  rw [limits, fit_append, fit_append] at hfit
  refine ⟨_, _, Extension.map_encode hfit.2.1, Payload.encode_eq hfit.2.2, ?_⟩
  rw [bytes, List.drop_left' p.length_headerBytes, bodyBytes, List.append_assoc, List.flatMap_def]

end Packet

structure TrueNumbers : Prop where
  udp : ∀ (u : Udp) w, encode u = .ok w → numberAt w 4 2 = 8 + u.payload.length
  mldSourceQuery : ∀ (q : Icmpv6.SourceQuery) w, encode q = .ok w →
    numberAt w 24 1 % 8 = q.querier.robustness.toNat ∧ numberAt w 26 2 = q.querier.sources.length
  igmpSourceQuery : ∀ (q : Igmp.SourceQuery) w, encode q = .ok w →
    numberAt w 8 1 % 8 = q.querier.robustness.toNat ∧ numberAt w 10 2 = q.querier.sources.length
  record : ∀ {p} (r : GroupRecord p) w, encode r = .ok w →
    numberAt w 1 1 = r.aux.length ∧ numberAt w 2 2 = r.sources.length
  mldReport : ∀ (r : Icmpv6.Report) w, encode r = .ok w → numberAt w 6 2 = r.records.length ∧
    ∃ encodings : List Bytes, r.records.map encode = encodings.map .ok ∧ w.drop 8 = encodings.flatten
  igmpReport : ∀ (r : Igmp.Report) w, encode r = .ok w → numberAt w 6 2 = r.records.length ∧
    ∃ encodings : List Bytes, r.records.map encode = encodings.map .ok ∧ w.drop 8 = encodings.flatten
  hopByHop : ∀ (h : HopByHop) w, encode h = .ok w → 8 * (numberAt w 1 1 + 1) = h.size ∧
    ∀ front kind data back, h.options = front ++ .tlv kind data :: back →
      numberAt w (3 + total HopOption.size front) 1 = data.length
  routing : ∀ (h : Routing) w, encode h = .ok w → 8 * (numberAt w 1 1 + 1) = h.size
  fragment : ∀ (h : Fragment) w, encode h = .ok w → numberAt w 2 2 / 8 = h.offset.toNat
  packet : ∀ (p : Packet) w, encode p = .ok w →
    numberAt w 0 4 / 2 ^ 28 = p.version.toNat ∧ numberAt w 0 4 % 2 ^ 20 = p.flowLabel.toNat ∧
      numberAt w 4 2 = p.payloadLength ∧
      ∃ (encodings : List Bytes) (payload : Bytes), p.extensions.map (fun e => @encode Extension (Extension.format e.code) e) =
          encodings.map .ok ∧
        @encode Payload (Payload.format p.payload.code) p.payload = .ok payload ∧
        w.drop 40 = encodings.flatten ++ (payload ++ p.trailer)
  listenerQuery : (∀ q, encode (Icmpv6.Query.v1 q) = encode q) ∧ ∀ q, encode (Icmpv6.Query.v2 q) = encode q
  icmpv6 : (∀ m, encode (Icmpv6.Message.echo m) = encode m) ∧
    (∀ q, encode (Icmpv6.Message.query q) = encode q) ∧
    (∀ m, encode (Icmpv6.Message.listener m) = encode m) ∧
    ∀ r, encode (Icmpv6.Message.report r) = encode r
  igmp : (∀ m, encode (Igmp.Message.short m) = encode m) ∧
    (∀ q, encode (Igmp.Message.query q) = encode q) ∧ ∀ r, encode (Igmp.Message.report r) = encode r
  extension : ∀ code, (∀ h, @encode Extension (Extension.format code) (.hopByHop h) = encode h) ∧
    (∀ h, @encode Extension (Extension.format code) (.routing h) = encode h) ∧
    ∀ h, @encode Extension (Extension.format code) (.fragment h) = encode h
  payload : ∀ code, (∀ m, @encode Payload (Payload.format code) (.icmpv6 m) = encode m) ∧
    (∀ u, @encode Payload (Payload.format code) (.udp u) = encode u) ∧
    ∀ c data, @encode Payload (Payload.format code) (.raw c data) = .ok data

theorem trueNumbers : TrueNumbers where
  udp u w h := by
    obtain ⟨hfit, rfl⟩ := Spelling.encode_ok_iff.1 h
    exact Udp.number hfit
  mldSourceQuery q w h := by
    obtain ⟨hfit, rfl⟩ := Spelling.encode_ok_iff.1 h
    have hbase : q.base.bytes.length = 24 := q.base.length_bytes
    change numberAt (q.base.bytes ++ q.querier.bytes) 24 1 % 8 = _ ∧
      numberAt (q.base.bytes ++ q.querier.bytes) 26 2 = _
    rw [numberAt_append (by omega), numberAt_append (by omega), hbase]
    exact Querier.numbers hfit
  igmpSourceQuery q w h := by
    obtain ⟨hfit, rfl⟩ := Spelling.encode_ok_iff.1 h
    have hbase : q.base.bytes.length = 8 := q.base.length_bytes
    change numberAt (q.base.bytes ++ q.querier.bytes) 8 1 % 8 = _ ∧
      numberAt (q.base.bytes ++ q.querier.bytes) 10 2 = _
    rw [numberAt_append (by omega), numberAt_append (by omega), hbase]
    exact Querier.numbers hfit
  record r w h := by
    obtain ⟨hfit, rfl⟩ := Spelling.encode_ok_iff.1 h
    exact GroupRecord.numbers hfit
  mldReport r w h := by
    obtain ⟨hfit, rfl⟩ := Spelling.encode_ok_iff.1 h
    exact GroupRecord.number_list r.header.length_bytes hfit
  igmpReport r w h := by
    obtain ⟨hfit, rfl⟩ := Spelling.encode_ok_iff.1 h
    have hfront : ([Igmp.Report.kind, 0] ++ digits 2 r.checksum.toNat).length = 4 := by simp
    exact GroupRecord.number_list hfront hfit
  hopByHop h w hw := by
    obtain ⟨hfit, rfl⟩ := Spelling.encode_ok_iff.1 hw
    exact ⟨HopByHop.number hfit, fun _ _ _ _ => HopByHop.number_option hfit⟩
  routing h w hw := by
    obtain ⟨hfit, rfl⟩ := Spelling.encode_ok_iff.1 hw
    exact Routing.number hfit
  fragment h w hw := by
    obtain ⟨hfit, rfl⟩ := Spelling.encode_ok_iff.1 hw
    exact Fragment.number hfit
  packet p w h := by
    obtain ⟨hfit, rfl⟩ := Spelling.encode_ok_iff.1 h
    obtain ⟨hversion, hflow, hlength⟩ := Packet.numbers hfit
    exact ⟨hversion, hflow, hlength, Packet.parts hfit⟩
  listenerQuery := ⟨fun _ => rfl, fun _ => rfl⟩
  icmpv6 := ⟨fun _ => rfl, fun _ => rfl, fun _ => rfl, fun _ => rfl⟩
  igmp := ⟨fun _ => rfl, fun _ => rfl, fun _ => rfl⟩
  extension _ := ⟨fun _ => rfl, fun _ => rfl, fun _ => rfl⟩
  payload _ := ⟨fun _ => rfl, fun _ => rfl, fun c data => (Payload.raw c data).encode_eq fit_nil⟩

end PacketWatch
