import PacketWatch.Proofs.Formats.Numbers

namespace PacketWatch

open Wire

theorem firstExceeded_eq_some {limits : List EncodeError} {e : EncodeError} :
    firstExceeded limits = some e ↔
      ∃ passed left, limits = passed ++ e :: left ∧ Fit passed ∧ e.max < e.value := by
  simp only [firstExceeded, List.find?_eq_some_iff_append, decide_eq_true_eq, Bool.not_eq_true',
    decide_eq_false_iff_not, Nat.not_lt, Fit]
  constructor
  · rintro ⟨hlt, passed, left, rfl, hpassed⟩
    exact ⟨passed, left, rfl, hpassed, hlt⟩
  · rintro ⟨passed, left, rfl, hpassed, hlt⟩
    exact ⟨hlt, passed, left, rfl, hpassed⟩

section Laws

variable {α : Type} [WireFormat α]

def Encodes (a : α) : Prop := ∃ w, encode a = .ok w

/-- A value is encoded exactly if it fits. Otherwise the error is the first of its limits that is
exceeded, with the value that exceeds it. -/
structure OverflowLaw (α : Type) [WireFormat α] (limits : α → List EncodeError) (fits : α → Prop) :
    Prop where
  encodes_iff : ∀ a, Encodes a ↔ fits a
  encode_error_iff : ∀ a e, encode a = .error e ↔
    ∃ passed left, limits a = passed ++ e :: left ∧ Fit passed ∧ e.max < e.value

namespace Spelling

variable [Spelling α] {a : α}

theorem encodes_iff : Encodes a ↔ Fit (limits a) := by
  simp [Encodes, encode_ok_iff]

theorem encode_error_iff {e : EncodeError} : encode a = .error e ↔ firstExceeded (limits a) = some e := by
  rw [encode, append_eq]
  cases firstExceeded (limits a) with
  | none => simp [bind, Except.bind, pure, Except.pure]
  | some e' => simp [bind, Except.bind]

theorem overflowLaw {fits : α → Prop} (h : ∀ a, Fit (limits a) ↔ fits a) :
    OverflowLaw α limits fits where
  encodes_iff a := encodes_iff.trans (h a)
  encode_error_iff _ _ := encode_error_iff.trans firstExceeded_eq_some

end Spelling

end Laws

theorem Extension.encodes_iff {code : UInt8} {e : Extension} :
    @Encodes Extension (format code) e ↔ Fit e.limits :=
  letI := format code
  Spelling.encodes_iff

theorem Payload.encodes_iff {code : UInt8} {p : Payload} :
    @Encodes Payload (format code) p ↔ Fit p.limits :=
  letI := format code
  Spelling.encodes_iff

/-- The units of eight bytes that a padded header says it has behind its first eight. -/
theorem units_le_iff {size : Nat} (h : 8 ∣ size) : size / 8 - 1 ≤ 255 ↔ size ≤ 2048 := by
  omega

theorem HopByHop.fit_limits {h : HopByHop} : Fit h.limits ↔
    h.size ≤ 2048 ∧ ∀ kind data, .tlv kind data ∈ h.options → data.length ≤ 255 := by
  have hoptions : (∀ o ∈ h.options, Fit o.limits) ↔
      ∀ kind data, .tlv kind data ∈ h.options → data.length ≤ 255 := by
    constructor
    · intro hfit kind data hmem
      simpa [HopOption.limits] using hfit _ hmem
    · intro hdata o ho
      cases o with
      | pad1 => exact fit_nil
      | tlv kind data => simpa [HopOption.limits] using hdata kind data ho
  rw [limits, fit_cons, fit_flatMap, hoptions]
  exact and_congr_left fun _ => units_le_iff h.aligned

structure OverflowLaws : Prop where
  icmpv6Header : OverflowLaw Icmpv6.Header (fun _ => []) fun _ => True
  echo : OverflowLaw Icmpv6.Echo (fun _ => []) fun _ => True
  listener : OverflowLaw Icmpv6.Listener (fun _ => []) fun _ => True
  shortIgmp : OverflowLaw Igmp.Short (fun _ => []) fun _ => True
  udp : OverflowLaw Udp (fun u => [⟨.udpLength, 8 + u.payload.length, 65535⟩])
    fun u => 8 + u.payload.length ≤ 65535
  mldSourceQuery : OverflowLaw Icmpv6.SourceQuery
    (fun q => [⟨.robustness, q.querier.robustness.toNat, 7⟩,
      ⟨.sourceCount .mld, q.querier.sources.length, 65535⟩])
    fun q => q.querier.robustness.toNat ≤ 7 ∧ q.querier.sources.length ≤ 65535
  igmpSourceQuery : OverflowLaw Igmp.SourceQuery
    (fun q => [⟨.robustness, q.querier.robustness.toNat, 7⟩,
      ⟨.sourceCount .igmp, q.querier.sources.length, 65535⟩])
    fun q => q.querier.robustness.toNat ≤ 7 ∧ q.querier.sources.length ≤ 65535
  record : ∀ p, OverflowLaw (GroupRecord p)
    (fun r => [⟨.auxLength p, r.aux.length, 255⟩, ⟨.sourceCount p, r.sources.length, 65535⟩])
    fun r => r.aux.length ≤ 255 ∧ r.sources.length ≤ 65535
  mldReport : OverflowLaw Icmpv6.Report
    (fun r => ⟨.recordCount .mld, r.records.length, 65535⟩ :: r.records.flatMap GroupRecord.limits)
    fun r => r.records.length ≤ 65535 ∧ ∀ record ∈ r.records, Encodes record
  igmpReport : OverflowLaw Igmp.Report
    (fun r => ⟨.recordCount .igmp, r.records.length, 65535⟩ :: r.records.flatMap GroupRecord.limits)
    fun r => r.records.length ≤ 65535 ∧ ∀ record ∈ r.records, Encodes record
  listenerQuery : OverflowLaw Icmpv6.Query Icmpv6.Query.limits fun
    | .v1 _ => True
    | .v2 q => Encodes q
  icmpv6 : OverflowLaw Icmpv6.Message Icmpv6.Message.limits fun
    | .query q => Encodes q
    | .report r => Encodes r
    | .echo _ | .listener _ | .unknown _ _ => True
  igmp : OverflowLaw Igmp.Message Igmp.Message.limits fun
    | .short _ => True
    | .query q => Encodes q
    | .report r => Encodes r
  hopByHop : OverflowLaw HopByHop
    (fun h => ⟨.hopByHopLength, h.size / 8 - 1, 255⟩ :: h.options.flatMap HopOption.limits)
    fun h => h.size ≤ 2048 ∧ ∀ kind data, .tlv kind data ∈ h.options → data.length ≤ 255
  routing : OverflowLaw Routing (fun h => [⟨.routingLength, h.size / 8 - 1, 255⟩]) fun h => h.size ≤ 2048
  fragment : OverflowLaw Fragment (fun h => [⟨.fragmentOffset, h.offset.toNat, 8191⟩])
    fun h => h.offset.toNat ≤ 8191
  extension : ∀ code, @OverflowLaw Extension (Extension.format code) Extension.limits fun
    | .hopByHop h => Encodes h
    | .routing h => Encodes h
    | .fragment h => Encodes h
  payload : ∀ code, @OverflowLaw Payload (Payload.format code) Payload.limits fun
    | .icmpv6 m => Encodes m
    | .udp u => Encodes u
    | .raw _ _ => True
  packet : OverflowLaw Packet
    (fun p => [⟨.ipVersion, p.version.toNat, 15⟩, ⟨.flowLabel, p.flowLabel.toNat, 2 ^ 20 - 1⟩,
      ⟨.payloadLength, p.payloadLength, 65535⟩] ++
        (p.extensions.flatMap Extension.limits ++ p.payload.limits))
    fun p => p.version.toNat ≤ 15 ∧ p.flowLabel.toNat < 2 ^ 20 ∧
      total Extension.size p.extensions + p.payload.size + p.trailer.length ≤ 65535 ∧
      (∀ e ∈ p.extensions, @Encodes Extension (Extension.format e.code) e) ∧
      @Encodes Payload (Payload.format p.payload.code) p.payload

theorem overflowLaws : OverflowLaws where
  icmpv6Header := Spelling.overflowLaw fun _ => iff_true_intro fit_nil
  echo := Spelling.overflowLaw fun _ => iff_true_intro fit_nil
  listener := Spelling.overflowLaw fun _ => iff_true_intro fit_nil
  shortIgmp := Spelling.overflowLaw fun _ => iff_true_intro fit_nil
  udp := Spelling.overflowLaw fun u => by
    change Fit u.limits ↔ _
    simp [Udp.limits, Udp.size]
  mldSourceQuery := Spelling.overflowLaw fun q => by
    change Fit q.querier.limits ↔ _
    simp [Querier.limits]
  igmpSourceQuery := Spelling.overflowLaw fun q => by
    change Fit q.querier.limits ↔ _
    simp [Querier.limits]
  record _ := Spelling.overflowLaw fun r => by
    change Fit r.limits ↔ _
    simp [GroupRecord.limits]
  mldReport := Spelling.overflowLaw fun r => by
    change Fit (GroupRecord.listLimits r.records) ↔ _
    simp only [GroupRecord.listLimits, fit_cons, fit_flatMap, Spelling.encodes_iff]
    rfl
  igmpReport := Spelling.overflowLaw fun r => by
    change Fit (GroupRecord.listLimits r.records) ↔ _
    simp only [GroupRecord.listLimits, fit_cons, fit_flatMap, Spelling.encodes_iff]
    rfl
  listenerQuery := Spelling.overflowLaw fun q => by
    cases q with
    | v1 _ => exact iff_true_intro fit_nil
    | v2 q => exact Spelling.encodes_iff.symm
  icmpv6 := Spelling.overflowLaw fun m => by
    cases m with
    | query q => exact Spelling.encodes_iff.symm
    | report r => exact Spelling.encodes_iff.symm
    | echo _ | listener _ | unknown _ _ => exact iff_true_intro fit_nil
  igmp := Spelling.overflowLaw fun m => by
    cases m with
    | short _ => exact iff_true_intro fit_nil
    | query q => exact Spelling.encodes_iff.symm
    | report r => exact Spelling.encodes_iff.symm
  hopByHop := Spelling.overflowLaw fun _ => HopByHop.fit_limits
  routing := Spelling.overflowLaw fun h => by
    change Fit h.limits ↔ _
    simp only [Routing.limits, fit_cons, fit_nil, and_true]
    exact units_le_iff h.aligned
  fragment := Spelling.overflowLaw fun h => by
    change Fit h.limits ↔ _
    simp [Fragment.limits]
  extension code := by
    let _ := Extension.format code
    refine Spelling.overflowLaw fun e => ?_
    cases e with
    | hopByHop h => exact Spelling.encodes_iff.symm
    | routing h => exact Spelling.encodes_iff.symm
    | fragment h => exact Spelling.encodes_iff.symm
  payload code := by
    let _ := Payload.format code
    refine Spelling.overflowLaw fun p => ?_
    cases p with
    | icmpv6 m => exact Spelling.encodes_iff.symm
    | udp u => exact Spelling.encodes_iff.symm
    | raw _ _ => exact iff_true_intro fit_nil
  packet := Spelling.overflowLaw fun p => by
    change Fit p.limits ↔ _
    simp only [Packet.limits, fit_append, fit_cons, fit_nil, fit_flatMap, and_true, and_assoc,
      Extension.encodes_iff, Payload.encodes_iff, Packet.payloadLength]
    exact and_congr_right fun _ => and_congr_left fun _ => Nat.lt_succ_iff.symm

/-- Encoding fails exactly on overflow, with the first limit that is exceeded and the true value that
exceeds it, and no number is cut down to its place. -/
theorem formats_overflowLaw : OverflowLaws ∧ TrueNumbers := ⟨overflowLaws, trueNumbers⟩

end PacketWatch
