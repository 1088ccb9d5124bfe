import PacketWatch.Proofs.Igmp.Message
import PacketWatch.Proofs.Packet.Canonical

namespace PacketWatch

open Wire

structure EveryMessage (P : (α : Type) → [WireFormat α] → Prop) : Prop where
  icmpv6Header : P Icmpv6.Header
  echo : P Icmpv6.Echo
  listener : P Icmpv6.Listener
  mldSourceQuery : P Icmpv6.SourceQuery
  listenerQuery : P Icmpv6.Query
  mldRecord : P (GroupRecord .mld)
  mldReport : P Icmpv6.Report
  icmpv6 : P Icmpv6.Message
  shortIgmp : P Igmp.Short
  igmpSourceQuery : P Igmp.SourceQuery
  igmpRecord : P (GroupRecord .igmp)
  igmpReport : P Igmp.Report
  igmp : P Igmp.Message
  udp : P Udp
  hopByHop : P HopByHop
  routing : P Routing
  fragment : P Fragment
  packet : P Packet

/-- What holds of a layout because it has a spelling holds of every message. -/
theorem EveryMessage.of_spelling {P : (α : Type) → [WireFormat α] → Prop}
    (h : ∀ (α : Type) [WireFormat α] [Spelling α], P α) : EveryMessage P :=
  ⟨h _, h _, h _, h _, h _, h _, h _, h _, h _, h _, h _, h _, h _, h _, h _, h _, h _, h _⟩

/-! An extension header and a payload do not tell what they are; a code that stands in front of them
does. -/

@[reducible] def Extension.format (code : UInt8) : WireFormat Extension := ⟨size, write, readAs code⟩

instance (code : UInt8) : @Spelling Extension (Extension.format code) :=
  letI := Extension.format code
  { limits := Extension.limits
    bytes := Extension.bytes
    reserved := Extension.reserved
    ReadsBack := fun e _ => code = e.code ∧ e.ReadsBack
    puts_write := Extension.puts_write
    length_bytes := Extension.length_bytes
    clears_bytes := Extension.clears_bytes
    run_read_ok := by
      intro b rest e
      rw [and_assoc]
      exact Extension.run_readAs_ok }

theorem Extension.map_encode {l : List Extension} (h : Fit (l.flatMap limits)) :
    l.map (fun e => @encode Extension (format e.code) e) = (l.map bytes).map .ok := by
  rw [List.map_map]
  refine List.map_congr_left fun e he => ?_
  let _ := format e.code
  exact Spelling.encode_ok_iff.2 ⟨fit_flatMap.1 h e he, rfl⟩

@[reducible] def Payload.format (code : UInt8) : WireFormat Payload := ⟨size, write, readAs code⟩

instance (code : UInt8) : @Spelling Payload (Payload.format code) :=
  letI := Payload.format code
  { limits := Payload.limits
    bytes := Payload.bytes
    reserved := Payload.reserved
    ReadsBack := fun p n => code = p.code ∧ p.ReadsBack n
    puts_write := Payload.puts_write
    length_bytes := Payload.length_bytes
    clears_bytes := Payload.clears_bytes
    run_read_ok := by
      intro b rest p
      rw [and_assoc]
      exact Payload.run_readAs_ok }

theorem Payload.encode_eq {code : UInt8} {p : Payload} (h : Fit p.limits) :
    @encode Payload (format code) p = .ok p.bytes :=
  letI := format code
  Spelling.encode_ok_iff.2 ⟨h, rfl⟩

end PacketWatch
