import PacketWatch.Proofs.Formats.Messages
import PacketWatch.Proofs.Framing.FrameSize
import PacketWatch.Proofs.Wire.Bounds

namespace PacketWatch

open Wire

variable {p : Protocol}

theorem Udp.within_read (b : Bytes) : read.Within b fun _ _ => True := by
  simp [read]
  omega

/-- The list of sources was checked against all that stands behind the beginning of the query. -/
theorem Querier.within_read {older : Nat} {start b : Bytes} (hstart : start.length = older + b.length)
    (h : 4 ≤ b.length) : (read p older start).Within b fun _ _ => True := by
  simp only [read, bind_pure_comp, Reader.within_bind, Reader.within_map, Reader.within_word,
    Reader.within_u8, Reader.within_declare, Address.within_times_read, and_true, List.length_drop]
  refine ⟨by omega, by omega, by omega, fun hdeclared => ?_⟩
  omega

namespace GroupRecord

theorem within_read (b : Bytes) : (read (p := p)).Within b fun _ _ => True := by
  simp only [read, bind_pure_comp, Reader.within_bind, Reader.within_map, Reader.within_get,
    Reader.within_need, Reader.within_word, Reader.within_u8, Reader.within_declare, Address.within_read,
    Address.within_times_read, Reader.within_times_u32, and_true, List.length_drop]
  intro h
  have hfour : 4 ≤ b.length := Nat.le_trans (by simp) h
  refine ⟨by omega, by omega, by omega, fun hdeclared => ?_⟩
  rw [minSize] at hdeclared
  refine ⟨by omega, by omega, by omega⟩

/-- Each record is checked on its own, against what the records before it left. -/
theorem within_readList {start b : Bytes} (h : 4 ≤ b.length) :
    (readList p start).Within b fun _ _ => True := by
  simp only [readList, Reader.within_bind, Reader.within_skip, Reader.within_word,
    Reader.within_declare, Reader.within_times within_read, implies_true, and_true, List.length_drop]
  exact ⟨by omega, by omega⟩

end GroupRecord

namespace Icmpv6

theorem Header.within_read {b : Bytes} {Q : Bytes → Prop} :
    read.Within b (fun _ rest => Q rest) ↔ (4 ≤ b.length → Q (b.drop 4)) := by
  simp only [read, bind_pure_comp, Reader.within_bind, Reader.within_map, Reader.within_need,
    Reader.within_u8, Reader.within_u16, List.length_drop, List.drop_drop]
  exact ⟨fun h hb => (h hb).2.2.2, fun h hb => ⟨by omega, by omega, by omega, h hb⟩⟩

theorem Echo.within_read (b : Bytes) : read.Within b fun _ _ => True := by
  simp [read, Header.within_read]
  omega

theorem Listener.within_read {b : Bytes} {Q : Bytes → Prop} :
    read.Within b (fun _ rest => Q rest) ↔ (length ≤ b.length → Q (b.drop length)) := by
  simp only [read, length, bind_pure_comp, Reader.within_bind, Reader.within_map, Reader.within_need,
    Header.within_read, Reader.within_u16, Reader.within_skip, Address.within_read, List.length_drop,
    List.drop_drop]
  exact ⟨fun h hb => (h hb (by omega)).2.2.2, fun h hb _ => ⟨by omega, by omega, by omega, h hb⟩⟩

theorem SourceQuery.within_read (b : Bytes) : read.Within b fun _ _ => True := by
  simp only [read, minSize, Listener.length, bind_pure_comp, Reader.within_bind, Reader.within_map,
    Reader.within_get, Reader.within_need, Listener.within_read]
  intro h h'
  exact Querier.within_read (by simp; omega) (by simp; omega)

theorem Query.within_read (b : Bytes) : read.Within b fun _ _ => True := by
  simp [read, SourceQuery.within_read, Listener.within_read]

theorem Report.within_read (b : Bytes) : read.Within b fun _ _ => True := by
  simp only [read, bind_pure_comp, Reader.within_bind, Reader.within_map, Reader.within_get,
    Reader.within_need, Header.within_read]
  intro h h'
  exact GroupRecord.within_readList (by simp; omega)

theorem Message.within_read (b : Bytes) : read.Within b fun _ _ => True := by
  simp [read, Echo.within_read, Query.within_read, Listener.within_read, Report.within_read,
    Header.within_read]
  omega

end Icmpv6

namespace Igmp

theorem Short.within_read {b : Bytes} {Q : Bytes → Prop} :
    read.Within b (fun _ rest => Q rest) ↔ (length ≤ b.length → Q (b.drop length)) := by
  simp only [read, length, bind_pure_comp, Reader.within_bind, Reader.within_map, Reader.within_need,
    Reader.within_u8, Reader.within_u16, Address.within_read, List.length_drop, List.drop_drop]
  exact ⟨fun h hb => (h hb).2.2.2.2, fun h hb => ⟨by omega, by omega, by omega, by omega, h hb⟩⟩

theorem SourceQuery.within_read (b : Bytes) : read.Within b fun _ _ => True := by
  simp only [read, Short.length, bind_pure_comp, Reader.within_bind, Reader.within_map,
    Reader.within_get, Reader.within_need, Short.within_read]
  intro h h'
  exact Querier.within_read (by simp; omega) (by simp; omega)

theorem Report.within_read (b : Bytes) : read.Within b fun _ _ => True := by
  simp only [read, bind_pure_comp, Reader.within_bind, Reader.within_map, Reader.within_get,
    Reader.within_need, Reader.within_u8, Reader.within_ite, Reader.within_throw, Reader.within_skip,
    Reader.within_u16, List.length_drop, List.drop_drop]
  intro h
  refine ⟨by omega, fun _ => DecodeError.noConfusion, fun _ => ⟨by omega, by omega, ?_⟩⟩
  exact GroupRecord.within_readList (by simp; omega)

theorem Message.within_read (b : Bytes) : read.Within b fun _ _ => True := by
  simp [read, SourceQuery.within_read, Short.within_read, Report.within_read]

end Igmp

/-- As long as the bytes that are left reach to the end of the header. -/
theorem HopOption.within_readUntil {length : Nat} (offset : Nat) (seen : List HopOption) (b : Bytes)
    (h : length ≤ offset + b.length) : (readUntil length offset seen).Within b fun _ _ => True := by
  induction hleft : length - offset using Nat.strongRecOn generalizing offset seen b with
  | _ left ih =>
    subst hleft
    rw [readUntil]
    split
    · next hlt =>
      simp only [Reader.within_bind, Reader.within_u8, Reader.within_ite, Reader.within_minus,
        Reader.within_throw, Reader.within_word, Reader.within_take, List.length_drop, List.drop_drop]
      refine ⟨by omega, fun _ => ih _ (by omega) _ _ _ (by simp; omega) rfl, fun _ => ?_⟩
      refine ⟨by omega, fun _ => DecodeError.noConfusion, fun hleft => ⟨by omega, fun _ => DecodeError.noConfusion, fun hfits => ?_⟩⟩
      refine ⟨by omega, ?_⟩
      exact ih _ (by omega) _ _ _ (by simp; omega) rfl
    · exact Reader.within_pure.2 trivial

theorem HopByHop.within_read (b : Bytes) : read.Within b fun _ _ => True := by
  simp only [read, bind_pure_comp, Reader.within_bind, Reader.within_map, Reader.within_get,
    Reader.within_need, Reader.within_u8, Reader.within_word, Reader.within_declare, List.length_drop]
  intro h
  refine ⟨by omega, by omega, fun h' => ?_⟩
  exact HopOption.within_readUntil _ _ _ (by simp only [List.length_drop]; omega)

theorem Routing.within_read (b : Bytes) : read.Within b fun _ _ => True := by
  simp [read]
  omega

theorem Fragment.within_read (b : Bytes) : read.Within b fun _ _ => True := by
  simp [read, length]
  omega

theorem Extension.within_readAs (code : UInt8) (b : Bytes) : (readAs code).Within b fun _ _ => True := by
  simp [readAs, HopByHop.within_read, Routing.within_read, Fragment.within_read]

theorem Payload.within_readAs (code : UInt8) (b : Bytes) : (readAs code).Within b fun _ _ => True := by
  simp [readAs, Icmpv6.Message.within_read, Udp.within_read]

namespace Packet

theorem within_readChain (allowed : Nat) (code : UInt8) (b : Bytes) :
    (readChain allowed code).Within b fun _ _ => True := by
  induction allowed generalizing code b with
  | zero => simp [readChain]
  | succ allowed ih =>
      rw [readChain]
      simp only [Reader.within_ite, Reader.within_bind, Reader.within_pure]
      refine ⟨fun _ => (Extension.within_readAs code b).imp fun e rest _ _ => ?_, fun _ => trivial⟩
      exact ⟨fun _ => trivial, fun _ => ih _ _⟩

theorem within_readBody (code : UInt8) (b : Bytes) : (readBody code).Within b fun _ _ => True := by
  rw [readBody, Reader.within_bind]
  refine (within_readChain maxExtensions code b).imp fun chain rest _ _ => ?_
  simp [Payload.within_readAs]

theorem within_read (b : Bytes) : read.Within b fun _ _ => True := by
  simp [read, headerSize, within_readBody]
  omega

theorem peekPayloadLength_ne_pastEnd (b : Bytes) : peekPayloadLength b ≠ .error .pastEnd := by
  rw [peekPayloadLength, Reader.run'_ne_pastEnd]
  simp
  omega

end Packet

theorem frameSize?_ne_pastEnd (b : Bytes) : frameSize? b ≠ .error .pastEnd := by
  cases b with
  | nil =>
      intro h
      cases h
  | cons first rest =>
      rw [frameSize?_cons]
      split
      · simp
      · split <;> simp

theorem parseFrame_ne_pastEnd (b : Bytes) : parseFrame b ≠ .error .pastEnd := by
  have hdecode : InBounds b (decode Packet b) := Spelling.inBounds_decode (Packet.within_read b)
  rw [parseFrame]
  cases hd : decode Packet b with
  | ok p =>
      simp only [bind, Except.bind]
      split
      · exact fun h => DecodeError.noConfusion (Except.error.inj h)
      · intro h
        cases h
  | error e =>
      rw [hd] at hdecode
      exact fun h => hdecode (Except.error.inj h)

/-- No decoder looks at a byte behind the end of its input or takes a length below zero: on whatever
bytes, it gives a value and no more bytes than there are, or a reason to reject them. -/
theorem decoders_inBounds (b : Bytes) :
    EveryMessage (fun α _ => InBounds b (decode α b)) ∧
      (∀ code, InBounds b (@decode Extension (Extension.format code) b)) ∧
      (∀ code, InBounds b (@decode Payload (Payload.format code) b)) ∧
      Packet.peekPayloadLength b ≠ .error .pastEnd ∧ frameSize? b ≠ .error .pastEnd ∧
      parseFrame b ≠ .error .pastEnd := by
  refine ⟨?_, fun code => ?_, fun code => ?_, Packet.peekPayloadLength_ne_pastEnd b,
    frameSize?_ne_pastEnd b, parseFrame_ne_pastEnd b⟩
  · exact {
      icmpv6Header := Spelling.inBounds_decode (Icmpv6.Header.within_read.2 fun _ => trivial)
      echo := Spelling.inBounds_decode (Icmpv6.Echo.within_read b)
      listener := Spelling.inBounds_decode (Icmpv6.Listener.within_read.2 fun _ => trivial)
      mldSourceQuery := Spelling.inBounds_decode (Icmpv6.SourceQuery.within_read b)
      listenerQuery := Spelling.inBounds_decode (Icmpv6.Query.within_read b)
      mldRecord := Spelling.inBounds_decode (GroupRecord.within_read b)
      mldReport := Spelling.inBounds_decode (Icmpv6.Report.within_read b)
      icmpv6 := Spelling.inBounds_decode (Icmpv6.Message.within_read b)
      shortIgmp := Spelling.inBounds_decode (Igmp.Short.within_read.2 fun _ => trivial)
      igmpSourceQuery := Spelling.inBounds_decode (Igmp.SourceQuery.within_read b)
      igmpRecord := Spelling.inBounds_decode (GroupRecord.within_read b)
      igmpReport := Spelling.inBounds_decode (Igmp.Report.within_read b)
      igmp := Spelling.inBounds_decode (Igmp.Message.within_read b)
      udp := Spelling.inBounds_decode (Udp.within_read b)
      hopByHop := Spelling.inBounds_decode (HopByHop.within_read b)
      routing := Spelling.inBounds_decode (Routing.within_read b)
      fragment := Spelling.inBounds_decode (Fragment.within_read b)
      packet := Spelling.inBounds_decode (Packet.within_read b) }
  · let _ := Extension.format code
    exact Spelling.inBounds_decode (Extension.within_readAs code b)
  · let _ := Payload.format code
    exact Spelling.inBounds_decode (Payload.within_readAs code b)

end PacketWatch
