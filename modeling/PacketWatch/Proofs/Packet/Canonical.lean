import PacketWatch.Proofs.Packet.Chain

namespace PacketWatch

open Wire

def Payload.IsRaw : Payload → Prop
  | raw _ _ => True
  | _ => False

namespace Packet

def limits (p : Packet) : List EncodeError :=
  [⟨.ipVersion, p.version.toNat, 0xf⟩, ⟨.flowLabel, p.flowLabel.toNat, 0xfffff⟩,
    ⟨.payloadLength, p.payloadLength, 0xffff⟩] ++
    (p.extensions.flatMap Extension.limits ++ p.payload.limits)

def firstWord (p : Packet) : Nat :=
  p.version.toNat * 0x10000000 + p.trafficClass.toNat * 0x100000 + p.flowLabel.toNat

def headerBytes (p : Packet) : Bytes :=
  digits 4 p.firstWord ++ (digits 2 p.payloadLength ++ ([p.nextHeader] ++ ([p.hopLimit] ++
    (p.source.bytes ++ p.destination.bytes))))

def bodyBytes (p : Packet) : Bytes := p.extensions.flatMap Extension.bytes ++ p.payload.bytes

def bodyReserved (p : Packet) : Bytes := p.extensions.flatMap Extension.reserved ++ p.payload.reserved

def bytes (p : Packet) : Bytes := p.headerBytes ++ (p.bodyBytes ++ p.trailer)

def reserved (p : Packet) : Bytes := kept headerSize ++ (p.bodyReserved ++ kept p.trailer.length)

/-- Behind a fragment header that starts in the middle of a message stand raw data and nothing
else; everywhere else the payload is one that is read back in front of `n` bytes of trailer. -/
structure BodyReadsBack (extensions : List Extension) (payload : Payload) (n : Nat) : Prop where
  trailing : extensions.any Extension.isTrailingFragment = true → payload.IsRaw ∧ n = 0
  whole : extensions.any Extension.isTrailingFragment = false → payload.ReadsBack n

structure IsCanonical (p : Packet) : Prop where
  version : p.version = 6
  linked : Linked p.nextHeader p.extensions p.payload.code
  length_le : p.extensions.length ≤ maxExtensions
  followed : Followed p.extensions p.payload.code
  options : ∀ h, .hopByHop h ∈ p.extensions → ∀ data, .tlv 0 data ∉ h.options
  body : BodyReadsBack p.extensions p.payload p.trailer.length

variable {p : Packet} {b rest : Bytes}

theorem length_headerBytes (p : Packet) : p.headerBytes.length = headerSize := by
  simp [headerBytes, Address.length_bytes]

theorem length_bodyBytes (p : Packet) : p.bodyBytes.length + p.trailer.length = p.payloadLength := by
  rw [bodyBytes, List.length_append, length_flatMap_bytes, Payload.length_bytes, payloadLength]

theorem length_bytes (p : Packet) : p.bytes.length = p.size := by
  rw [bytes, List.length_append, List.length_append, length_headerBytes, length_bodyBytes, size]

theorem puts_write (p : Packet) : p.write.Puts p.limits p.bytes := by
  rw [write, ← firstWord]
  refine Writer.Puts.of_eq ((Writer.puts_fit _ _ _).bind <| (Writer.puts_fit _ _ _).bind <|
    (Writer.puts_fit _ _ _).bind <| (Writer.puts_word _ _).bind <| (Writer.puts_word _ _).bind <|
    (Writer.puts_u8 _).bind <| (Writer.puts_u8 _).bind <| (Address.puts_write _).bind <|
    (Address.puts_write _).bind <| (Writer.puts_forM Extension.puts_write _).bind <|
    (Payload.puts_write _).bind <| Writer.puts_bytes _) ?_ ?_
  · simp [limits]
  · -- Not by `simp`: to compare what the first word stands for, the kernel counts up to its weights.
    rw [List.nil_append, List.nil_append, List.nil_append, bytes, headerBytes, bodyBytes]
    simp only [List.append_assoc]

theorem clears_bodyBytes (hfit : Fit p.limits) : Clears p.bodyReserved p.bodyBytes p.bodyBytes := by
  rw [limits, fit_append, fit_append] at hfit
  exact (clears_flatMap_bytes hfit.2.1).append (p.payload.clears_bytes hfit.2.2)

theorem clears_bytes (hfit : Fit p.limits) : Clears p.reserved p.bytes p.bytes :=
  (Clears.kept_iff.2 ⟨rfl, p.length_headerBytes⟩).append
    ((clears_bodyBytes hfit).append (Clears.kept_iff.2 ⟨rfl, rfl⟩))

theorem bodyReadsBack_of_trailing {l : List Extension} {payload : Payload} {n : Nat}
    (h : l.any Extension.isTrailingFragment = true) :
    BodyReadsBack l payload n ↔ payload.IsRaw ∧ n = 0 := by
  constructor
  · intro hb
    exact hb.trailing h
  · intro hr
    exact ⟨fun _ => hr, fun hw => absurd (h.symm.trans hw) (by decide)⟩

theorem bodyReadsBack_of_whole {l : List Extension} {payload : Payload} {n : Nat}
    (h : l.any Extension.isTrailingFragment = false) :
    BodyReadsBack l payload n ↔ payload.ReadsBack n := by
  constructor
  · intro hb
    exact hb.whole h
  · intro hr
    exact ⟨fun ht => absurd (h.symm.trans ht) (by decide), fun _ => hr⟩

/-- The payload behind a chain that has been read. -/
theorem run_readPayload_ok {l m : List Extension} {last : UInt8} {payload : Payload} :
    (if l.any Extension.isTrailingFragment = true then
        Reader.rest >>= fun data => pure (l, Payload.raw last data)
      else Payload.readAs last >>= fun payload => pure (l, payload)).run b = .ok ((m, payload), rest) ↔
      m = l ∧ last = payload.code ∧ BodyReadsBack l payload rest.length ∧ Fit payload.limits ∧
        ∃ front, b = front ++ rest ∧ Clears payload.reserved front payload.bytes := by
  by_cases ht : l.any Extension.isTrailingFragment = true
  · rw [if_pos ht, bodyReadsBack_of_trailing ht]
    simp only [Reader.run_bind_ok, Reader.run_rest_ok, Reader.run_pure_ok, Prod.mk.injEq]
    constructor
    · rintro ⟨data, _, ⟨rfl, rfl⟩, ⟨rfl, rfl⟩, rfl⟩
      exact ⟨rfl, rfl, ⟨trivial, rfl⟩, fit_nil, data, (List.append_nil data).symm,
        Clears.kept_iff.2 ⟨rfl, rfl⟩⟩
    · rintro ⟨rfl, rfl, ⟨hraw, hrest⟩, -, front, rfl, hc⟩
      obtain rfl := List.length_eq_zero_iff.1 hrest
      cases payload with
      | raw code data =>
          obtain ⟨rfl, -⟩ := Clears.kept_iff.1 hc
          exact ⟨front, [], ⟨(List.append_nil front).symm, rfl⟩, ⟨rfl, rfl⟩, rfl⟩
      | icmpv6 _ => exact hraw.elim
      | udp _ => exact hraw.elim
  · rw [if_neg ht, bodyReadsBack_of_whole (Bool.not_eq_true _ ▸ ht)]
    simp only [Reader.run_bind_ok, Payload.run_readAs_ok, Reader.run_pure_ok, Prod.mk.injEq]
    constructor
    · rintro ⟨_, _, hp, ⟨rfl, rfl⟩, rfl⟩
      exact ⟨rfl, hp⟩
    · rintro ⟨rfl, hp⟩
      exact ⟨payload, rest, hp, ⟨rfl, rfl⟩, rfl⟩

theorem run_readBody_ok {code : UInt8} {l : List Extension} {payload : Payload} :
    (readBody code).run b = .ok ((l, payload), rest) ↔
      Linked code l payload.code ∧ l.length ≤ maxExtensions ∧ Followed l payload.code ∧
        (∀ e ∈ l, e.ReadsBack) ∧ BodyReadsBack l payload rest.length ∧
        Fit (l.flatMap Extension.limits ++ payload.limits) ∧ ∃ front, b = front ++ rest ∧
          Clears (l.flatMap Extension.reserved ++ payload.reserved) front
            (l.flatMap Extension.bytes ++ payload.bytes) := by
  rw [readBody, Reader.run_bind_ok]
  constructor
  · rintro ⟨⟨l, last⟩, _, hl, hr⟩
    obtain ⟨hlink, hlen, hfollow, hbacks, hfits, front, rfl, hc⟩ := run_readChain_ok.1 hl
    obtain ⟨rfl, rfl, hbody, hfit, back, rfl, hp⟩ := run_readPayload_ok.1 hr
    exact ⟨hlink, hlen, hfollow, hbacks, hbody, fit_append.2 ⟨hfits, hfit⟩, front ++ back, by simp,
      hc.append hp⟩
  · rintro ⟨hlink, hlen, hfollow, hbacks, hbody, hfits, front, rfl, hc⟩
    rw [fit_append] at hfits
    rw [Clears.append_iff (clears_flatMap_bytes hfits.1).1] at hc
    obtain ⟨front, back, rfl, hc, hp⟩ := hc
    refine ⟨(l, payload.code), back ++ rest, ?_, ?_⟩
    · exact run_readChain_ok.2 ⟨hlink, hlen, hfollow, hbacks, hfits.1, front, by simp, hc⟩
    · exact run_readPayload_ok.2 ⟨rfl, rfl, hbody, hfits.2, back, rfl, hp⟩

/-- Nothing in the base header is reserved. -/
theorem eq_headerBytes_of_clears {front : Bytes} (h : Clears p.reserved front p.bytes) :
    ∃ back, front = p.headerBytes ++ back ∧ Clears (p.bodyReserved ++ kept p.trailer.length) back
      (p.bodyBytes ++ p.trailer) := by
  have hkept : (kept headerSize).length = p.headerBytes.length := by
    rw [length_headerBytes, List.length_replicate]
  rw [reserved, bytes, Clears.append_iff hkept] at h
  obtain ⟨header, back, rfl, hheader, hback⟩ := h
  obtain ⟨rfl, -⟩ := Clears.kept_iff.1 hheader
  exact ⟨back, rfl, hback⟩

theorem version_eq_six_iff {first : Nat} (h : first < 256 ^ 4) :
    UInt8.ofNat ((UInt8.ofNat (first / 256 ^ 3)).toNat / 16) = 6 ↔ first / 0x10000000 = 6 := by
  rw [← UInt8.toNat_inj, UInt8.toNat_ofNat', UInt8.toNat_ofNat']
  have h6 : (6 : UInt8).toNat = 6 := rfl
  rw [h6]
  omega

/-- The first four bytes of a packet of version 6 begin with that version. -/
theorem firstWord_of_six (hversion : p.version = 6) (hflow : p.flowLabel.toNat ≤ 0xfffff) :
    p.firstWord < 256 ^ 4 ∧ UInt8.ofNat ((UInt8.ofNat (p.firstWord / 256 ^ 3)).toNat / 16) = 6 := by
  have hclass := p.trafficClass.toNat_lt
  have hword : p.firstWord = 0x60000000 + p.trafficClass.toNat * 0x100000 + p.flowLabel.toNat := by
    rw [firstWord, hversion]
    rfl
  have hfirst : p.firstWord < 256 ^ 4 := by omega
  refine ⟨hfirst, ?_⟩
  rw [version_eq_six_iff hfirst]
  omega

theorem readsBack_of_options {l : List Extension} :
    (∀ e ∈ l, e.ReadsBack) ↔ ∀ h, .hopByHop h ∈ l → ∀ data, .tlv 0 data ∉ h.options := by
  constructor
  · intro hl h hmem
    exact HopByHop.readsBack_iff.1 (hl _ hmem)
  · intro hl e he
    cases e with
    | hopByHop h => exact HopByHop.readsBack_iff.2 (hl h he)
    | routing _ => trivial
    | fragment _ => trivial

theorem run_read_ok : read.run b = .ok (p, rest) ↔
    p.IsCanonical ∧ Fit p.limits ∧ ∃ front, b = front ++ rest ∧ Clears p.reserved front p.bytes := by
  rw [read]
  simp only [Reader.run_bind_ok, Reader.run_get_ok, Reader.run_need_ok, Reader.run_peekByte_ok,
    Reader.run_unless_ok, Reader.run_word_ok, Reader.run_u8_ok, Address.run_read_ok,
    Reader.run_declare_ok, Reader.run_take_ok, Reader.run_lift_ok, Reader.run_pure_ok]
  constructor
  · rintro ⟨_, _, ⟨rfl, rfl⟩, _, _, ⟨-, rfl⟩, x, _, ⟨⟨left, hx⟩, rfl⟩, hversion, first, _, ⟨hfirst, rfl⟩,
      length, _, ⟨hlength, rfl⟩, nextHeader, _, rfl, hopLimit, _, rfl, source, _, rfl, destination, _, rfl,
      _, _, ⟨-, rfl⟩, body, _, ⟨hbody, rfl⟩, ⟨⟨extensions, payload⟩, trailer⟩, _, ⟨hread, rfl⟩, hp, rfl⟩
    obtain ⟨hlink, hle, hfollow, hbacks, hback, hfit, front, rfl, hc⟩ := run_readBody_ok.1 hread
    rw [Decidable.not_not] at hversion
    have hsix : first / 0x10000000 = 6 := by
      have hd : digits 4 first = _ := digits_succ 3 first
      rw [hd] at hx
      rw [← version_eq_six_iff hfirst, (List.cons.inj hx).1, hversion]
    have hlen : p.payloadLength = length := by
      rw [hp, payloadLength, ← hbody, List.length_append, ← hc.length_eq, List.length_append,
        length_flatMap_bytes, Payload.length_bytes]
    have hword : p.firstWord = first := by
      rw [hp, firstWord, hversion, UInt8.toNat_ofNat', UInt32.toNat_ofNat']
      have h6 : (6 : UInt8).toNat = 6 := rfl
      rw [h6]
      omega
    have hcanonical : p.IsCanonical := by
      rw [hp]
      exact ⟨hversion, hlink, hle, hfollow, readsBack_of_options.1 hbacks, hback⟩
    have hfits : Fit p.limits := by
      simp only [limits, fit_append, fit_cons, fit_nil, and_true]
      refine ⟨⟨?_, ?_, ?_⟩, ?_⟩
      · rw [hcanonical.version]; decide
      · rw [hp, UInt32.toNat_ofNat']; omega
      · rw [hlen]; omega
      · rw [hp]
        exact fit_append.1 hfit
    refine ⟨hcanonical, hfits, p.headerBytes ++ (front ++ trailer), ?_, ?_⟩
    · rw [headerBytes, hword, hlen, hp]
      simp
    · rw [reserved, bytes]
      refine (Clears.kept_iff.2 ⟨rfl, p.length_headerBytes⟩).append ?_
      rw [hp]
      exact hc.append (Clears.kept_iff.2 ⟨rfl, rfl⟩)
  · rintro ⟨hcanonical, hfit, _, rfl, hc⟩
    obtain ⟨_, rfl, hbody⟩ := eq_headerBytes_of_clears hc
    rw [Clears.append_iff (clears_bodyBytes hfit).1] at hbody
    obtain ⟨front, _, rfl, hbody, htrailer⟩ := hbody
    obtain ⟨rfl, -⟩ := Clears.kept_iff.1 htrailer
    have hcovered : (front ++ p.trailer).length = p.payloadLength := by
      rw [List.length_append, ← hbody.length_eq, length_bodyBytes]
    have hlen : (p.headerBytes ++ (front ++ p.trailer) ++ rest).length =
        headerSize + p.payloadLength + rest.length := by
      rw [List.length_append, List.length_append, length_headerBytes, hcovered]
    simp only [limits, fit_append, fit_cons, fit_nil, and_true] at hfit
    obtain ⟨⟨-, hflow, hlength⟩, hfits⟩ := hfit
    have hread : (readBody p.nextHeader).run (front ++ p.trailer) =
        .ok ((p.extensions, p.payload), p.trailer) :=
      run_readBody_ok.2 ⟨hcanonical.linked, hcanonical.length_le, hcanonical.followed,
        readsBack_of_options.2 hcanonical.options, hcanonical.body, fit_append.2 hfits, front, rfl, hbody⟩
    have hword : p.firstWord = 0x60000000 + p.trafficClass.toNat * 0x100000 + p.flowLabel.toNat := by
      rw [firstWord, hcanonical.version]
      rfl
    have hclass := p.trafficClass.toNat_lt
    have hb : p.headerBytes ++ (front ++ p.trailer) ++ rest = digits 4 p.firstWord ++
        (digits 2 p.payloadLength ++ (p.nextHeader :: p.hopLimit :: (p.source.bytes ++
          (p.destination.bytes ++ (front ++ p.trailer ++ rest))))) := by
      rw [headerBytes]
      simp
    obtain ⟨hfirst, hversion⟩ := firstWord_of_six hcanonical.version hflow
    refine ⟨_, _, ⟨rfl, rfl⟩, (), _, ⟨by omega, rfl⟩, UInt8.ofNat (p.firstWord / 256 ^ 3), _,
      ⟨⟨_, by rw [hb, digits_succ 3, List.cons_append]⟩, rfl⟩, not_not_intro hversion, p.firstWord, _,
      ⟨hfirst, hb⟩, p.payloadLength, _, ⟨by omega, rfl⟩, p.nextHeader, _, rfl, p.hopLimit, _, rfl, p.source, _,
      rfl, p.destination, _, rfl, (), _, ⟨by omega, rfl⟩, front ++ p.trailer, rest, ⟨hcovered, rfl⟩,
      ((p.extensions, p.payload), p.trailer), _, ⟨hread, rfl⟩, ?_, rfl⟩
    have hclass' : UInt8.ofNat (p.firstWord / 0x100000) = p.trafficClass := by
      apply UInt8.toNat_inj.1
      rw [UInt8.toNat_ofNat']; omega
    have hflow' : UInt32.ofNat (p.firstWord % 0x100000) = p.flowLabel := by
      apply UInt32.toNat_inj.1
      rw [UInt32.toNat_ofNat']; omega
    rw [hversion, hclass', hflow', ← hcanonical.version]

instance : Spelling Packet where
  limits
  bytes
  reserved
  ReadsBack p _ := p.IsCanonical
  puts_write
  length_bytes
  clears_bytes _ := clears_bytes
  run_read_ok

end Packet

end PacketWatch
