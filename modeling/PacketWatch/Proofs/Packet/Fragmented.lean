import PacketWatch.Proofs.Formats.Prefix
import PacketWatch.Proofs.Framing.Cut
import PacketWatch.Proofs.Packet.Walk

namespace PacketWatch

open Wire

section Beginnings

variable {b : Bytes} {k : Nat}

/-- The length field of a datagram is among the first eight bytes. -/
theorem Udp.run_read_take {u : Udp} (hfit : Fit u.limits) (hk : 8 ≤ k) (hlt : k < u.size) :
    Udp.read.run (u.bytes.take k) = .error (.inconsistentLength .udpLength u.size k) := by
  simp only [limits, fit_cons, fit_nil, and_true] at hfit
  have hlen : (u.bytes.take k).length = k := List.length_take_of_le (by rw [length_bytes]; omega)
  have hb : u.bytes = (digits 2 u.sourcePort.toNat ++ digits 2 u.destinationPort.toNat ++ digits 2 u.size ++
      digits 2 u.checksum.toNat) ++ u.payload := by
    simp [bytes]
  have hsplit : u.bytes.take k = digits 2 u.sourcePort.toNat ++ (digits 2 u.destinationPort.toNat ++
      (digits 2 u.size ++ (digits 2 u.checksum.toNat ++ u.payload.take (k - 8)))) := by
    rw [hb, List.take_append, List.take_of_length_le (by simpa using hk)]
    simp
  have hwhole : ¬ u.size < 8 := by omega
  rw [hsplit] at hlen ⊢
  rw [read, Reader.run_get_bind, Reader.run_need_bind_of_le (by omega),
    Reader.run_bind_of_ok (Reader.run_u16_ok.2 rfl), Reader.run_bind_of_ok (Reader.run_u16_ok.2 rfl),
    Reader.run_bind_of_ok (Reader.run_word_ok.2 ⟨by omega, rfl⟩),
    Reader.run_bind_of_ok (Reader.run_u16_ok.2 rfl), if_neg hwhole,
    Reader.run_bind_of_error (Reader.run_declare_of_lt (by omega)), hlen]

theorem Icmpv6.Message.run_read_report (hb : 3 ≤ b.length) : read.run (Report.kind :: b) =
    (Report.read >>= fun r => pure (report r)).run (Report.kind :: b) := by
  have hpeek : Reader.peekByte.run (Report.kind :: b) = .ok (Report.kind, Report.kind :: b) :=
    Reader.run_peekByte_ok.2 ⟨⟨b, rfl⟩, rfl⟩
  rw [read, Reader.run_need_bind_of_le (Nat.succ_le_succ hb), Reader.run_bind_of_ok hpeek,
    if_neg (by decide), if_neg (by decide), if_neg (by decide), if_pos rfl]

end Beginnings

namespace Payload

def IsSized : Payload → Prop
  | udp _ => True
  | icmpv6 (.report m) => m.header.kind = Icmpv6.Report.kind
  | _ => False

variable {payload : Payload} {k : Nat}

/-- A message that says how long it is is missed when the end of it is missing. -/
theorem IsSized.exists_error_of_take (h : payload.IsSized) (hfit : Fit payload.limits) (hk : 8 ≤ k)
    (hlt : k < payload.size) : ∃ e, (readAs payload.code).run (payload.bytes.take k) = .error e ∧
      ∀ u, payload = udp u → e = .inconsistentLength .udpLength u.size k := by
  match payload, h with
  | udp u, _ =>
      refine ⟨_, ?_, fun v hv => by cases hv; rfl⟩
      rw [code, readAs, if_neg (by decide), if_pos rfl]
      exact Reader.run_bind_of_error (Udp.run_read_take hfit hk hlt)
  | icmpv6 (.report m), hkind =>
      have hw : encode m = .ok (bytes (icmpv6 (.report m))) := Spelling.encode_ok_iff.2 ⟨hfit, rfl⟩
      have hlen : k < (bytes (icmpv6 (.report m))).length := by rwa [length_bytes]
      obtain ⟨e, he⟩ := Spelling.exists_error_of_take (fun _ _ => trivial) hw hlen
      obtain ⟨back, hback⟩ : ∃ back, (bytes (icmpv6 (.report m))).take k = Icmpv6.Report.kind :: back := by
        obtain ⟨j, rfl⟩ := Nat.exists_eq_add_of_le' hk
        have hhead : m.header.kind = Icmpv6.Report.kind := hkind
        rw [← hhead]
        exact ⟨_, rfl⟩
      have hbackLen : 3 ≤ back.length := by
        have hl := congrArg List.length hback
        rw [List.length_take_of_le (Nat.le_of_lt hlen), List.length_cons] at hl
        omega
      rw [hback] at he ⊢
      refine ⟨e, ?_, fun u hu => by cases hu⟩
      have hread : Icmpv6.Message.read.run (Icmpv6.Report.kind :: back) = .error e := by
        rw [Icmpv6.Message.run_read_report hbackLen]
        exact Reader.run_bind_of_error (Spelling.decode_error_iff.1 he)
      rw [code, readAs, if_pos rfl]
      exact Reader.run_bind_of_error hread

end Payload

namespace Packet

def carrying (base : Packet) (f : Fragment) (piece : Bytes) : Packet :=
  { base with
    version := 6
    nextHeader := HeaderCode.fragment
    extensions := [.fragment f]
    payload := .raw f.nextHeader piece
    trailer := [] }

variable {base p : Packet} {f : Fragment} {piece w : Bytes} {code : UInt8}

theorem run_readChain_fragment (hfit : Fit f.limits) :
    (readChain maxExtensions HeaderCode.fragment).run (f.bytes ++ piece) =
      .ok (([.fragment f], f.nextHeader), piece) := by
  have hread : (Extension.readAs HeaderCode.fragment).run (f.bytes ++ piece) = .ok (.fragment f, piece) :=
    Extension.run_readAs_ok.2 ⟨rfl, trivial, hfit, f.bytes, rfl, f.clears_bytes hfit⟩
  exact (run_readChain_of_named rfl).2 ⟨.fragment f, piece, [], hread, rfl, .inl ⟨rfl, rfl, rfl, rfl⟩⟩

/-- What stands behind a fragment header that is not a trailing one is read as a whole message. -/
theorem run_readBody_fragment_error {e : DecodeError} (hfit : Fit f.limits) (hf : f.isTrailing = false)
    (he : (Payload.readAs f.nextHeader).run piece = .error e) :
    (readBody HeaderCode.fragment).run (f.bytes ++ piece) = .error e := by
  refine run_readBody_error.2 (.inr ⟨_, _, _, run_readChain_fragment hfit, ?_, he⟩)
  simp [Extension.isTrailingFragment, hf]

theorem fit_carrying_iff : Fit (base.carrying f piece).limits ↔
    base.flowLabel.toNat ≤ 0xfffff ∧ Fragment.length + piece.length ≤ 0xffff ∧ Fit f.limits := by
  have hsix : (base.carrying f piece).version.toNat ≤ 0xf := Nat.le_of_ble_eq_true rfl
  have hflow : (base.carrying f piece).flowLabel = base.flowLabel := rfl
  have hsize : (base.carrying f piece).payloadLength = Fragment.length + piece.length := rfl
  have hlimits : (base.carrying f piece).extensions.flatMap Extension.limits = f.limits :=
    List.append_nil _
  have hraw : (base.carrying f piece).payload.limits = [] := rfl
  simp only [limits, fit_append, fit_cons, fit_nil, and_true, hsix, hflow, hsize, hlimits, hraw, true_and,
    and_assoc]

theorem encode_of_fit (hfit : Fit p.limits) : encode p = .ok p.bytes := Spelling.encode_ok_iff.2 ⟨hfit, rfl⟩

theorem decode_carrying_of_error {e : DecodeError} (hfit : Fit (base.carrying f piece).limits)
    (hf : f.isTrailing = false) (he : (Payload.readAs f.nextHeader).run piece = .error e) :
    decode Packet (base.carrying f piece).bytes = .error e := by
  have hbody : (base.carrying f piece).bodyBytes ++ (base.carrying f piece).trailer = f.bytes ++ piece := by
    simp [bodyBytes, carrying, Extension.bytes, Payload.bytes]
  rw [decode_error_iff_of_encode (encode_of_fit hfit) rfl, hbody]
  exact run_readBody_fragment_error (fit_carrying_iff.1 hfit).2.2 hf he

/-- Behind a trailing fragment header any piece is accepted. -/
theorem isCanonical_carrying (hf : f.isTrailing = true) : (base.carrying f piece).IsCanonical where
  version := rfl
  linked := ⟨rfl, rfl⟩
  length_le := Nat.le_add_left 1 15
  followed := followed_cons.2 (.inl ⟨rfl, rfl⟩)
  options h hmem := by simp [carrying] at hmem
  body := by
    have hany : (base.carrying f piece).extensions.any Extension.isTrailingFragment = true := by
      simp [carrying, Extension.isTrailingFragment, hf]
    exact (bodyReadsBack_of_trailing hany).2 ⟨trivial, rfl⟩

theorem cut_of_decode_error {e : DecodeError} {max : Nat} (hw : encode p = .ok w) (hversion : p.version = 6)
    (hd : decode Packet w = .error e) (hmax : w.length ≤ max) (s : Bytes) :
    cut max (w ++ s) = ([], .fault (.decode e)) := by
  have hlen : w.length = p.size := Spelling.length_of_encode hw
  have hs : frameSize? (w ++ s) = .ok (some w.length) := by
    rw [hlen]
    exact frameSize?_of_encode hw hversion s
  have hle : w.length ≤ (w ++ s).length := by simp
  have hparse : parseFrame ((w ++ s).take w.length) = .error e := by
    rw [parseFrame_take hs hle, List.take_left, hd]
    rfl
  rw [cut_of_frameSize hs, if_neg (Nat.not_lt.2 hmax), if_neg (Nat.not_lt.2 hle), hparse]

/-- Of the two packets that a message that says how long it is is cut into, the first is rejected, since
it is read as the whole message, and with it the stream it comes in. The second is accepted as it is. -/
theorem fragments_of_sized (base : Packet) {payload : Payload} {c : Nat} (hsized : payload.IsSized)
    (hw : @encode Payload (Payload.format payload.code) payload = .ok w) (hdvd : 8 ∣ c) (hc : 8 ≤ c)
    (hlt : c < w.length) (hflow : base.flowLabel.toNat ≤ 0xfffff) (hfirst : 8 + c ≤ 0xffff)
    (hsecond : 8 + (w.length - c) ≤ 0xffff) (identification : UInt32) :
    ∃ first second e,
      encode (base.carrying ⟨payload.code, 0, true, identification⟩ (w.take c)) = .ok first ∧
      decode Packet first = .error e ∧
      (∀ u, payload = .udp u → e = .inconsistentLength .udpLength u.size c) ∧
      (∀ max, first.length ≤ max → ∀ rest, cut max (first ++ rest) = ([], .fault (.decode e))) ∧
      encode (base.carrying ⟨payload.code, UInt16.ofNat (c / 8), false, identification⟩ (w.drop c)) =
        .ok second ∧
      decode Packet second =
        .ok (base.carrying ⟨payload.code, UInt16.ofNat (c / 8), false, identification⟩ (w.drop c),
          second.length) := by
  let _ := Payload.format payload.code
  obtain ⟨hfit, rfl⟩ := Spelling.encode_ok_iff.1 hw
  have hsize : (Spelling.bytes payload).length = payload.size := payload.length_bytes
  have hoffset : (UInt16.ofNat (c / 8)).toNat = c / 8 := by
    rw [UInt16.toNat_ofNat']; omega
  obtain ⟨e, he, hudp⟩ := hsized.exists_error_of_take hfit hc (hsize ▸ hlt)
  have hfit₁ : Fit (base.carrying ⟨payload.code, 0, true, identification⟩
      ((Spelling.bytes payload).take c)).limits := by
    refine fit_carrying_iff.2 ⟨hflow, ?_, by simp [Fragment.limits]⟩
    rwa [List.length_take_of_le (Nat.le_of_lt hlt)]
  have hfit₂ : Fit (base.carrying ⟨payload.code, UInt16.ofNat (c / 8), false, identification⟩
      ((Spelling.bytes payload).drop c)).limits := by
    refine fit_carrying_iff.2 ⟨hflow, by rwa [List.length_drop], ?_⟩
    simp only [Fragment.limits, fit_cons, fit_nil, and_true, hoffset]
    omega
  have hencode₁ := encode_of_fit hfit₁
  have hencode₂ := encode_of_fit hfit₂
  have hd := decode_carrying_of_error hfit₁ rfl he
  have htrailing : (⟨payload.code, UInt16.ofNat (c / 8), false, identification⟩ : Fragment).isTrailing =
      true := by
    refine bne_iff_ne.2 fun hzero => ?_
    have hz := congrArg UInt16.toNat hzero
    rw [hoffset] at hz
    have : (0 : UInt16).toNat = 0 := rfl
    omega
  refine ⟨_, _, e, hencode₁, hd, hudp, fun max hmax => cut_of_decode_error hencode₁ rfl hd hmax, hencode₂, ?_⟩
  rw [Spelling.length_of_encode hencode₂]
  exact (Spelling.decode_of_encode hencode₂).2 (isCanonical_carrying htrailing)

theorem fragments_of_sized_report :
    let base := build default default 64 [] (.raw 59 [])
    let m : Payload := .icmpv6 (.report (.ofRecords [{ kind := 4, group := default, sources := [] }]))
    ∃ w first second e, @encode Payload (Payload.format m.code) m = .ok w ∧
      encode (base.carrying ⟨58, 0, true, 7⟩ (w.take 16)) = .ok first ∧ decode Packet first = .error e ∧
      cut 65575 first = ([], .fault (.decode e)) ∧
      encode (base.carrying ⟨58, 2, false, 7⟩ (w.drop 16)) = .ok second ∧
      decode Packet second = .ok (base.carrying ⟨58, 2, false, 7⟩ (w.drop 16), 60) := by
  intro base m
  obtain ⟨first, second, e, hfirst, he, -, hcut, hsecond, hd⟩ := fragments_of_sized base (c := 16)
    (show m.IsSized from rfl) rfl (by decide) (by decide) (by decide) (by decide) (by decide) (by decide) 7
  have hlen : second.length = 60 := Spelling.length_of_encode hsecond
  have hmax : first.length ≤ 65575 := by
    rw [Spelling.length_of_encode hfirst]
    decide
  rw [hlen] at hd
  exact ⟨_, first, second, e, rfl, hfirst, he, List.append_nil first ▸ hcut 65575 hmax [], hsecond, hd⟩

/-- The first half of a datagram is taken for a datagram that is too short. -/
theorem first_half_of_datagram_rejected :
    let base := build default default 64 [] (.raw 59 [])
    let u : Payload := .udp ⟨5683, 5683, 0, List.replicate 8 0⟩
    let w : Bytes := [22, 51, 22, 51, 0, 16, 0, 0] ++ List.replicate 8 0
    let first : Bytes := [96, 0, 0, 0, 0, 16, 44, 64] ++ List.replicate 32 0 ++
      [17, 0, 0, 1, 0, 0, 0, 7, 22, 51, 22, 51, 0, 16, 0, 0]
    @encode Payload (Payload.format u.code) u = .ok w ∧
      encode (base.carrying ⟨17, 0, true, 7⟩ (w.take 8)) = .ok first ∧
      decode Packet first = .error (.inconsistentLength .udpLength 16 8) := by
  decide +kernel

end Packet

end PacketWatch
