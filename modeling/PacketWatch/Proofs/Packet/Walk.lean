import PacketWatch.Proofs.Formats.Measures
import PacketWatch.Proofs.Framing.Agreement

namespace PacketWatch

open Wire

namespace Packet

/-- Headers that stand one behind the other, each decoded as what the one before it names: from a code
and the bytes behind it to the code and the bytes behind the last header. -/
inductive Reads : UInt8 → Bytes → List Extension → UInt8 → Bytes → Prop
  | nil (code : UInt8) (b : Bytes) : Reads code b [] code b
  | cons {code last : UInt8} {b rest : Bytes} {e : Extension} {n : Nat} {l : List Extension} :
      @decode Extension (Extension.format code) b = .ok (e, n) →
      Reads e.nextHeader (b.drop n) l last rest → Reads code b (e :: l) last rest

variable {code last : UInt8} {l : List Extension} {b : Bytes}

theorem Reads.isSuffix {rest : Bytes} (h : Reads code b l last rest) : rest <:+ b := by
  induction h with
  | nil => exact List.suffix_rfl
  | cons _ _ ih => exact ih.trans (List.drop_suffix _ _)

/-- The headers of a linked chain are read from their encodings. -/
theorem reads_of_linked (hlink : Linked code l last) (hback : ∀ e ∈ l, e.ReadsBack)
    (hfit : Fit (l.flatMap Extension.limits)) (rest : Bytes) :
    Reads code (l.flatMap Extension.bytes ++ rest) l last rest := by
  induction l generalizing code with
  | nil =>
      obtain rfl : code = last := hlink
      exact .nil code rest
  | cons e l ih =>
      obtain ⟨rfl, hlink⟩ := hlink
      rw [List.forall_mem_cons] at hback
      rw [List.flatMap_cons, fit_append] at hfit
      rw [List.flatMap_cons, List.append_assoc]
      let _ := Extension.format e.code
      have hencode : encode e = .ok e.bytes := Spelling.encode_ok_iff.2 ⟨hfit.1, rfl⟩
      refine .cons ((Spelling.decode_append_iff hencode _).2 ⟨rfl, hback.1⟩) ?_
      have hdrop : (e.bytes ++ (l.flatMap Extension.bytes ++ rest)).drop (WireFormat.size e) =
          l.flatMap Extension.bytes ++ rest := List.drop_left' e.length_bytes
      rw [hdrop]
      exact ih hlink hback.2 hfit.2

theorem reads_cons_iff {e : Extension} {rest : Bytes} : Reads code b (e :: l) last rest ↔
    ∃ left, (Extension.readAs code).run b = .ok (e, left) ∧ Reads e.nextHeader left l last rest := by
  let _ := Extension.format code
  constructor
  · rintro (_ | ⟨hd, hl⟩)
    exact ⟨_, Spelling.run_read_of_decode hd, hl⟩
  · rintro ⟨left, hread, hl⟩
    have hd := Spelling.decode_of_run_ok hread
    have hleft := (Prod.mk.inj (Except.ok.inj (hread.symm.trans (Spelling.run_read_of_decode hd)))).2
    refine .cons hd ?_
    rwa [← hleft]

theorem run_readChain_error_of_named {allowed : Nat} {err : DecodeError}
    (h : Extension.isNamedBy code = true) : (readChain (allowed + 1) code).run b = .error err ↔
      (Extension.readAs code).run b = .error err ∨ ∃ e left, (Extension.readAs code).run b = .ok (e, left) ∧
        e.isFragment = false ∧ (readChain allowed e.nextHeader).run left = .error err := by
  rw [readChain, if_pos h, Reader.run_bind_error]
  refine or_congr_right ?_
  constructor
  · rintro ⟨e, left, he, hr⟩
    split at hr
    · cases hr
    · next hf =>
      obtain hr | ⟨_, _, -, hr⟩ := Reader.run_bind_error.1 hr
      · exact ⟨e, left, he, eq_false_of_ne_true hf, hr⟩
      · cases hr
  · rintro ⟨e, left, he, hf, hr⟩
    refine ⟨e, left, he, ?_⟩
    rw [if_neg (by simp [hf]), Reader.run_bind_of_error hr]

theorem run_readChain_of_not_named {allowed : Nat} (h : Extension.isNamedBy code = false) :
    (readChain allowed code).run b = .ok (([], code), b) := by
  cases allowed <;> rw [readChain, if_neg (by simp [h])] <;> rfl

theorem reads_iff_of_not_named {rest : Bytes} (h : Extension.isNamedBy code = false) :
    Reads code b l last rest ↔ l = [] ∧ last = code ∧ rest = b := by
  constructor
  · intro hl
    cases l with
    | nil =>
        cases hl
        exact ⟨rfl, rfl, rfl⟩
    | cons e l =>
        obtain ⟨left, he, -⟩ := reads_cons_iff.1 hl
        obtain ⟨rfl, -⟩ := Extension.run_readAs_ok.1 he
        rw [e.isNamedBy_code] at h
        cases h
  · rintro ⟨rfl, rfl, rfl⟩
    exact .nil _ _

theorem run_readChain_ok_iff_reads_of_not_named {allowed : Nat} {rest : Bytes}
    (h : Extension.isNamedBy code = false) : (readChain allowed code).run b = .ok ((l, last), rest) ↔
      Reads code b l last rest ∧ l.length ≤ allowed ∧ Followed l last := by
  rw [run_readChain_of_not_named h, reads_iff_of_not_named h]
  constructor
  · rintro ⟨⟩
    exact ⟨⟨rfl, rfl, rfl⟩, Nat.zero_le _, followed_nil.2 h⟩
  · rintro ⟨⟨rfl, rfl, rfl⟩, -⟩
    rfl

/-- The headers that are read stand one behind the other, as many as allowed at most. By induction on how
many are allowed. -/
theorem run_readChain_ok_iff_reads {allowed : Nat} {rest : Bytes} :
    (readChain allowed code).run b = .ok ((l, last), rest) ↔
      Reads code b l last rest ∧ l.length ≤ allowed ∧ Followed l last := by
  induction allowed generalizing code l b with
  | zero =>
      by_cases hcode : Extension.isNamedBy code = true
      · rw [readChain, if_pos hcode]
        constructor
        · intro h
          exact absurd h Reader.run_throw_ok
        · rintro ⟨hl, hlen, hfollow⟩
          obtain rfl := List.length_eq_zero_iff.1 (Nat.le_zero.1 hlen)
          cases hl
          rw [followed_nil, hcode] at hfollow
          cases hfollow
      · exact run_readChain_ok_iff_reads_of_not_named (eq_false_of_ne_true hcode)
  | succ allowed ih =>
      by_cases hcode : Extension.isNamedBy code = true
      · rw [run_readChain_of_named hcode]
        simp only [ih]
        constructor
        · rintro ⟨e, left, m, he, rfl, ⟨hf, rfl, rfl, rfl⟩ | ⟨hf, hm, hlen, hfollow⟩⟩
          · exact ⟨reads_cons_iff.2 ⟨_, he, .nil _ _⟩, Nat.le_add_left 1 allowed, followed_cons.2 (.inl ⟨hf, rfl⟩)⟩
          · exact ⟨reads_cons_iff.2 ⟨left, he, hm⟩, Nat.succ_le_succ hlen, followed_cons.2 (.inr ⟨hf, hfollow⟩)⟩
        · rintro ⟨hl, hlen, hfollow⟩
          cases l with
          | nil =>
              cases hl
              rw [followed_nil, hcode] at hfollow
              cases hfollow
          | cons e m =>
              obtain ⟨left, he, hm⟩ := reads_cons_iff.1 hl
              refine ⟨e, left, m, he, rfl, ?_⟩
              rcases followed_cons.1 hfollow with ⟨hf, rfl⟩ | ⟨hf, hfollow⟩
              · cases hm
                exact .inl ⟨hf, rfl, rfl, rfl⟩
              · exact .inr ⟨hf, hm, Nat.le_of_succ_le_succ hlen, hfollow⟩
      · exact run_readChain_ok_iff_reads_of_not_named (eq_false_of_ne_true hcode)

theorem run_readChain_error_of_not_named {allowed : Nat} {err : DecodeError}
    (h : Extension.isNamedBy code = false) : (readChain allowed code).run b = .error err ↔
      ∃ l last rest, Reads code b l last rest ∧ (∀ e ∈ l, e.isFragment = false) ∧
        Extension.isNamedBy last = true ∧ (l.length = allowed ∧ err = .chainTooLong maxExtensions ∨
          l.length < allowed ∧ (Extension.readAs last).run rest = .error err) := by
  rw [run_readChain_of_not_named h]
  constructor
  · intro herror
    cases herror
  · rintro ⟨l, last, rest, hl, -, hlast, -⟩
    obtain ⟨-, rfl, -⟩ := (reads_iff_of_not_named h).1 hl
    rw [h] at hlast
    cases hlast

/-- The chain is refused behind headers none of which is a fragment header, where another one is named: it
is one too many, whether it is there or not, or is refused itself. By induction on how many are allowed. -/
theorem run_readChain_error {allowed : Nat} {err : DecodeError} :
    (readChain allowed code).run b = .error err ↔ ∃ l last rest, Reads code b l last rest ∧
      (∀ e ∈ l, e.isFragment = false) ∧ Extension.isNamedBy last = true ∧
        (l.length = allowed ∧ err = .chainTooLong maxExtensions ∨
          l.length < allowed ∧ (Extension.readAs last).run rest = .error err) := by
  induction allowed generalizing code b with
  | zero =>
      by_cases hcode : Extension.isNamedBy code = true
      · rw [readChain, if_pos hcode]
        constructor
        · rintro ⟨⟩
          exact ⟨[], code, b, .nil code b, by simp, hcode, .inl ⟨rfl, rfl⟩⟩
        · rintro ⟨l, last, rest, -, -, -, ⟨-, rfl⟩ | ⟨hlen, -⟩⟩
          · rfl
          · cases hlen
      · exact run_readChain_error_of_not_named (eq_false_of_ne_true hcode)
  | succ allowed ih =>
      by_cases hcode : Extension.isNamedBy code = true
      · rw [run_readChain_error_of_named hcode]
        simp only [ih]
        constructor
        · rintro (he | ⟨e, left, he, hf, l, last, rest, hl, hfs, hlast, hend⟩)
          · exact ⟨[], code, b, .nil code b, by simp, hcode, .inr ⟨Nat.succ_pos allowed, he⟩⟩
          · refine ⟨e :: l, last, rest, reads_cons_iff.2 ⟨left, he, hl⟩, List.forall_mem_cons.2 ⟨hf, hfs⟩, hlast, ?_⟩
            simpa using hend
        · rintro ⟨l, last, rest, hl, hfs, hlast, hend⟩
          cases l with
          | nil =>
              cases hl
              obtain ⟨hlen, -⟩ | ⟨-, herror⟩ := hend
              · cases hlen
              · exact .inl herror
          | cons e l =>
              obtain ⟨left, he, hl⟩ := reads_cons_iff.1 hl
              rw [List.forall_mem_cons] at hfs
              refine .inr ⟨e, left, he, hfs.1, l, last, rest, hl, hfs.2, hlast, ?_⟩
              simpa using hend
      · exact run_readChain_error_of_not_named (eq_false_of_ne_true hcode)

theorem run_readChain_chainTooLong_iff {max : Nat} :
    (readChain maxExtensions code).run b = .error (.chainTooLong max) ↔ max = maxExtensions ∧
      ∃ l last rest, l.length = maxExtensions ∧ Reads code b l last rest ∧
        (∀ e ∈ l, e.isFragment = false) ∧ Extension.isNamedBy last = true := by
  rw [run_readChain_error]
  constructor
  · rintro ⟨l, last, rest, hl, hfs, hlast, ⟨hlen, ⟨⟩⟩ | ⟨-, herror⟩⟩
    · exact ⟨rfl, l, last, rest, hlen, hl, hfs, hlast⟩
    · cases Extension.measures_of_named hlast herror
  · rintro ⟨rfl, l, last, rest, hlen, hl, hfs, hlast⟩
    exact ⟨l, last, rest, hl, hfs, hlast, .inl ⟨hlen, rfl⟩⟩

theorem run_readBody_error {err : DecodeError} : (readBody code).run b = .error err ↔
    (readChain maxExtensions code).run b = .error err ∨ ∃ l last rest,
      (readChain maxExtensions code).run b = .ok ((l, last), rest) ∧
        l.any Extension.isTrailingFragment = false ∧ (Payload.readAs last).run rest = .error err := by
  rw [readBody, Reader.run_bind_error]
  refine or_congr_right ?_
  constructor
  · rintro ⟨⟨l, last⟩, left, hchain, hr⟩
    dsimp only at hr
    split at hr
    · cases hr
    · next htrailing =>
      obtain hr | ⟨_, _, -, hr⟩ := Reader.run_bind_error.1 hr
      · exact ⟨l, last, left, hchain, eq_false_of_ne_true htrailing, hr⟩
      · cases hr
  · rintro ⟨l, last, left, hchain, htrailing, hr⟩
    refine ⟨(l, last), left, hchain, ?_⟩
    dsimp only
    rw [if_neg (by simp [htrailing]), Reader.run_bind_of_error hr]

theorem run_readBody_chainTooLong_iff {max : Nat} :
    (readBody code).run b = .error (.chainTooLong max) ↔
      (readChain maxExtensions code).run b = .error (.chainTooLong max) := by
  rw [run_readBody_error]
  refine or_iff_left ?_
  -- Behind the chain only the payload can fail.
  rintro ⟨l, last, left, -, -, hr⟩
  obtain ⟨_, ⟨⟩⟩ := Payload.exists_measures hr

theorem isNamedBy_iff : Extension.isNamedBy code = true ↔ code = 0 ∨ code = 43 ∨ code = 44 := by
  simp [Extension.isNamedBy, HeaderCode.hopByHop, HeaderCode.routing, HeaderCode.fragment, or_assoc]

/-- A whole frame is refused as its body is. -/
theorem decode_error_iff_of_frameSize? {n : Nat} {err : DecodeError} (hs : frameSize? b = .ok (some n))
    (hle : n ≤ b.length) : decode Packet b = .error err ↔
      (readBody (b.getD 6 0)).run ((b.take n).drop headerSize) = .error err := by
  obtain ⟨h, tail, rfl, hversion, rfl⟩ := exists_header_of_frameSize? hs
    (Nat.le_trans (le_of_frameSize? hs).2 hle)
  rw [List.length_append, h.length_bytes, BaseHeader.frameSize, Nat.add_le_add_iff_left] at hle
  rw [h.take_frameSize, List.drop_left' h.length_bytes, h.getD_six, decode_of_le hversion hle]
  cases (readBody h.nextHeader).run (tail.take h.payloadLength) <;> simp [Except.map]

theorem getD_bytes_six (p : Packet) : p.bytes.getD 6 0 = p.nextHeader := by
  simp [bytes, headerBytes, List.getElem?_append]

/-- A packet is refused as its body is. -/
theorem decode_error_iff_of_encode {p : Packet} {w : Bytes} {err : DecodeError} (hw : encode p = .ok w)
    (hversion : p.version = 6) : decode Packet w = .error err ↔
      (readBody p.nextHeader).run (p.bodyBytes ++ p.trailer) = .error err := by
  have hframe := frameSize?_of_encode hw hversion []
  rw [List.append_nil] at hframe
  obtain ⟨-, hbytes⟩ := Spelling.encode_ok_iff.1 hw
  obtain rfl : w = p.bytes := hbytes
  have hbody : (p.bytes.take p.size).drop headerSize = p.bodyBytes ++ p.trailer := by
    rw [List.take_of_length_le (Nat.le_of_eq p.length_bytes), bytes, List.drop_left' p.length_headerBytes]
  rw [decode_error_iff_of_frameSize? hframe (Nat.le_of_eq p.length_bytes.symm), hbody, getD_bytes_six]

/-- What is no whole frame is refused for its length or its version. -/
theorem decode_error_cases {err : DecodeError} (herror : decode Packet b = .error err) :
    err.Measures b ∨ frameSize? b = .error err ∨ ∃ n, frameSize? b = .ok (some n) ∧ n ≤ b.length ∧
      (readBody (b.getD 6 0)).run ((b.take n).drop headerSize) = .error err := by
  by_cases hforty : b.length < headerSize
  · rw [decode_of_lt hforty] at herror
    cases herror
    exact .inl ⟨rfl, hforty⟩
  replace hforty := Nat.le_of_not_lt hforty
  match hs : frameSize? b with
  | .error e =>
      rw [decode_of_frameSize?_error hs hforty] at herror
      cases herror
      exact .inr (.inl rfl)
  | .ok none => exact absurd (length_lt_of_frameSize?_none hs) (Nat.not_lt.2 (Nat.le_trans (by decide) hforty))
  | .ok (some n) =>
      by_cases hlt : b.length < n
      · rw [decode_of_lt_frameSize? hs hforty hlt] at herror
        cases herror
        exact .inl ⟨rfl, by rw [if_neg (by simp)]; exact hlt⟩
      · have hle := Nat.le_of_not_lt hlt
        exact .inr (.inr ⟨n, rfl, hle, (decode_error_iff_of_frameSize? hs hle).1 herror⟩)

/-- The chain of a packet is too long only in a whole frame. -/
theorem decode_chainTooLong_iff {max : Nat} : decode Packet b = .error (.chainTooLong max) ↔
    max = maxExtensions ∧ ∃ n, frameSize? b = .ok (some n) ∧ n ≤ b.length ∧ ∃ l last rest,
      l.length = maxExtensions ∧ Reads (b.getD 6 0) ((b.take n).drop headerSize) l last rest ∧
        (∀ e ∈ l, e.isFragment = false) ∧ (last = 0 ∨ last = 43 ∨ last = 44) := by
  constructor
  · intro herror
    obtain ⟨⟨⟩⟩ | hs | ⟨n, hs, hle, hbody⟩ := decode_error_cases herror
    · obtain ⟨_, _, -, -, ⟨⟩⟩ := exists_version_of_frameSize?_error hs
    · rw [run_readBody_chainTooLong_iff, run_readChain_chainTooLong_iff] at hbody
      simp only [isNamedBy_iff] at hbody
      exact ⟨hbody.1, n, hs, hle, hbody.2⟩
  · rintro ⟨rfl, n, hs, hle, hchain⟩
    rw [decode_error_iff_of_frameSize? hs hle, run_readBody_chainTooLong_iff, run_readChain_chainTooLong_iff]
    simp only [isNamedBy_iff]
    exact ⟨trivial, hchain⟩

end Packet

end PacketWatch
