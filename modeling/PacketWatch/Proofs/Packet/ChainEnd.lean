import PacketWatch.Proofs.Packet.Thread
import PacketWatch.Proofs.Packet.Walk

namespace PacketWatch.Packet

open Wire

variable {w : Bytes} {p : Packet}

/-- The packet as it looks to a reader that follows its chain for `k` headers and takes all that
stands behind them for data. -/
def cutChain (p : Packet) (k : Nat) : Packet :=
  { p with
    extensions := p.extensions.take k
    payload := .raw (chainCode p.payload.code (p.extensions.drop k))
      ((p.extensions.drop k).flatMap Extension.bytes ++ (p.payload.bytes ++ p.trailer))
    trailer := [] }

theorem bodyBytes_take_drop (p : Packet) (k : Nat) : p.bodyBytes ++ p.trailer =
    (p.extensions.take k).flatMap Extension.bytes ++
      ((p.extensions.drop k).flatMap Extension.bytes ++ (p.payload.bytes ++ p.trailer)) := by
  rw [bodyBytes, ← List.append_assoc, ← List.flatMap_append, List.take_append_drop, List.append_assoc]

theorem bodyBytes_cutChain (p : Packet) (k : Nat) :
    (p.cutChain k).bodyBytes ++ (p.cutChain k).trailer = p.bodyBytes ++ p.trailer := by
  rw [p.bodyBytes_take_drop k]
  exact List.append_nil _

theorem payloadLength_cutChain (p : Packet) (k : Nat) : (p.cutChain k).payloadLength = p.payloadLength := by
  rw [← length_bodyBytes, ← length_bodyBytes, ← List.length_append, ← List.length_append,
    bodyBytes_cutChain]

theorem bytes_cutChain (p : Packet) (k : Nat) : (p.cutChain k).bytes = p.bytes := by
  rw [bytes, bodyBytes_cutChain, headerBytes, payloadLength_cutChain, bytes, headerBytes]
  rfl

theorem encode_cutChain (k : Nat) (hp : encode p = .ok w) : encode (p.cutChain k) = .ok w := by
  obtain ⟨hfit, rfl⟩ := Spelling.encode_ok_iff.1 hp
  refine Spelling.encode_ok_iff.2 ⟨?_, (p.bytes_cutChain k).symm⟩
  change Fit p.limits at hfit
  change Fit (p.cutChain k).limits
  rw [limits, fit_append, fit_append, fit_flatMap] at hfit
  rw [limits, payloadLength_cutChain, fit_append, fit_append, fit_flatMap]
  refine ⟨hfit.1, fun e he => hfit.2.1 e (List.mem_of_mem_take he), fit_nil⟩

/-- A chain that goes on behind its first fragment header is followed up to that one. -/
theorem isCanonical_cutChain {front back : List Extension} {e next : Extension} (hversion : p.version = 6)
    (hlink : Linked p.nextHeader p.extensions p.payload.code)
    (hback : ∀ e ∈ p.extensions, e.ReadsBack) (hext : p.extensions = front ++ e :: next :: back)
    (hlen : front.length < maxExtensions) (hfront : ∀ d ∈ front, d.isFragment = false)
    (he : e.isFragment = true) : (p.cutChain (front.length + 1)).IsCanonical := by
  have htake : p.extensions.take (front.length + 1) = front ++ [e] := by
    rw [hext, List.take_length_add_append]
    rfl
  have hdrop : p.extensions.drop (front.length + 1) = next :: back := by
    rw [hext, List.drop_length_add_append]
    rfl
  have hcut : p.cutChain (front.length + 1) = { p with
      extensions := front ++ [e]
      payload := .raw next.code ((next :: back).flatMap Extension.bytes ++ (p.payload.bytes ++ p.trailer))
      trailer := [] } := by
    rw [cutChain, htake, hdrop, chainCode]
  have hcode : next.code ≠ HeaderCode.icmpv6 ∧ next.code ≠ HeaderCode.udp := by
    cases next <;> simp [Extension.code, HeaderCode.hopByHop, HeaderCode.routing, HeaderCode.fragment,
      HeaderCode.icmpv6, HeaderCode.udp]
  rw [← List.take_append_drop (front.length + 1) p.extensions, linked_append, htake, hdrop] at hlink
  rw [hcut]
  refine ⟨hversion, hlink.1, ?_, ⟨?_, ?_⟩, ?_, ?_⟩
  · rw [List.length_append, List.length_singleton]
    omega
  · rwa [List.dropLast_concat]
  · intro hends
    rw [endsInFragment, List.getLast?_concat, Option.any_some, he] at hends
    cases hends
  · refine readsBack_of_options.1 fun d hd => hback d ?_
    rw [← htake] at hd
    exact List.mem_of_mem_take hd
  · exact ⟨fun _ => ⟨trivial, rfl⟩, fun _ => ⟨hcode.1, hcode.2, rfl⟩⟩

/-- The headers at the front of a linked chain are read from the packet's own bytes. -/
theorem reads_take (hfit : Fit p.limits) (hlink : Linked p.nextHeader p.extensions p.payload.code)
    (hback : ∀ e ∈ p.extensions, e.ReadsBack) (k : Nat) : ∃ rest, Reads p.nextHeader
      (p.bodyBytes ++ p.trailer) (p.extensions.take k) (chainCode p.payload.code (p.extensions.drop k)) rest := by
  rw [limits, fit_append, fit_append, fit_flatMap] at hfit
  rw [← List.take_append_drop k p.extensions, linked_append] at hlink
  rw [bodyBytes_take_drop p k]
  have hfront : Fit ((p.extensions.take k).flatMap Extension.limits) :=
    fit_flatMap.2 fun e he => hfit.2.1 e (List.mem_of_mem_take he)
  exact ⟨_, reads_of_linked hlink.1 (fun e he => hback e (List.mem_of_mem_take he)) hfront _⟩

/-- A linked chain with too many headers in front of its first fragment header is not followed. -/
theorem decode_of_too_long (hw : encode p = .ok w) (hversion : p.version = 6)
    (hlink : Linked p.nextHeader p.extensions p.payload.code) (hback : ∀ e ∈ p.extensions, e.ReadsBack)
    (hlen : maxExtensions < p.extensions.length)
    (hfront : ∀ e ∈ p.extensions.take maxExtensions, e.isFragment = false) :
    decode Packet w = .error (.chainTooLong maxExtensions) := by
  obtain ⟨hfit, -⟩ := Spelling.encode_ok_iff.1 hw
  have hleft : p.extensions.drop maxExtensions ≠ [] := by
    rw [Ne, List.drop_eq_nil_iff]
    omega
  obtain ⟨rest, hreads⟩ := reads_take hfit hlink hback maxExtensions
  refine (decode_error_iff_of_encode hw hversion).2 (run_readBody_chainTooLong_iff.2 ?_)
  exact run_readChain_chainTooLong_iff.2 ⟨rfl, _, _, rest, List.length_take_of_le (Nat.le_of_lt hlen),
    hreads, hfront, isNamedBy_chainCode hleft⟩

/-- A linked chain that goes on behind its first fragment header is followed up to that one. -/
theorem decode_of_fragment {front back : List Extension} {e next : Extension} (hw : encode p = .ok w)
    (hversion : p.version = 6) (hlink : Linked p.nextHeader p.extensions p.payload.code)
    (hback : ∀ e ∈ p.extensions, e.ReadsBack) (hext : p.extensions = front ++ e :: next :: back)
    (hlen : front.length < maxExtensions) (hfront : ∀ d ∈ front, d.isFragment = false)
    (he : e.isFragment = true) : decode Packet w = .ok (p.cutChain (front.length + 1), p.size) := by
  have hcanonical := isCanonical_cutChain hversion hlink hback hext hlen hfront he
  have hsize : (p.cutChain (front.length + 1)).size = p.size := by
    rw [size, payloadLength_cutChain, size]
  rw [← hsize]
  exact (Spelling.decode_of_encode (encode_cutChain (front.length + 1) hw)).2 hcanonical

/-- What a reader of the front of a chain takes for data are the encodings of the rest. -/
theorem exists_cutChain_eq (hw : encode p = .ok w) (k : Nat) : ∃ (encodings : List Bytes) (inner : Bytes),
    (p.extensions.drop k).map (fun e => @encode Extension (Extension.format e.code) e) = encodings.map .ok ∧
      @encode Payload (Payload.format p.payload.code) p.payload = .ok inner ∧
      p.cutChain k = { p with
        extensions := p.extensions.take k
        payload := .raw (chainCode p.payload.code (p.extensions.drop k))
          (encodings.flatten ++ (inner ++ p.trailer))
        trailer := [] } := by
  obtain ⟨hfit, -⟩ := Spelling.encode_ok_iff.1 hw
  change Fit p.limits at hfit
  rw [limits, fit_append, fit_append, fit_flatMap] at hfit
  have hleft : Fit ((p.extensions.drop k).flatMap Extension.limits) :=
    fit_flatMap.2 fun e he => hfit.2.1 e (List.mem_of_mem_drop he)
  refine ⟨_, _, Extension.map_encode hleft, Payload.encode_eq hfit.2.2, ?_⟩
  rw [cutChain, List.flatMap_def]

section Built

variable {source destination : Ipv6Address} {hopLimit : UInt8} {extensions : List Extension}
  {payload : Payload}

theorem decode_build_fragment (hp : p = build source destination hopLimit extensions payload)
    (hw : encode p = .ok w) (hback : ∀ e ∈ extensions, e.ReadsBack) {front back : List Extension}
    {f : Fragment} {next : Extension} (hsplit : extensions = front ++ .fragment f :: next :: back)
    (hlen : front.length < maxExtensions) (hfront : ∀ e ∈ front, e.isFragment = false) :
    decode Packet w = .ok (p.cutChain (front.length + 1), p.size) := by
  have hext : p.extensions = threadChain payload.code extensions := hp ▸ extensions_build ..
  have hlink : Linked p.nextHeader p.extensions p.payload.code := hp ▸ linked_thread _
  have hthreaded : p.extensions = threadChain HeaderCode.fragment front ++
      .fragment { f with nextHeader := next.code } ::
        next.setNextHeader (chainCode payload.code back) :: threadChain payload.code back := by
    rw [hext, hsplit, threadChain_append]
    rfl
  have hd := decode_of_fragment hw (hp ▸ rfl) hlink (hext ▸ readsBack_threadChain.2 hback) hthreaded
    (length_threadChain.symm ▸ hlen) (isFragment_threadChain.2 hfront) rfl
  rwa [length_threadChain] at hd

theorem decode_build_too_long (hp : p = build source destination hopLimit extensions payload)
    (hw : encode p = .ok w) (hback : ∀ e ∈ extensions, e.ReadsBack)
    (hlen : maxExtensions < extensions.length)
    (hfront : ∀ e ∈ extensions.take maxExtensions, e.isFragment = false) :
    decode Packet w = .error (.chainTooLong maxExtensions) := by
  have hext : p.extensions = threadChain payload.code extensions := hp ▸ extensions_build ..
  have hlink : Linked p.nextHeader p.extensions p.payload.code := hp ▸ linked_thread _
  refine decode_of_too_long hw (hp ▸ rfl) hlink (hext ▸ readsBack_threadChain.2 hback) ?_ ?_
  · rwa [hext, length_threadChain]
  · rwa [hext, threadChain_take, isFragment_threadChain]

end Built

/-- The chain is followed up to its first fragment header, and for at most sixteen headers. -/
theorem chain_followed :
    (∀ (source destination : Ipv6Address) (hopLimit : UInt8) (extensions : List Extension)
        (payload : Payload) (p : Packet) (w : Bytes),
      p = build source destination hopLimit extensions payload → encode p = .ok w →
      (∀ h, .hopByHop h ∈ extensions → ∀ data, .tlv 0 data ∉ h.options) →
      (∀ front f next back, extensions = front ++ .fragment f :: next :: back → front.length ≤ 15 →
        (∀ e ∈ front, e.isFragment = false) →
        ∃ (encodings : List Bytes) (inner : Bytes) (q : Packet),
          (p.extensions.drop (front.length + 1)).map
            (fun e => @encode Extension (Extension.format e.code) e) = encodings.map .ok ∧
          @encode Payload (Payload.format payload.code) payload = .ok inner ∧
          q = { p with
            extensions := p.extensions.take (front.length + 1)
            payload := .raw next.code (encodings.flatten ++ inner)
            trailer := [] } ∧
          decode Packet w = .ok (q, p.size) ∧ encode q = .ok w) ∧
      (16 < extensions.length → (∀ e ∈ extensions.take 16, e.isFragment = false) →
        decode Packet w = .error (.chainTooLong 16))) ∧
    (∀ b max, decode Packet b = .error (.chainTooLong max) ↔ max = 16 ∧ ∃ n, frameSize? b = .ok (some n) ∧
      n ≤ b.length ∧ ∃ l last rest, l.length = 16 ∧ Reads (b.getD 6 0) ((b.take n).drop 40) l last rest ∧
        (∀ e ∈ l, e.isFragment = false) ∧ (last = 0 ∨ last = 43 ∨ last = 44)) ∧
    ∀ b p n, decode Packet b = .ok (p, n) →
      p.extensions.length ≤ 16 ∧ ∀ e ∈ p.extensions.dropLast, e.isFragment = false := by
  refine ⟨fun source destination hopLimit extensions payload p w hp hw hoptions => ?_,
    fun b max => decode_chainTooLong_iff, fun b p n hd => ?_⟩
  · have hback : ∀ e ∈ extensions, e.ReadsBack := readsBack_of_options.2 hoptions
    refine ⟨fun front f next back hsplit hlen hfront => ?_, decode_build_too_long hp hw hback⟩
    have hd := decode_build_fragment hp hw hback hsplit (Nat.lt_succ_of_le hlen) hfront
    have hext : p.extensions = threadChain payload.code extensions := hp ▸ extensions_build ..
    have hpayload : p.payload = payload := hp ▸ rfl
    have htrailer : p.trailer = [] := hp ▸ rfl
    have hcode : chainCode payload.code (p.extensions.drop (front.length + 1)) = next.code := by
      rw [hext, threadChain_drop, chainCode_threadChain, hsplit, List.drop_length_add_append]
      rfl
    obtain ⟨encodings, inner, hencodings, hinner, hcut⟩ := exists_cutChain_eq hw (front.length + 1)
    rw [hpayload] at hinner
    rw [hpayload, hcode, htrailer, List.append_nil] at hcut
    exact ⟨encodings, inner, _, hencodings, hinner, hcut, hd, encode_cutChain _ hw⟩
  · obtain ⟨-, -, hcanonical, -⟩ := Spelling.decode_ok_iff_clears.1 hd
    exact ⟨hcanonical.length_le, hcanonical.followed.fragment_last⟩

theorem chain_followed_to_fragment_and_bound :
    let p := build default default 64
      [.hopByHop (.ofOptions 0 [.routerAlert 0]), .fragment ⟨0, 0, true, 7⟩, .routing (.ofData 0 0 0 [])]
      (.raw 59 [1])
    let long := build default default 64 (List.replicate 17 (.routing (.ofData 0 0 0 []))) (.raw 59 [])
    (∃ w q, encode p = .ok w ∧ decode Packet w = .ok (q, p.size) ∧ encode q = .ok w ∧
      q.extensions = p.extensions.take 2) ∧
      ∃ w, encode long = .ok w ∧ decode Packet w = .error (.chainTooLong 16) := by
  intro p long
  have halert : (HopByHop.ofOptions 0 [.routerAlert 0]).options = [.routerAlert 0, .tlv 1 []] := rfl
  constructor
  · have hoptions : ∀ h, .hopByHop h ∈ [Extension.hopByHop (.ofOptions 0 [.routerAlert 0]),
        .fragment ⟨0, 0, true, 7⟩, .routing (.ofData 0 0 0 [])] → ∀ data, .tlv 0 data ∉ h.options := by
      intro h hmem data
      obtain rfl : h = .ofOptions 0 [.routerAlert 0] := by simpa using hmem
      rw [halert]
      simp [HopOption.routerAlert, HopOption.routerAlertKind]
    obtain ⟨encodings, inner, q, -, -, rfl, hd, hq⟩ :=
      (chain_followed.1 _ _ _ _ _ p _ rfl rfl hoptions).1 [_] _ _ [] rfl (by decide) (by decide)
    exact ⟨_, _, rfl, hd, hq, rfl⟩
  · exact ⟨_, rfl, (chain_followed.1 _ _ _ _ _ long _ rfl rfl (by simp)).2 (by decide) (by decide)⟩

end PacketWatch.Packet
