import Mathlib.Data.List.Forall2
import PacketWatch.Proofs.Packet.Canonical
import PacketWatch.Proofs.Packet.Thread

namespace PacketWatch

open Wire

namespace Extension

inductive SameContent : Extension → Extension → Prop
  | hopByHop {h h' : HopByHop} : h.options = h'.options → SameContent (hopByHop h) (hopByHop h')
  | routing {h h' : Routing} : h.kind = h'.kind → h.segmentsLeft = h'.segmentsLeft → h.data = h'.data →
      SameContent (routing h) (routing h')
  | fragment {h h' : Fragment} : h.offset = h'.offset → h.more = h'.more →
      h.identification = h'.identification → SameContent (fragment h) (fragment h')

variable {e f : Extension} (code : UInt8)

theorem sameContent_setNextHeader (e : Extension) : SameContent e (e.setNextHeader code) := by
  cases e with
  | hopByHop h => exact .hopByHop rfl
  | routing h => exact .routing rfl rfl rfl
  | fragment h => exact .fragment rfl rfl rfl

theorem SameContent.setNextHeader_eq (h : SameContent e f) :
    e.setNextHeader code = f.setNextHeader code := by
  cases h with
  | hopByHop hoptions => simp only [setNextHeader, hoptions]
  | routing hkind hleft hdata => simp only [setNextHeader, hkind, hleft, hdata]
  | fragment hoffset hmore hid => simp only [setNextHeader, hoffset, hmore, hid]

theorem SameContent.code_eq (h : SameContent e f) : e.code = f.code := by
  rw [← e.code_setNextHeader 0, h.setNextHeader_eq 0, f.code_setNextHeader]

end Extension

namespace Packet

structure SameContent (p q : Packet) : Prop where
  version : p.version = q.version
  trafficClass : p.trafficClass = q.trafficClass
  flowLabel : p.flowLabel = q.flowLabel
  hopLimit : p.hopLimit = q.hopLimit
  source : p.source = q.source
  destination : p.destination = q.destination
  extensions : List.Forall₂ Extension.SameContent p.extensions q.extensions
  payload : p.payload = q.payload
  trailer : p.trailer = q.trailer

def codeAt (p : Packet) (i : Nat) : UInt8 := (p.extensions[i]?.map Extension.code).getD p.payload.code

structure NamesSuccessors (p : Packet) : Prop where
  first : p.nextHeader = p.codeAt 0
  next : ∀ i e, p.extensions[i]? = some e → e.nextHeader = p.codeAt (i + 1)

variable {p q : Packet} {l m : List Extension} {last : UInt8}

theorem namesSuccessors_iff_linked :
    p.NamesSuccessors ↔ Linked p.nextHeader p.extensions p.payload.code := by
  rw [linked_iff_getElem]
  exact ⟨fun h => ⟨h.first, h.next⟩, fun h => ⟨h.1, h.2⟩⟩

theorem sameContent_threadChain : List.Forall₂ Extension.SameContent l (threadChain last l) := by
  induction l with
  | nil => exact .nil
  | cons e l ih => exact .cons (e.sameContent_setNextHeader _) ih

theorem chainCode_congr (h : List.Forall₂ Extension.SameContent l m) : chainCode last l = chainCode last m := by
  cases h with
  | nil => rfl
  | cons he _ => exact he.code_eq

theorem threadChain_congr (h : List.Forall₂ Extension.SameContent l m) :
    threadChain last l = threadChain last m := by
  induction h with
  | nil => rfl
  | cons he hl ih => rw [threadChain, threadChain, chainCode_congr hl, he.setNextHeader_eq, ih]

theorem namesSuccessors_thread (p : Packet) : p.thread.NamesSuccessors := by
  rw [namesSuccessors_iff_linked]
  exact p.linked_thread

theorem sameContent_thread (p : Packet) : SameContent p p.thread := by
  rw [thread_eq_threadChain]
  exact ⟨rfl, rfl, rfl, rfl, rfl, rfl, sameContent_threadChain, rfl, rfl⟩

theorem payloadLength_thread (p : Packet) : p.thread.payloadLength = p.payloadLength := by
  rw [thread_eq_threadChain, payloadLength, payloadLength, total_size_threadChain]

theorem SameContent.thread_eq (h : SameContent p q) : p.thread = q.thread := by
  obtain ⟨hversion, hclass, hflow, hlimit, hsource, hdestination, hextensions, hpayload, htrailer⟩ := h
  simp only [thread_eq_threadChain, hversion, hclass, hflow, hlimit, hsource, hdestination, hpayload, htrailer,
    chainCode_congr hextensions, threadChain_congr hextensions]

theorem NamesSuccessors.thread_eq (h : p.NamesSuccessors) : p.thread = p := by
  have hlinked := namesSuccessors_iff_linked.1 h
  rw [thread_eq_threadChain, ← hlinked.eq_chainCode, hlinked.threadChain_eq]

/-- Threading a packet is finding the one with its content whose headers name what stands behind them. -/
theorem eq_thread_iff : q = p.thread ↔ SameContent p q ∧ q.NamesSuccessors := by
  constructor
  · rintro rfl
    exact ⟨p.sameContent_thread, p.namesSuccessors_thread⟩
  · rintro ⟨hcontent, hnames⟩
    rw [hcontent.thread_eq, hnames.thread_eq]

/-- Threading a packet makes its headers name what stands behind them and keeps everything else, and
packets that have been decoded are threaded as they are. -/
theorem thread_links_and_keeps :
    (∀ p : Packet, p.thread.NamesSuccessors ∧ SameContent p p.thread ∧ p.thread.size = p.size ∧
      p.thread.payloadLength = p.payloadLength ∧ p.thread.thread = p.thread) ∧
    (∀ p q : Packet, SameContent p q → p.thread = q.thread) ∧
    ∀ (b : Bytes) (p : Packet) (n : Nat), decode Packet b = .ok (p, n) → p.thread = p := by
  refine ⟨fun p => ?_, fun p q => SameContent.thread_eq, fun b p n hd => ?_⟩
  · obtain ⟨hcontent, hnames⟩ := eq_thread_iff.1 (Eq.refl p.thread)
    have hlength := p.payloadLength_thread
    exact ⟨hnames, hcontent, congrArg (headerSize + ·) hlength, hlength, hnames.thread_eq⟩
  · obtain ⟨-, -, hcanonical, -⟩ := Spelling.decode_ok_iff_clears.1 hd
    exact (namesSuccessors_iff_linked.2 hcanonical.linked).thread_eq

theorem thread_links_and_keeps_trailing_fragment :
    let b : Bytes := [0x60, 0, 0, 0, 0, 10, 44, 1] ++ List.replicate 32 0 ++ [43, 0, 0, 8, 0, 0, 0, 7, 1, 2]
    let p : Packet := {
      nextHeader := 44, hopLimit := 1, source := default, destination := default
      extensions := [.fragment ⟨43, 1, false, 7⟩]
      payload := .raw 43 [1, 2] }
    let q : Packet := { p with nextHeader := 6, extensions := [.fragment ⟨17, 1, false, 7⟩] }
    decode Packet b = .ok (p, 50) ∧ p.thread = p ∧ q.thread = p := by
  intro b p q
  have hd : decode Packet b = .ok (p, 50) := by decide +kernel +revert
  have hcontent : SameContent q p :=
    ⟨rfl, rfl, rfl, rfl, rfl, rfl, .cons (.fragment rfl rfl rfl) .nil, rfl, rfl⟩
  obtain ⟨-, hsame, hdecoded⟩ := thread_links_and_keeps
  exact ⟨hd, hdecoded b p 50 hd, (hsame q p hcontent).trans (hdecoded b p 50 hd)⟩

end Packet

end PacketWatch
