import PacketWatch.Packet.Basic
import PacketWatch.Proofs.Packet.Extension
import PacketWatch.Proofs.Packet.Payload

namespace PacketWatch.Packet

open Wire

/-- The chain of headers that starts with what `code` names: each names its successor, and the last one
`last`. -/
def Linked (code : UInt8) : List Extension → UInt8 → Prop
  | [], last => code = last
  | e :: rest, last => code = e.code ∧ Linked e.nextHeader rest last

def endsInFragment (l : List Extension) : Bool := l.getLast?.any Extension.isFragment

/-- A chain that is followed to its end and no further: it stops behind a fragment header, and
otherwise where the code is not one of an extension header. -/
structure Followed (l : List Extension) (last : UInt8) : Prop where
  fragment_last : ∀ e ∈ l.dropLast, e.isFragment = false
  not_named : endsInFragment l = false → Extension.isNamedBy last = false

variable {l : List Extension} {e : Extension} {code last : UInt8} {b rest : Bytes}

theorem followed_nil : Followed [] last ↔ Extension.isNamedBy last = false := by
  constructor
  · intro h
    exact h.not_named rfl
  · intro h
    exact ⟨by simp, fun _ => h⟩

theorem followed_cons : Followed (e :: l) last ↔
    e.isFragment = true ∧ l = [] ∨ e.isFragment = false ∧ Followed l last := by
  cases l with
  | nil =>
      have hends : endsInFragment [e] = e.isFragment := rfl
      constructor
      · rintro ⟨-, h⟩
        rw [hends] at h
        cases he : e.isFragment with
        | true => exact .inl ⟨rfl, rfl⟩
        | false => exact .inr ⟨rfl, followed_nil.2 (h he)⟩
      · rintro (⟨he, -⟩ | ⟨-, h⟩)
        · exact ⟨by simp, fun hf => by rw [hends, he] at hf; cases hf⟩
        · exact ⟨by simp, fun _ => followed_nil.1 h⟩
  | cons d l =>
      have hends : endsInFragment (e :: d :: l) = endsInFragment (d :: l) := by
        rw [endsInFragment, endsInFragment, List.getLast?_cons_cons]
      constructor
      · rintro ⟨hf, hn⟩
        rw [List.dropLast_cons_cons, List.forall_mem_cons] at hf
        exact .inr ⟨hf.1, hf.2, by rwa [hends] at hn⟩
      · rintro (⟨-, h⟩ | ⟨he, hf, hn⟩)
        · cases h
        · refine ⟨?_, by rwa [hends]⟩
          rw [List.dropLast_cons_cons, List.forall_mem_cons]
          exact ⟨he, hf⟩

theorem clears_flatMap_bytes (hfit : Fit (l.flatMap Extension.limits)) :
    Clears (l.flatMap Extension.reserved) (l.flatMap Extension.bytes) (l.flatMap Extension.bytes) := by
  induction l with
  | nil => exact ⟨rfl, rfl⟩
  | cons e l ih =>
      rw [List.flatMap_cons, fit_append] at hfit
      exact (e.clears_bytes hfit.1).append (ih hfit.2)

theorem length_flatMap_bytes (l : List Extension) :
    (l.flatMap Extension.bytes).length = total Extension.size l := by
  induction l with
  | nil => rfl
  | cons e l ih => rw [List.flatMap_cons, List.length_append, ih, Extension.length_bytes, total_cons]

theorem linked_of_not_named (h : Extension.isNamedBy code = false) :
    Linked code l last ↔ l = [] ∧ code = last := by
  cases l with
  | nil => simp [Linked]
  | cons e l =>
      constructor
      · rintro ⟨rfl, -⟩
        rw [e.isNamedBy_code] at h
        cases h
      · rintro ⟨hl, -⟩
        cases hl

theorem run_readChain_ok_of_not_named {allowed : Nat} (h : Extension.isNamedBy code = false) :
    (readChain allowed code).run b = .ok ((l, last), rest) ↔
      Linked code l last ∧ l.length ≤ allowed ∧ Followed l last ∧ (∀ e ∈ l, e.ReadsBack) ∧
        Fit (l.flatMap Extension.limits) ∧ ∃ front, b = front ++ rest ∧
          Clears (l.flatMap Extension.reserved) front (l.flatMap Extension.bytes) := by
  have hread : readChain allowed code = pure ([], code) := by
    cases allowed <;> rw [readChain, if_neg (by simp [h])]
  rw [hread, Reader.run_pure_ok, Prod.mk.injEq, linked_of_not_named h]
  constructor
  · rintro ⟨⟨rfl, rfl⟩, rfl⟩
    exact ⟨⟨rfl, rfl⟩, Nat.zero_le _, followed_nil.2 h, by simp, fit_nil, [], rfl, rfl, rfl⟩
  · rintro ⟨⟨rfl, rfl⟩, -, -, -, -, front, rfl, hl, -⟩
    obtain rfl := List.length_eq_zero_iff.1 hl.symm
    exact ⟨⟨rfl, rfl⟩, rfl⟩

theorem run_readChain_of_named {allowed : Nat} (h : Extension.isNamedBy code = true) :
    (readChain (allowed + 1) code).run b = .ok ((l, last), rest) ↔
      ∃ e left m, (Extension.readAs code).run b = .ok (e, left) ∧ l = e :: m ∧
        (e.isFragment = true ∧ m = [] ∧ last = e.nextHeader ∧ rest = left ∨
          e.isFragment = false ∧ (readChain allowed e.nextHeader).run left = .ok ((m, last), rest)) := by
  rw [readChain, if_pos h]
  simp only [Reader.run_bind_ok]
  constructor
  · rintro ⟨e, left, he, hr⟩
    split at hr
    · next hf =>
      rw [Reader.run_pure_ok, Prod.mk.injEq] at hr
      obtain ⟨⟨rfl, rfl⟩, rfl⟩ := hr
      exact ⟨e, _, [], he, rfl, .inl ⟨hf, rfl, rfl, rfl⟩⟩
    · next hf =>
      simp only [Reader.run_bind_ok, Reader.run_pure_ok, Prod.mk.injEq] at hr
      obtain ⟨⟨m, last⟩, _, hm, ⟨rfl, rfl⟩, rfl⟩ := hr
      exact ⟨e, left, m, he, rfl, .inr ⟨by simpa using hf, hm⟩⟩
  · rintro ⟨e, left, m, he, rfl, ⟨hf, rfl, rfl, rfl⟩ | ⟨hf, hm⟩⟩
    · refine ⟨e, _, he, ?_⟩
      rw [if_pos hf, Reader.run_pure_ok]
      exact ⟨rfl, rfl⟩
    · refine ⟨e, left, he, ?_⟩
      rw [if_neg (by simp [hf])]
      simp only [Reader.run_bind_ok, Reader.run_pure_ok]
      exact ⟨(m, last), rest, hm, rfl, rfl⟩

/-- The chains that are read, by induction on how many headers are still allowed. -/
theorem run_readChain_ok {allowed : Nat} : (readChain allowed code).run b = .ok ((l, last), rest) ↔
    Linked code l last ∧ l.length ≤ allowed ∧ Followed l last ∧ (∀ e ∈ l, e.ReadsBack) ∧
      Fit (l.flatMap Extension.limits) ∧ ∃ front, b = front ++ rest ∧
        Clears (l.flatMap Extension.reserved) front (l.flatMap Extension.bytes) := by
  induction allowed generalizing code l b with
  | zero =>
      by_cases hcode : Extension.isNamedBy code = true
      · rw [readChain, if_pos hcode]
        constructor
        · intro h
          exact absurd h Reader.run_throw_ok
        · rintro ⟨hlink, hlen, hfollow, -⟩
          obtain rfl := List.length_eq_zero_iff.1 (Nat.le_zero.1 hlen)
          obtain rfl : code = last := hlink
          rw [followed_nil, hcode] at hfollow
          cases hfollow
      · exact run_readChain_ok_of_not_named (Bool.not_eq_true _ ▸ hcode)
  | succ allowed ih =>
      by_cases hcode : Extension.isNamedBy code = true
      · rw [run_readChain_of_named hcode]
        simp only [Extension.run_readAs_ok, ih]
        constructor
        · rintro ⟨e, _, m, ⟨rfl, hback, hfit, front, rfl, hc⟩, rfl, ⟨hf, rfl, rfl, rfl⟩ | ⟨hf, hm⟩⟩
          · refine ⟨⟨rfl, rfl⟩, Nat.le_add_left 1 allowed, followed_cons.2 (.inl ⟨hf, rfl⟩), by simpa, ?_, ?_⟩
            · simpa using hfit
            · exact ⟨front, rfl, by simpa using hc⟩
          · obtain ⟨hlink, hlen, hfollow, hbacks, hfits, back, rfl, hcs⟩ := hm
            refine ⟨⟨rfl, hlink⟩, Nat.succ_le_succ hlen, followed_cons.2 (.inr ⟨hf, hfollow⟩), ?_, ?_,
              front ++ back, by simp, ?_⟩
            · rw [List.forall_mem_cons]
              exact ⟨hback, hbacks⟩
            · rw [List.flatMap_cons, fit_append]
              exact ⟨hfit, hfits⟩
            · exact hc.append hcs
        · rintro ⟨hlink, hlen, hfollow, hbacks, hfits, front, rfl, hc⟩
          cases l with
          | nil =>
              obtain rfl : code = last := hlink
              rw [followed_nil, hcode] at hfollow
              cases hfollow
          | cons e m =>
              obtain ⟨rfl, hlink⟩ := hlink
              rw [List.forall_mem_cons] at hbacks
              rw [List.flatMap_cons, fit_append] at hfits
              rw [List.flatMap_cons, List.flatMap_cons,
                Clears.append_iff (e.clears_bytes hfits.1).1] at hc
              obtain ⟨front, back, rfl, hc, hcs⟩ := hc
              refine ⟨e, back ++ rest, m, ⟨rfl, hbacks.1, hfits.1, front, by simp, hc⟩, rfl, ?_⟩
              rcases followed_cons.1 hfollow with ⟨hf, rfl⟩ | ⟨hf, hfollow⟩
              · obtain rfl := List.length_eq_zero_iff.1 hcs.1.symm
                exact .inl ⟨hf, rfl, hlink.symm, rfl⟩
              · exact .inr ⟨hf, hlink, Nat.le_of_succ_le_succ hlen, hfollow, hbacks.2, hfits.2, back, rfl, hcs⟩
      · exact run_readChain_ok_of_not_named (Bool.not_eq_true _ ▸ hcode)

end PacketWatch.Packet
