import Mathlib.Data.List.GetD
import PacketWatch.Wire.Basic

namespace PacketWatch.Wire

def clear (mask b : Bytes) : Bytes := List.zipWith (fun m x => x &&& ~~~m) mask b

def clearAt (bits : Nat → UInt8) (b : Bytes) : Bytes := b.mapIdx fun i x => x &&& ~~~bits i

def masked (mask b : Bytes) : Bytes := List.zipWith (· &&& ·) mask b

abbrev kept (n : Nat) : Bytes := List.replicate n 0

abbrev ignored (n : Nat) : Bytes := List.replicate n 0xff

/-- A byte string that is as long as the mask is `clean` when its reserved bits are cleared. -/
def Clears (mask b clean : Bytes) : Prop := mask.length = b.length ∧ clear mask b = clean

theorem length_clear (mask b : Bytes) : (clear mask b).length = min mask.length b.length := by
  simp [clear]

theorem clear_replicate (m : UInt8) (b : Bytes) :
    clear (List.replicate b.length m) b = b.map (· &&& ~~~m) := by
  induction b with
  | nil => rfl
  | cons x b ih =>
      rw [clear, List.length_cons, List.replicate_succ, List.zipWith_cons_cons, ← clear, ih]
      rfl

theorem clear_eq_clearAt {mask b : Bytes} (h : mask.length = b.length) :
    clear mask b = clearAt (fun i => mask.getD i 0) b := by
  apply List.ext_getElem
  · rw [length_clear, h, Nat.min_self, clearAt, List.length_mapIdx]
  · intro i hi hi'
    rw [clearAt, List.length_mapIdx] at hi'
    simp only [clear, clearAt, List.getElem_zipWith, List.getElem_mapIdx]
    rw [List.getD_eq_getElem _ _ (h ▸ hi')]

theorem getD_replicate_append (k : Nat) (m : UInt8) (mask : Bytes) (i : Nat) :
    (List.replicate k m ++ mask).getD i 0 = if i < k then m else mask.getD (i - k) 0 := by
  by_cases hi : i < k
  · rw [if_pos hi, List.getD_append _ _ _ _ (by rwa [List.length_replicate]), List.getD_replicate _ hi]
  · rw [if_neg hi, List.getD_append_right _ _ _ _ (by rwa [List.length_replicate, ← Nat.not_lt]),
      List.length_replicate]

theorem getD_kept (k i : Nat) : (kept k).getD i 0 = 0 := by
  by_cases hi : i < k
  · exact List.getD_replicate _ hi
  · exact List.getD_eq_default _ _ (by rwa [List.length_replicate, ← Nat.not_lt])

theorem and_not_eq_self {x m : UInt8} (h : x &&& m = 0) : x &&& ~~~m = x := by
  have hm : x &&& (m ||| ~~~m) = (x &&& m) ||| (x &&& ~~~m) :=
    UInt8.toBitVec_inj.1 BitVec.and_or_distrib_left
  rwa [h, UInt8.zero_or, UInt8.or_not_self, UInt8.and_neg_one, eq_comm] at hm

namespace Clears

variable {m n b c clean : Bytes}

theorem length_eq (h : Clears m b clean) : clean.length = b.length := by
  obtain ⟨hl, rfl⟩ := h
  simp [length_clear, hl]

theorem append {clean' : Bytes} (hb : Clears m b clean) (hc : Clears n c clean') :
    Clears (m ++ n) (b ++ c) (clean ++ clean') := by
  obtain ⟨hm, rfl⟩ := hb
  obtain ⟨hn, rfl⟩ := hc
  refine ⟨by simp [hm, hn], ?_⟩
  exact List.zipWith_append hm

/-- Where the mask is cut, the byte string and its clean form are cut too. -/
theorem append_iff {clean' : Bytes} (hm : m.length = clean.length) :
    Clears (m ++ n) b (clean ++ clean') ↔
      ∃ front back, b = front ++ back ∧ Clears m front clean ∧ Clears n back clean' := by
  constructor
  · intro h
    obtain ⟨hl, hc⟩ := h
    rw [List.length_append] at hl
    have hb : m.length = (b.take m.length).length := by
      rw [List.length_take]; omega
    have hz : clear m (b.take m.length) ++ clear n (b.drop m.length) = clean ++ clean' := by
      rw [← hc, clear, clear, ← List.zipWith_append hb, List.take_append_drop, clear]
    have hf : (clear m (b.take m.length)).length = clean.length := by
      rw [length_clear, ← hb, Nat.min_self, hm]
    obtain ⟨h₁, h₂⟩ := List.append_inj hz hf
    refine ⟨b.take m.length, b.drop m.length, (List.take_append_drop _ _).symm, ⟨hb, h₁⟩, ?_, h₂⟩
    rw [List.length_drop]; omega
  · rintro ⟨front, back, rfl, hf, hb⟩
    exact hf.append hb

theorem kept_iff {k : Nat} : Clears (kept k) b clean ↔ b = clean ∧ clean.length = k := by
  have hclear : clear (kept b.length) b = b := by
    rw [clear_replicate]
    simp
  constructor
  · rintro ⟨hl, rfl⟩
    rw [List.length_replicate] at hl
    subst hl
    rw [hclear]
    exact ⟨rfl, rfl⟩
  · rintro ⟨rfl, rfl⟩
    exact ⟨List.length_replicate, hclear⟩

theorem ignored_iff {k : Nat} :
    Clears (ignored k) b clean ↔ b.length = k ∧ clean = List.replicate k 0 := by
  have hclear : clear (ignored b.length) b = List.replicate b.length 0 := by
    rw [clear_replicate, ← List.map_const']
    apply List.map_congr_left
    intro x _
    exact UInt8.and_zero
  constructor
  · rintro ⟨hl, rfl⟩
    rw [List.length_replicate] at hl
    subst hl
    exact ⟨rfl, hclear⟩
  · rintro ⟨rfl, rfl⟩
    exact ⟨List.length_replicate, hclear⟩

theorem eq_of_masked_eq_zero (h : Clears m b clean) (hz : ∀ x ∈ masked m b, x = 0) : clean = b := by
  obtain ⟨hl, rfl⟩ := h
  apply List.ext_getElem
  · rw [length_clear, hl, Nat.min_self]
  · intro i h₁ h₂
    simp only [clear, List.getElem_zipWith]
    apply and_not_eq_self
    rw [UInt8.and_comm]
    apply hz
    rw [masked, List.mem_iff_getElem]
    exact ⟨i, by simp only [List.length_zipWith]; omega, List.getElem_zipWith⟩

end Clears

end PacketWatch.Wire
