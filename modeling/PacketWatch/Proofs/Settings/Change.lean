import Mathlib.Data.List.Nodup
import PacketWatch.Settings.Basic

namespace PacketWatch

namespace Setting

def range : Setting → Set Nat
  | readBufferSize => {n | 1024 ≤ n ∧ n ≤ 1048576}
  | inboundCapacity | outboundCapacity => {n | 1 ≤ n}
  | maxMessageSize => Set.univ

def clamp : Setting → Nat → Nat
  | readBufferSize, n => max 1024 (min n 1048576)
  | inboundCapacity, n | outboundCapacity, n => max n 1
  | maxMessageSize, n => n

variable {k : Setting} {n : Nat}

theorem clamp_mem_range (k : Setting) (n : Nat) : k.clamp n ∈ k.range := by
  cases k with
  | readBufferSize => exact ⟨Nat.le_max_left _ _, Nat.max_le.2 ⟨by decide, Nat.min_le_right _ _⟩⟩
  | inboundCapacity | outboundCapacity => exact Nat.le_max_right n 1
  | maxMessageSize => trivial

theorem clamp_eq_self_iff : k.clamp n = n ↔ n ∈ k.range := by
  constructor
  · intro h
    rw [← h]
    exact clamp_mem_range k n
  · intro h
    cases k with
    | readBufferSize =>
        obtain ⟨hleast, hmost⟩ := h
        rw [clamp, Nat.min_eq_left hmost, Nat.max_eq_right hleast]
    | inboundCapacity | outboundCapacity => exact Nat.max_eq_left h
    | maxMessageSize => rfl

instance (k : Setting) (n : Nat) : Decidable (n ∈ k.range) := decidable_of_iff _ clamp_eq_self_iff

theorem clamp_clamp (k : Setting) (n : Nat) : k.clamp (k.clamp n) = k.clamp n :=
  clamp_eq_self_iff.2 (clamp_mem_range k n)

theorem mem_all (k : Setting) : k ∈ all := by
  cases k <;> decide

theorem nodup_all : all.Nodup := by decide

end Setting

namespace Settings

variable {s t : Settings} {changes : List (Setting × Nat)}

def InRange (s : Settings) : Prop := ∀ k : Setting, s.get k ∈ k.range

theorem ext_get (h : ∀ k, s.get k = t.get k) : s = t := by
  cases s
  cases t
  have hread := h .readBufferSize
  have hinbound := h .inboundCapacity
  have houtbound := h .outboundCapacity
  have hmost := h .maxMessageSize
  simp only [get] at hread hinbound houtbound hmost
  rw [hread, hinbound, houtbound, hmost]

theorem get_set (s : Settings) (j k : Setting) (n : Nat) :
    (s.set j n).get k = if k = j then n else s.get k := by
  cases j <;> cases k <;> rfl

theorem get_clamped (s : Settings) (k : Setting) : s.clamped.get k = k.clamp (s.get k) := by
  cases k <;> rfl

theorem inRange_clamped (s : Settings) : s.clamped.InRange := by
  intro k
  rw [get_clamped]
  exact k.clamp_mem_range _

theorem inRange_iff_clamped : s.InRange ↔ s.clamped = s := by
  constructor
  · intro h
    refine ext_get fun k => ?_
    rw [get_clamped, Setting.clamp_eq_self_iff.2 (h k)]
  · intro h
    rw [← h]
    exact inRange_clamped s

theorem inRange_default : ({} : Settings).InRange := by
  intro k
  cases k <;> decide

theorem inRange_set (hs : s.InRange) (k : Setting) (n : Nat) : (s.set k (k.clamp n)).InRange := by
  intro j
  rw [get_set]
  split
  · next hj => exact hj ▸ k.clamp_mem_range n
  · exact hs j

theorem clamped_clamped (s : Settings) : s.clamped.clamped = s.clamped :=
  inRange_iff_clamped.1 s.inRange_clamped

/-- Where no setting is changed twice, each has the value it is changed to. -/
theorem get_foldl_set (hnodup : (changes.map Prod.fst).Nodup) (s : Settings) (k : Setting) :
    (changes.foldl (fun s (k, n) => s.set k n) s).get k = (changes.lookup k).getD (s.get k) := by
  induction changes generalizing s with
  | nil => rfl
  | cons change changes ih =>
      obtain ⟨j, n⟩ := change
      rw [List.map_cons, List.nodup_cons] at hnodup
      rw [List.foldl_cons, ih hnodup.2, get_set, List.lookup_cons]
      by_cases hk : k = j
      · subst hk
        -- no later change overwrites this one, so that the first one in the list decides
        have hlast : changes.lookup k = none := by
          rw [List.lookup_eq_none_iff]
          intro c hc
          have hne : k ≠ c.1 := by
            rintro rfl
            exact hnodup.1 (List.mem_map.2 ⟨c, hc, rfl⟩)
          simpa using hne
        simp [hlast]
      · have hkey : (k == j) = false := beq_false_of_ne hk
        rw [hkey, if_neg hk]

theorem get_change (hnodup : (changes.map Prod.fst).Nodup) (s : Settings) (k : Setting) :
    (s.change changes).get k = k.clamp ((changes.lookup k).getD (s.get k)) := by
  rw [change, get_clamped, get_foldl_set hnodup]

theorem inRange_change (s : Settings) (changes : List (Setting × Nat)) : (s.change changes).InRange :=
  inRange_clamped _

end Settings

end PacketWatch
