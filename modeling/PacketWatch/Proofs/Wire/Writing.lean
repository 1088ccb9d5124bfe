import PacketWatch.Proofs.Wire.Digits
import PacketWatch.Wire.Format

namespace PacketWatch

/-- The first of the given limits that is exceeded. A limit is kept as the error that tells of it. -/
def firstExceeded (limits : List EncodeError) : Option EncodeError :=
  limits.find? fun l => l.max < l.value

def Fit (limits : List EncodeError) : Prop := ∀ l ∈ limits, l.value ≤ l.max

theorem firstExceeded_eq_none {limits : List EncodeError} :
    firstExceeded limits = none ↔ Fit limits := by
  simp [firstExceeded, Fit]

theorem firstExceeded_append (l m : List EncodeError) :
    firstExceeded (l ++ m) = (firstExceeded l).or (firstExceeded m) := List.find?_append

@[simp] theorem fit_nil : Fit [] := by simp [Fit]

@[simp] theorem fit_cons {l : EncodeError} {m : List EncodeError} :
    Fit (l :: m) ↔ l.value ≤ l.max ∧ Fit m := by simp [Fit]

@[simp] theorem fit_append {l m : List EncodeError} : Fit (l ++ m) ↔ Fit l ∧ Fit m := by
  simp [Fit, or_imp, forall_and]

@[simp] theorem fit_flatMap {α : Type} {f : α → List EncodeError} {l : List α} :
    Fit (l.flatMap f) ↔ ∀ a ∈ l, Fit (f a) := by
  simp only [Fit, List.mem_flatMap]
  grind

namespace Writer

/-- A writer fails with the first limit that is exceeded and else appends the given bytes, whatever
has been written before. -/
def Puts (w : Writer Unit) (limits : List EncodeError) (b : Bytes) : Prop :=
  ∀ buffer, w.run buffer = match firstExceeded limits with
    | some e => .error e
    | none => .ok ((), buffer ++ b)

theorem append_nil (buffer : Array UInt8) : buffer ++ ([] : Bytes) = buffer :=
  Array.toList_inj.1 (by simp)

theorem append_append (buffer : Array UInt8) (b c : Bytes) : buffer ++ b ++ c = buffer ++ (b ++ c) :=
  Array.toList_inj.1 (by simp)

theorem puts_pure : Puts (pure ()) [] [] := by
  intro buffer
  rw [append_nil]
  rfl

theorem puts_bytes (b : Bytes) : Puts (bytes b) [] b := fun _ => rfl

theorem puts_word (width n : Nat) : Puts (word width n) [] (Wire.digits width n) := puts_bytes _

theorem puts_u8 (x : UInt8) : Puts (u8 x) [] [x] := by
  rw [← Wire.digits_one]
  exact puts_word 1 x.toNat

theorem puts_u16 (x : UInt16) : Puts (u16 x) [] (Wire.digits 2 x.toNat) := puts_word 2 x.toNat

theorem puts_u32 (x : UInt32) : Puts (u32 x) [] (Wire.digits 4 x.toNat) := puts_word 4 x.toNat

theorem puts_fit (field : Field) (n max : Nat) : Puts (fit field n max) [⟨field, n, max⟩] [] := by
  intro buffer
  by_cases h : n ≤ max
  · have hn : firstExceeded [⟨field, n, max⟩] = none := by simpa [firstExceeded] using h
    rw [hn, fit, if_pos h, StateT.run_pure]
    rfl
  · have hn : firstExceeded [⟨field, n, max⟩] = some ⟨field, n, max⟩ := by
      simpa [firstExceeded] using Nat.lt_of_not_le h
    rw [hn, fit, if_neg h]
    rfl

theorem Puts.bind {v w : Writer Unit} {l m : List EncodeError} {b c : Bytes}
    (hv : v.Puts l b) (hw : w.Puts m c) : (v >>= fun _ => w).Puts (l ++ m) (b ++ c) := by
  intro buffer
  rw [StateT.run_bind, hv buffer, firstExceeded_append]
  cases firstExceeded l with
  | some e => rfl
  | none =>
      change w.run (buffer ++ b) = _
      rw [hw, append_append]
      rfl

theorem Puts.of_eq {w : Writer Unit} {l m : List EncodeError} {b c : Bytes}
    (h : w.Puts l b) (hl : m = l) (hb : c = b) : w.Puts m c := by
  rwa [hl, hb]

theorem puts_forM {α : Type} {write : α → Writer Unit} {limits : α → List EncodeError}
    {encoded : α → Bytes} (h : ∀ a, (write a).Puts (limits a) (encoded a)) (l : List α) :
    Puts (l.forM write) (l.flatMap limits) (l.flatMap encoded) := by
  induction l with
  | nil => exact puts_pure
  | cons a l ih =>
      rw [List.flatMap_cons, List.flatMap_cons]
      exact (h a).bind ih

end Writer

end PacketWatch
