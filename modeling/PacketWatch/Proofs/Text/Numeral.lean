import PacketWatch.Text.Numeral

namespace PacketWatch.Text

/-! A number is read back from its decimal digits. -/

variable {c : Char} {cs : List Char} {n : Nat}

theorem digit?_of_isDigit (h : c.isDigit = true) : digit? 10 c = some (c.toNat - '0'.toNat) := by
  obtain ⟨hzero, hnine⟩ : '0' ≤ c ∧ c ≤ '9' := by
    rw [Char.isDigit, Bool.and_eq_true, decide_eq_true_eq, decide_eq_true_eq] at h
    exact h
  have hsmall : c.toNat - '0'.toNat < 10 := by
    have hle : c.toNat ≤ '9'.toNat := hnine
    have hcode : '9'.toNat = '0'.toNat + 9 := rfl
    omega
  simp only [digit?, hzero, hnine, and_self, if_true, Option.filter_some, hsmall, decide_true]

theorem foldlM_digit? (h : ∀ c ∈ cs, c.isDigit = true) (n : Nat) :
    cs.foldlM (fun n c => return 10 * n + (← digit? 10 c)) n = some (Nat.ofDigitChars 10 cs n) := by
  induction cs generalizing n with
  | nil => rfl
  | cons c cs ih =>
      rw [List.forall_mem_cons] at h
      rw [List.foldlM_cons, digit?_of_isDigit h.1, Nat.ofDigitChars_cons]
      exact ih h.2 _

theorem isDigit_of_mem_toDigits (h : c ∈ Nat.toDigits 10 n) : c.isDigit = true :=
  Nat.isDigit_of_mem_toDigits (by decide) (by decide) h

theorem numeral?_toDigits (n : Nat) : numeral? 10 (Nat.toDigits 10 n) = some n := by
  have hsome : (Nat.toDigits 10 n).isEmpty = false := by
    simp
  rw [numeral?, hsome, if_neg Bool.false_ne_true, foldlM_digit? fun c => isDigit_of_mem_toDigits,
    Nat.ofDigitChars_ten_toDigits]

theorem sizeIn?_toDigits (h : n ≤ maxSize) : sizeIn? 10 (Nat.toDigits 10 n) = some n := by
  rw [sizeIn?, numeral?_toDigits, Option.filter_some, if_pos (decide_eq_true h)]

/-- No zero stands in front of other digits. -/
theorem exists_toDigits_eq (n : Nat) : ∃ c cs, Nat.toDigits 10 n = c :: cs ∧ (c ≠ '0' ∨ cs = []) := by
  have hpositive (n : Nat) (hn : n ≠ 0) : ∃ c cs, Nat.toDigits 10 n = c :: cs ∧ c ≠ '0' := by
    -- the digits in front of the last one are those of a tenth, which is smaller
    induction n using Nat.strongRecOn with
    | _ n ih =>
        rw [Nat.toDigits_eq_if (by decide)]
        split
        · exact ⟨_, _, rfl, mt Nat.digitChar_eq_zero.1 hn⟩
        · obtain ⟨c, cs, hcs, hc⟩ := ih (n / 10) (by omega) (by omega)
          exact ⟨c, _, by rw [hcs, List.cons_append], hc⟩
  by_cases hn : n = 0
  · subst hn
    exact ⟨'0', [], Nat.toDigits_zero 10, .inr rfl⟩
  · obtain ⟨c, cs, hcs, hc⟩ := hpositive n hn
    exact ⟨c, cs, hcs, .inl hc⟩

end PacketWatch.Text
