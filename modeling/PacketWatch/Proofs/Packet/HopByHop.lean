import PacketWatch.Packet.Extension
import PacketWatch.Proofs.Wire.Spelling

namespace PacketWatch

open Wire

namespace HopOption

def limits : HopOption → List EncodeError
  | pad1 => []
  | tlv _ data => [⟨.optionLength, data.length, 0xff⟩]

def bytes : HopOption → Bytes
  | pad1 => [0]
  | tlv kind data => [kind] ++ (digits 1 data.length ++ data)

/-- An option of type zero is written like any other, but its type is read as a single zero byte. -/
def ReadsBack : HopOption → Prop
  | pad1 => True
  | tlv kind _ => kind ≠ 0

theorem length_bytes (o : HopOption) : o.bytes.length = o.size := by
  cases o with
  | pad1 => rfl
  | tlv kind data =>
      simp only [bytes, size, List.length_append, length_digits, List.length_singleton]
      omega

theorem length_flatMap_bytes (l : List HopOption) : (l.flatMap bytes).length = total size l := by
  induction l with
  | nil => rfl
  | cons o l ih => rw [List.flatMap_cons, List.length_append, ih, length_bytes, total_cons]

theorem puts_write (o : HopOption) : o.write.Puts o.limits o.bytes := by
  cases o with
  | pad1 => exact Writer.puts_u8 0
  | tlv kind data =>
      exact (Writer.puts_fit _ _ _).bind <| (Writer.puts_u8 _).bind <| (Writer.puts_word _ _).bind <|
        Writer.puts_bytes _

/-- One round of the option reader takes one option that ends inside the header. -/
theorem run_readUntil_step {length offset : Nat} (h : offset < length) {seen l : List HopOption}
    {b rest : Bytes} : (readUntil length offset seen).run b = .ok (l, rest) ↔
      ∃ o left, o.ReadsBack ∧ Fit o.limits ∧ offset + o.size ≤ length ∧ b = o.bytes ++ left ∧
        (readUntil length (offset + o.size) (o :: seen)).run left = .ok (l, rest) := by
  rw [readUntil, dif_pos h]
  simp only [Reader.run_bind_ok, Reader.run_u8_ok]
  constructor
  · rintro ⟨kind, left, rfl, hr⟩
    split at hr
    · next hk =>
      subst hk
      exact ⟨pad1, left, trivial, fit_nil, h, rfl, hr⟩
    · next hk =>
      simp only [Reader.run_minus_ok, Reader.run_unless_ok, Reader.run_bind_ok, Reader.run_word_ok,
        Reader.run_take_ok] at hr
      obtain ⟨_, _, ⟨-, rfl, rfl⟩, -, count, _, ⟨hcount, rfl⟩, hroom, data, left, ⟨rfl, rfl⟩, hr⟩ := hr
      refine ⟨tlv kind data, left, hk, ?_, ?_, ?_, ?_⟩
      · simp only [limits, fit_cons, fit_nil, and_true]
        omega
      · rw [size]; omega
      · simp [bytes]
      · rwa [size, ← Nat.add_assoc]
  · rintro ⟨o, left, hback, hfit, hroom, rfl, hr⟩
    cases o with
    | pad1 =>
        refine ⟨0, left, rfl, ?_⟩
        rw [if_pos rfl]
        exact hr
    | tlv kind data =>
        simp only [limits, fit_cons, fit_nil, and_true] at hfit
        rw [size] at hroom
        rw [size, ← Nat.add_assoc] at hr
        refine ⟨kind, digits 1 data.length ++ (data ++ left), by simp [bytes], ?_⟩
        rw [if_neg hback]
        simp only [Reader.run_minus_ok, Reader.run_unless_ok, Reader.run_bind_ok, Reader.run_word_ok,
          Reader.run_take_ok]
        exact ⟨_, _, ⟨by omega, rfl, rfl⟩, by omega, data.length, _, ⟨by omega, rfl⟩, by omega, data, left,
          ⟨rfl, rfl⟩, hr⟩

/-- Options are read up to the end of the header, and no further. -/
theorem run_readUntil_ok {length offset : Nat} (hle : offset ≤ length) {seen l : List HopOption}
    {b rest : Bytes} : (readUntil length offset seen).run b = .ok (l, rest) ↔
      ∃ m, l = seen.reverse ++ m ∧ (∀ o ∈ m, o.ReadsBack) ∧ Fit (m.flatMap limits) ∧
        offset + total size m = length ∧ b = m.flatMap bytes ++ rest := by
  induction hn : length - offset using Nat.strongRecOn generalizing offset seen b with
  | _ n ih =>
      by_cases h : offset < length
      · have hpos (o : HopOption) : 0 < o.size := by
          cases o <;> simp only [size] <;> omega
        rw [run_readUntil_step h]
        constructor
        · rintro ⟨o, left, hback, hfit, hroom, rfl, hr⟩
          have ho := hpos o
          obtain ⟨m, rfl, hm, hfits, rfl, rfl⟩ := (ih _ (by omega) hroom rfl).1 hr
          refine ⟨o :: m, by simp, ?_, ?_, ?_, by simp⟩
          · simpa using ⟨hback, hm⟩
          · rw [List.flatMap_cons, fit_append]
            exact ⟨hfit, hfits⟩
          · rw [total_cons, Nat.add_assoc]
        · rintro ⟨m, rfl, hm, hfits, hlen, rfl⟩
          cases m with
          | nil => simp at hlen; omega
          | cons o m =>
              have ho := hpos o
              rw [List.forall_mem_cons] at hm
              rw [List.flatMap_cons, fit_append] at hfits
              rw [total_cons, ← Nat.add_assoc] at hlen
              refine ⟨o, m.flatMap bytes ++ rest, hm.1, hfits.1, by omega, by simp, ?_⟩
              exact (ih _ (by omega) (by omega) rfl).2 ⟨m, by simp, hm.2, hfits.2, hlen, rfl⟩
      · rw [readUntil, dif_neg h, Reader.run_pure_ok]
        constructor
        · rintro ⟨rfl, rfl⟩
          exact ⟨[], by simp, by simp, by simp, by simp; omega, rfl⟩
        · rintro ⟨m, rfl, -, -, hlen, rfl⟩
          cases m with
          | nil => exact ⟨by simp, rfl⟩
          | cons o m =>
              have hpos : 0 < o.size := by
                cases o <;> simp only [size] <;> omega
              rw [total_cons] at hlen
              omega

end HopOption

namespace HopByHop

def limits (h : HopByHop) : List EncodeError :=
  ⟨.hopByHopLength, h.size / 8 - 1, 0xff⟩ :: h.options.flatMap HopOption.limits

def bytes (h : HopByHop) : Bytes :=
  [h.nextHeader] ++ (digits 1 (h.size / 8 - 1) ++ h.options.flatMap HopOption.bytes)

def ReadsBack (h : HopByHop) : Prop := ∀ o ∈ h.options, o.ReadsBack

theorem readsBack_iff {h : HopByHop} : h.ReadsBack ↔ ∀ data, .tlv 0 data ∉ h.options := by
  constructor
  · intro hback data hmem
    exact hback _ hmem rfl
  · intro hno o ho
    cases o with
    | pad1 => trivial
    | tlv kind data =>
        rintro rfl
        exact hno data ho

theorem length_bytes (h : HopByHop) : h.bytes.length = h.size := by
  simp only [bytes, size, List.length_append, length_digits, HopOption.length_flatMap_bytes,
    List.length_singleton]
  omega

theorem puts_write (h : HopByHop) : h.write.Puts h.limits h.bytes :=
  (Writer.puts_fit _ _ _).bind <| (Writer.puts_u8 _).bind <| (Writer.puts_word _ _).bind <|
    Writer.puts_forM HopOption.puts_write h.options

/-- Padding adds nothing to options that fill the header. -/
theorem ofOptions_of_dvd (nextHeader : UInt8) (options : List HopOption)
    (h : 8 ∣ 2 + total HopOption.size options) : ofOptions nextHeader options = ⟨nextHeader, options, h⟩ := by
  have hgap : pad8 (2 + total HopOption.size options) - (2 + total HopOption.size options) = 0 := by
    rw [pad8_of_dvd h, Nat.sub_self]
  simp only [ofOptions, hgap, HopOption.padding, List.append_nil]

theorem run_read_ok {b rest : Bytes} {h : HopByHop} :
    read.run b = .ok (h, rest) ↔ h.ReadsBack ∧ Fit h.limits ∧ b = h.bytes ++ rest := by
  rw [read]
  simp only [Reader.run_bind_ok, Reader.run_get_ok, Reader.run_need_ok, Reader.run_u8_ok,
    Reader.run_word_ok, Reader.run_declare_ok, Reader.run_pure_ok]
  constructor
  · rintro ⟨_, _, ⟨rfl, rfl⟩, _, _, ⟨-, rfl⟩, nextHeader, _, rfl, units, _, ⟨hunits, rfl⟩, _, _, ⟨-, rfl⟩,
      options, _, hr, rfl, rfl⟩
    obtain ⟨_, rfl, hback, hfit, hlen, rfl⟩ := (HopOption.run_readUntil_ok (by omega)).1 hr
    rw [ofOptions_of_dvd nextHeader options ⟨units + 1, hlen⟩]
    have hsize : (8 * (units + 1)) / 8 - 1 = units := by omega
    refine ⟨hback, ?_, ?_⟩
    · simp only [limits, fit_cons, size, hlen, hsize]
      exact ⟨by omega, hfit⟩
    · simp [bytes, size, hlen]
  · rintro ⟨hback, hfit, rfl⟩
    simp only [limits, fit_cons] at hfit
    obtain ⟨k, hk⟩ := h.aligned
    have hsize : h.size = 8 * (h.size / 8 - 1 + 1) := by
      rw [size]; omega
    have hlen : (h.bytes ++ rest).length = h.size + rest.length := by
      rw [List.length_append, length_bytes]
    have hb : h.bytes ++ rest = h.nextHeader :: (digits 1 (h.size / 8 - 1) ++
        (h.options.flatMap HopOption.bytes ++ rest)) := by
      simp [bytes]
    refine ⟨_, _, ⟨rfl, rfl⟩, (), _, ⟨by omega, rfl⟩, h.nextHeader, _, hb, h.size / 8 - 1, _,
      ⟨by omega, rfl⟩, (), _, ⟨by omega, rfl⟩, h.options, rest, ?_, ?_, rfl⟩
    · exact (HopOption.run_readUntil_ok (by omega)).2 ⟨h.options, rfl, hback, hfit.2, hsize, rfl⟩
    · exact (ofOptions_of_dvd h.nextHeader h.options h.aligned).symm

instance : Spelling HopByHop :=
  .ofExact limits bytes (fun h _ => h.ReadsBack) puts_write length_bytes run_read_ok

end HopByHop

end PacketWatch
