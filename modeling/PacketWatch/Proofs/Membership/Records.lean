import PacketWatch.Membership
import PacketWatch.Proofs.Wire.Spelling

namespace PacketWatch

open Wire

namespace Address

variable {width : Nat}

def bytes (a : Address width) : Bytes := a.octets.toList

theorem length_bytes (a : Address width) : a.bytes.length = width := by
  simp [bytes]

theorem length_flatMap_bytes (l : List (Address width)) :
    (l.flatMap bytes).length = width * l.length := by
  induction l with
  | nil => rfl
  | cons a l ih =>
      rw [List.flatMap_cons, List.length_append, ih, length_bytes, List.length_cons, Nat.mul_succ,
        Nat.add_comm]

theorem puts_write (a : Address width) : a.write.Puts [] a.bytes := Writer.puts_bytes _

theorem puts_writeAll (l : List (Address width)) : Writer.Puts (l.forM write) [] (l.flatMap bytes) := by
  have h := Writer.puts_forM puts_write l
  rwa [List.flatMap_eq_nil_iff.2 (by simp)] at h

theorem run_read_ok {b rest : Bytes} {a : Address width} :
    read.run b = .ok (a, rest) ↔ b = a.bytes ++ rest := by
  rw [read]
  simp only [Reader.run_bind_ok, Reader.run_octets_ok, Reader.run_pure_ok]
  constructor
  · rintro ⟨x, left, rfl, rfl, rfl⟩
    rfl
  · rintro rfl
    exact ⟨a.octets, rest, rfl, rfl, rfl⟩

theorem run_times_read_ok {b rest : Bytes} {n : Nat} {l : List (Address width)} :
    (Reader.times read n).run b = .ok (l, rest) ↔ l.length = n ∧ b = l.flatMap bytes ++ rest := by
  rw [Reader.run_times_ok (P := fun _ => True) (f := bytes) (by simp [run_read_ok])]
  simp

end Address

variable {p : Protocol}

namespace Querier

def limits (q : Querier p) : List EncodeError :=
  [⟨.robustness, q.robustness.toNat, 7⟩, ⟨.sourceCount p, q.sources.length, 0xffff⟩]

def bytes (q : Querier p) : Bytes :=
  digits 1 (8 * q.suppress.toNat + q.robustness.toNat) ++
    ([q.interval] ++ (digits 2 q.sources.length ++ q.sources.flatMap Address.bytes))

def reserved (q : Querier p) : Bytes := [0xf0] ++ kept (3 + p.addressWidth * q.sources.length)

theorem length_bytes (q : Querier p) : q.bytes.length = q.size := by
  simp only [bytes, size, List.length_append, length_digits, Address.length_flatMap_bytes,
    List.length_singleton]
  omega

theorem puts_write (q : Querier p) : q.write.Puts q.limits q.bytes :=
  (Writer.puts_fit _ _ _).bind <| (Writer.puts_fit _ _ _).bind <| (Writer.puts_word _ _).bind <|
    (Writer.puts_u8 _).bind <| (Writer.puts_word _ _).bind <| Address.puts_writeAll q.sources

/-- The flag byte, from the bits of the byte that was read. -/
theorem clears_flags_iff {suppress : Bool} {robustness : UInt8} {x : Bytes} :
    Clears [0xf0] x (digits 1 (8 * suppress.toNat + robustness.toNat)) ∧ robustness.toNat ≤ 7 ↔
      ∃ f < 256, x = digits 1 f ∧ suppress = decide (f / 8 % 2 = 1) ∧
        robustness = UInt8.ofNat (f % 8) := by
  have hmask (y : UInt8) : (y &&& ~~~0xf0).toNat = y.toNat % 16 := by
    rw [UInt8.toNat_and]
    exact Nat.and_two_pow_sub_one_eq_mod y.toNat 4
  constructor
  · rintro ⟨⟨hl, hc⟩, hr⟩
    obtain ⟨y, rfl⟩ := List.length_eq_one_iff.1 hl.symm
    have hy : (y &&& ~~~0xf0) = UInt8.ofNat (8 * suppress.toNat + robustness.toNat) :=
      List.singleton_inj.1 hc
    have hn := congrArg UInt8.toNat hy
    rw [hmask, UInt8.toNat_ofNat'] at hn
    have hs := suppress.toNat_lt
    have hyt := y.toNat_lt
    refine ⟨y.toNat, hyt, (digits_one y).symm, ?_, ?_⟩
    · cases suppress <;> simp only [Bool.toNat_false, Bool.toNat_true] at hn <;> simp <;> omega
    · apply UInt8.toNat_inj.1
      rw [UInt8.toNat_ofNat']
      omega
  · rintro ⟨f, hf, rfl, rfl, rfl⟩
    have hr : (UInt8.ofNat (f % 8)).toNat = f % 8 := by
      rw [UInt8.toNat_ofNat']; omega
    rw [hr]
    refine ⟨⟨rfl, ?_⟩, by omega⟩
    apply List.singleton_inj.2
    apply UInt8.toNat_inj.1
    rw [hmask, UInt8.toNat_ofNat', UInt8.toNat_ofNat']
    by_cases hs : f / 8 % 2 = 1
    · simp only [hs, decide_true, Bool.toNat_true]; omega
    · simp only [hs, decide_false, Bool.toNat_false]; omega

theorem clears_iff {q : Querier p} {front : Bytes} : Clears q.reserved front q.bytes ↔
    ∃ x, front = x ++ ([q.interval] ++ (digits 2 q.sources.length ++ q.sources.flatMap Address.bytes)) ∧
      Clears [0xf0] x (digits 1 (8 * q.suppress.toNat + q.robustness.toNat)) := by
  rw [reserved, bytes, Clears.append_iff (m := [0xf0]) (length_digits 1 _).symm]
  simp only [Clears.kept_iff]
  constructor
  · rintro ⟨x, back, rfl, hx, rfl, -⟩
    exact ⟨x, rfl, hx⟩
  · rintro ⟨x, rfl, hx⟩
    refine ⟨x, _, rfl, hx, rfl, ?_⟩
    simp only [List.length_append, length_digits, Address.length_flatMap_bytes, List.length_singleton]
    omega

theorem clears_bytes (q : Querier p) (h : Fit q.limits) : Clears q.reserved q.bytes q.bytes := by
  simp only [limits, fit_cons, fit_nil, and_true] at h
  have hs := q.suppress.toNat_lt
  refine clears_iff.2 ⟨_, rfl, (clears_flags_iff.2 ⟨_, ?_, rfl, ?_, ?_⟩).1⟩
  · omega
  · cases hq : q.suppress <;> simp <;> omega
  · apply UInt8.toNat_inj.1
    rw [UInt8.toNat_ofNat']
    omega

/-- The newer part of a query is read if the input that began with the older part is long enough. -/
theorem run_read_ok {older : Nat} {start b rest : Bytes} {q : Querier p} :
    (read p older start).run b = .ok (q, rest) ↔ older + q.size ≤ start.length ∧ Fit q.limits ∧
      ∃ front, b = front ++ rest ∧ Clears q.reserved front q.bytes := by
  rw [read]
  simp only [Reader.run_bind_ok, Reader.run_word_ok, Reader.run_u8_ok, Reader.run_declare_ok,
    Address.run_times_read_ok, Reader.run_pure_ok]
  simp only [clears_iff]
  constructor
  · rintro ⟨f, _, ⟨hf, rfl⟩, interval, _, rfl, count, _, ⟨hcount, rfl⟩, _, _, ⟨hsize, rfl⟩, sources, _,
      ⟨rfl, rfl⟩, rfl, rfl⟩
    obtain ⟨hx, hr⟩ := clears_flags_iff.2 ⟨f, hf, rfl, rfl, rfl⟩
    refine ⟨by rwa [size, ← Nat.add_assoc], ?_, _, ?_, _, rfl, hx⟩
    · simp only [limits, fit_cons, fit_nil, and_true]
      exact ⟨hr, by omega⟩
    · simp
  · rintro ⟨hsize, hfit, _, rfl, x, rfl, hx⟩
    simp only [limits, fit_cons, fit_nil, and_true] at hfit
    obtain ⟨f, hf, rfl, hs, hr⟩ := clears_flags_iff.1 ⟨hx, hfit.1⟩
    refine ⟨f, _, ⟨hf, List.append_assoc _ _ _⟩, q.interval, _, rfl, q.sources.length, _,
      ⟨by omega, List.append_assoc _ _ _⟩, (), _, ⟨by rwa [size, ← Nat.add_assoc] at hsize, rfl⟩, q.sources,
      rest, ⟨rfl, rfl⟩, ?_, rfl⟩
    obtain ⟨suppress, robustness, interval, sources⟩ := q
    simp only at hs hr
    rw [← hs, ← hr]

/-- A newer query, as an older one and what stands behind it. The check of the length that goes first
asks for no more than the two of them have. -/
theorem run_readBehind_ok {α β : Type} {r : Reader α} {older : Nat} {mask : Bytes}
    {bytes : α → Bytes} {query : α → Querier p → β} (hlen : ∀ a, (bytes a).length = older)
    (hr : ∀ {b rest : Bytes} {a : α}, r.run b = .ok (a, rest) ↔
      ∃ front, b = front ++ rest ∧ Clears mask front (bytes a)) {b rest : Bytes} {x : β} :
    (do
      let start ← get
      Reader.need (older + 4)
      let base ← r
      let querier ← read p older start
      return query base querier : Reader β).run b = .ok (x, rest) ↔
      ∃ base querier, x = query base querier ∧ Fit querier.limits ∧ ∃ front back, b = front ++ back ++ rest ∧
        Clears mask front (bytes base) ∧ Clears querier.reserved back querier.bytes := by
  simp only [Reader.run_bind_ok, Reader.run_get_ok, Reader.run_need_ok, hr, run_read_ok,
    Reader.run_pure_ok]
  constructor
  · rintro ⟨_, _, ⟨rfl, rfl⟩, _, _, ⟨-, rfl⟩, base, _, ⟨front, rfl, hfront⟩, querier, _,
      ⟨-, hfit, back, rfl, hback⟩, rfl, rfl⟩
    exact ⟨base, querier, rfl, hfit, front, back, (List.append_assoc _ _ _).symm, hfront, hback⟩
  · rintro ⟨base, querier, rfl, hfit, front, back, rfl, hfront, hback⟩
    have hfront' : front.length = older := by
      rw [← hfront.length_eq, hlen]
    have hback' : back.length = querier.size := by
      rw [← hback.length_eq, length_bytes]
    have hlength : (front ++ back ++ rest).length = older + querier.size + rest.length := by
      rw [List.length_append, List.length_append, hfront', hback']
    refine ⟨_, _, ⟨rfl, rfl⟩, (), _, ⟨?_, rfl⟩, base, _, ⟨front, List.append_assoc _ _ _, hfront⟩, querier, _,
      ⟨?_, hfit, back, rfl, hback⟩, rfl, rfl⟩
    · rw [hlength, size]; omega
    · rw [hlength]; omega

end Querier

namespace GroupRecord

def limits (r : GroupRecord p) : List EncodeError :=
  [⟨.auxLength p, r.aux.length, 0xff⟩, ⟨.sourceCount p, r.sources.length, 0xffff⟩]

def auxBytes (aux : List UInt32) : Bytes := aux.flatMap fun w => digits 4 w.toNat

def bytes (r : GroupRecord p) : Bytes :=
  [r.kind] ++ (digits 1 r.aux.length ++ (digits 2 r.sources.length ++
    (r.group.bytes ++ (r.sources.flatMap Address.bytes ++ auxBytes r.aux))))

theorem length_auxBytes (aux : List UInt32) : (auxBytes aux).length = 4 * aux.length := by
  induction aux with
  | nil => rfl
  | cons w aux ih =>
      rw [auxBytes, List.flatMap_cons, List.length_append, length_digits, ← auxBytes, ih, List.length_cons]
      omega

theorem length_bytes (r : GroupRecord p) : r.bytes.length = r.size := by
  simp only [bytes, size, minSize, List.length_append, length_digits, Address.length_flatMap_bytes,
    Address.length_bytes, length_auxBytes, List.length_singleton]
  omega

theorem puts_write (r : GroupRecord p) : r.write.Puts r.limits r.bytes := by
  have haux : Writer.Puts (r.aux.forM Writer.u32) [] (auxBytes r.aux) := by
    have h := Writer.puts_forM Writer.puts_u32 r.aux
    rwa [List.flatMap_eq_nil_iff.2 (by simp)] at h
  exact (Writer.puts_fit _ _ _).bind <| (Writer.puts_fit _ _ _).bind <| (Writer.puts_u8 _).bind <|
    (Writer.puts_word _ _).bind <| (Writer.puts_word _ _).bind <| r.group.puts_write.bind <|
      (Address.puts_writeAll r.sources).bind haux

theorem run_read_ok {b rest : Bytes} {r : GroupRecord p} :
    read.run b = .ok (r, rest) ↔ Fit r.limits ∧ b = r.bytes ++ rest := by
  have haux {n : Nat} {b rest : Bytes} {l : List UInt32} :
      (Reader.times Reader.u32 n).run b = .ok (l, rest) ↔ l.length = n ∧ b = auxBytes l ++ rest := by
    rw [Reader.run_times_ok (P := fun _ => True) (f := fun w => digits 4 w.toNat)
      (by simp [Reader.run_u32_ok])]
    simp [auxBytes]
  rw [read]
  simp only [Reader.run_bind_ok, Reader.run_get_ok, Reader.run_need_ok, Reader.run_word_ok,
    Reader.run_u8_ok, Reader.run_declare_ok, Address.run_read_ok, Address.run_times_read_ok, haux,
    Reader.run_pure_ok]
  simp only [limits, fit_cons, fit_nil, and_true]
  constructor
  · rintro ⟨_, _, ⟨rfl, rfl⟩, _, _, ⟨-, rfl⟩, kind, _, rfl, words, _, ⟨hwords, rfl⟩, count, _,
      ⟨hcount, rfl⟩, _, _, ⟨-, rfl⟩, group, _, rfl, sources, _, ⟨rfl, rfl⟩, aux, _, ⟨rfl, rfl⟩, rfl, rfl⟩
    refine ⟨⟨by simp only; omega, by simp only; omega⟩, ?_⟩
    simp [bytes]
  · rintro ⟨⟨hwords, hcount⟩, rfl⟩
    have hlen : (r.bytes ++ rest).length = r.size + rest.length := by
      rw [List.length_append, length_bytes]
    have hb : r.bytes ++ rest = r.kind :: (digits 1 r.aux.length ++ (digits 2 r.sources.length ++
        (r.group.bytes ++ (r.sources.flatMap Address.bytes ++ (auxBytes r.aux ++ rest))))) := by
      simp [bytes]
    refine ⟨_, _, ⟨rfl, rfl⟩, (), _, ⟨?_, rfl⟩, r.kind, _, hb, r.aux.length, _, ⟨by omega, rfl⟩,
      r.sources.length, _, ⟨by omega, rfl⟩, (), _, ⟨?_, rfl⟩, r.group, _, rfl, r.sources, _, ⟨rfl, rfl⟩,
      r.aux, _, ⟨rfl, rfl⟩, rfl, rfl⟩
    · rw [hlen, size]; omega
    · rw [hlen, size]; omega

instance : Spelling (GroupRecord p) :=
  .ofExact limits bytes (fun _ _ => True) puts_write length_bytes <| by
    intro b rest r
    rw [true_and]
    exact run_read_ok

/-! The records of a report, with the reserved word and the count in front of them. -/

def listLimits (l : List (GroupRecord p)) : List EncodeError :=
  ⟨.recordCount p, l.length, 0xffff⟩ :: l.flatMap limits

def listBytes (l : List (GroupRecord p)) : Bytes :=
  digits 2 0 ++ (digits 2 l.length ++ l.flatMap bytes)

def listReserved (l : List (GroupRecord p)) : Bytes := ignored 2 ++ kept (2 + total size l)

theorem length_flatMap_bytes (l : List (GroupRecord p)) : (l.flatMap bytes).length = total size l := by
  induction l with
  | nil => rfl
  | cons r l ih => rw [List.flatMap_cons, List.length_append, ih, length_bytes, total_cons]

theorem minSize_mul_le (l : List (GroupRecord p)) : minSize p * l.length ≤ total size l := by
  induction l with
  | nil => simp
  | cons r l ih =>
      rw [List.length_cons, Nat.mul_succ, total_cons]
      have hr : minSize p ≤ r.size := by rw [size]; omega
      omega

theorem length_listBytes (l : List (GroupRecord p)) : (listBytes l).length = listSize l := by
  simp only [listBytes, listSize, List.length_append, length_digits, length_flatMap_bytes]
  omega

theorem puts_writeList (l : List (GroupRecord p)) :
    (writeList l).Puts (listLimits l) (listBytes l) :=
  (Writer.puts_fit _ _ _).bind <| (Writer.puts_word _ _).bind <| (Writer.puts_word _ _).bind <|
    Writer.puts_forM puts_write l

theorem clears_listBytes_iff {l : List (GroupRecord p)} {front : Bytes} :
    Clears (listReserved l) front (listBytes l) ↔
      ∃ x : Bytes, x.length = 2 ∧ front = x ++ (digits 2 l.length ++ l.flatMap bytes) := by
  have hclean : (digits 2 l.length ++ l.flatMap bytes).length = 2 + total size l := by
    rw [List.length_append, length_digits, length_flatMap_bytes]
  rw [listReserved, listBytes, Clears.append_iff (m := ignored 2) (length_digits 2 0).symm]
  simp only [Clears.kept_iff, Clears.ignored_iff, hclean, and_true]
  constructor
  · rintro ⟨x, _, rfl, ⟨hx, -⟩, rfl⟩
    exact ⟨x, hx, rfl⟩
  · rintro ⟨x, hx, rfl⟩
    exact ⟨x, _, rfl, ⟨hx, rfl⟩, rfl⟩

/-- The records are read if the input that began with the report is long enough for the smallest
records of that number. -/
theorem run_readList_ok {start b rest : Bytes} {l : List (GroupRecord p)} :
    (readList p start).run b = .ok (l, rest) ↔ 8 + minSize p * l.length ≤ start.length ∧
      Fit (listLimits l) ∧ ∃ front, b = front ++ rest ∧ Clears (listReserved l) front (listBytes l) := by
  rw [readList]
  simp only [Reader.run_bind_ok, Reader.run_skip_ok, Reader.run_word_ok, Reader.run_declare_ok,
    Reader.run_times_ok run_read_ok, clears_listBytes_iff, listLimits, fit_cons, fit_flatMap]
  constructor
  · rintro ⟨_, _, ⟨x, hx, rfl⟩, _, _, ⟨hcount, rfl⟩, _, _, ⟨hsize, rfl⟩, rfl, hfit, rfl⟩
    refine ⟨hsize, ⟨by omega, hfit⟩, _, ?_, x, hx, rfl⟩
    simp
  · rintro ⟨hsize, ⟨hcount, hfit⟩, _, rfl, x, hx, rfl⟩
    refine ⟨(), _, ⟨x, hx, List.append_assoc _ _ _⟩, l.length, _, ⟨by omega, List.append_assoc _ _ _⟩, (), _,
      ⟨hsize, rfl⟩, rfl, hfit, rfl⟩

end GroupRecord

end PacketWatch
