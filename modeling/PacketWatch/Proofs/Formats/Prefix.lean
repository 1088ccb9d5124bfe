import PacketWatch.Proofs.Formats.Lengths
import PacketWatch.Proofs.Wire.Failing

namespace PacketWatch

open Wire

def decodeAll (α : Type) [WireFormat α] (b : Bytes) : List α × Bytes :=
  match decode α b with
  | .error _ => ([], b)
  | .ok (a, n) =>
    if _h : 0 < n ∧ n ≤ b.length then
      (a :: (decodeAll α (b.drop n)).1, (decodeAll α (b.drop n)).2)
    else ([], b)
termination_by b.length
decreasing_by
  all_goals
    rw [List.length_drop]
    omega

structure PrefixCode (α : Type) [WireFormat α] (fixedPart : Nat) : Prop where
  /-- An encoding is decoded to its value, whatever follows. -/
  decode_append : ∀ (a : α) (w s : Bytes), encode a = .ok w →
    decode α (w ++ s) = .ok (a, WireFormat.size a)
  /-- An encoding that is cut short is not decoded at all. -/
  decode_take : ∀ (a : α) (w : Bytes), encode a = .ok w → ∀ k < w.length,
    ∃ e, decode α (w.take k) = .error e ∧ (k < fixedPart → e = .truncated fixedPart k)
  /-- Values that are put into one buffer are found there again, and nothing else is. -/
  decodeAll_appendAll : ∀ l : List α, (∀ a ∈ l, ∃ w, encode a = .ok w) →
    ∃ buffer, l.foldlM append #[] = .ok buffer ∧ decodeAll α buffer.toList = (l, [])

section Encodings

variable {α : Type} [WireFormat α] {a : α} {b : Bytes} {n : Nat}

theorem decodeAll_of_error {e : DecodeError} (h : decode α b = .error e) : decodeAll α b = ([], b) := by
  rw [decodeAll, h]

theorem decodeAll_of_ok (h : decode α b = .ok (a, n)) (hpos : 0 < n) (hle : n ≤ b.length) :
    decodeAll α b = (a :: (decodeAll α (b.drop n)).1, (decodeAll α (b.drop n)).2) := by
  rw [decodeAll, h]
  simp only [hpos, hle, and_self, dite_true]

end Encodings

namespace Spelling

def SelfDelimiting (α : Type) [WireFormat α] [Spelling α] : Prop := ∀ (a : α) n, ReadsBack a n

variable {α : Type} [WireFormat α] [Spelling α] {a : α} {b w : Bytes} {fixedPart k n : Nat}

/-- What has been decoded stays the same when more follows. -/
theorem decode_append_of_decode (hself : SelfDelimiting α) (h : decode α b = .ok (a, n)) (s : Bytes) :
    decode α (b ++ s) = .ok (a, n) := by
  obtain ⟨hn, hle, -, hf, hc⟩ := decode_ok_iff_clears.1 h
  rw [decode_ok_iff_clears, List.take_append_of_le_length hle, List.length_append]
  exact ⟨hn, by omega, hself a _, hf, hc⟩

theorem decode_append_of_encode (hself : SelfDelimiting α) (h : encode a = .ok w) (s : Bytes) :
    decode α (w ++ s) = .ok (a, WireFormat.size a) :=
  (decode_append_iff h s).2 (hself a _)

theorem exists_error_of_take (hself : SelfDelimiting α) (h : encode a = .ok w) (hk : k < w.length) :
    ∃ e, decode α (w.take k) = .error e := by
  cases hd : decode α (w.take k) with
  | error e => exact ⟨e, rfl⟩
  | ok p =>
      -- The whole is decoded to what the front is decoded to, and that takes up the whole.
      obtain ⟨c, n⟩ := p
      have hfront := decode_append_of_decode hself hd (w.drop k)
      have hwhole := decode_append_of_encode hself h []
      rw [List.take_append_drop] at hfront
      rw [List.append_nil, hfront] at hwhole
      cases hwhole
      have hle := le_length_of_decode hd
      rw [List.length_take, ← length_of_encode h] at hle
      omega

theorem size_pos_of_encode (hself : SelfDelimiting α) (hnil : ∃ e, decode α [] = .error e)
    (h : encode a = .ok w) : 0 < WireFormat.size a := by
  rw [← length_of_encode h]
  by_contra hzero
  obtain rfl := List.length_eq_zero_iff.1 (Nat.eq_zero_of_not_pos hzero)
  obtain ⟨e, he⟩ := hnil
  have hd := decode_append_of_encode hself h []
  rw [List.append_nil, he] at hd
  cases hd

theorem decodeAll_flatten (hself : SelfDelimiting α) (hnil : ∃ e, decode α [] = .error e) {l : List α}
    {encodings : List Bytes} (h : l.map encode = encodings.map .ok) :
    decodeAll α encodings.flatten = (l, []) := by
  induction l generalizing encodings with
  | nil =>
      obtain ⟨e, he⟩ := hnil
      rw [List.map_eq_nil_iff.1 h.symm, List.flatten_nil]
      exact decodeAll_of_error he
  | cons a l ih =>
      cases encodings with
      | nil => cases h
      | cons w encodings =>
          rw [List.map_cons, List.map_cons, List.cons.injEq] at h
          obtain ⟨ha, hl⟩ := h
          have hd := decode_append_of_encode hself ha encodings.flatten
          have hw := length_of_encode ha
          have hle : WireFormat.size a ≤ (w ++ encodings.flatten).length := by
            rw [List.length_append]
            omega
          rw [List.flatten_cons, decodeAll_of_ok hd (size_pos_of_encode hself hnil ha) hle, ← hw,
            List.drop_left, ih hl]

theorem prefixCode (hself : SelfDelimiting α) (hpos : 0 < fixedPart)
    (hshort : ∀ b : Bytes, b.length < fixedPart → decode α b = .error (.truncated fixedPart b.length)) :
    PrefixCode α fixedPart where
  decode_append _ _ s h := decode_append_of_encode hself h s
  decode_take a w h k hk := by
    obtain ⟨e, he⟩ := exists_error_of_take hself h hk
    refine ⟨e, he, fun hfixed => ?_⟩
    have hlen : (w.take k).length = k := List.length_take_of_le (Nat.le_of_lt hk)
    have ht := hshort (w.take k) (by rwa [hlen])
    rw [he, hlen] at ht
    exact Except.error.inj ht
  decodeAll_appendAll l hl := by
    have hfit : ∀ a ∈ l, Fit (limits a) := fun a ha =>
      (hl a ha).elim fun _ hw => (encode_ok_iff.1 hw).1
    refine ⟨_, (appendAll_ok_iff l #[] _).2 ⟨_, map_encode hfit, rfl⟩, ?_⟩
    have hlist : ((#[] : Array UInt8) ++ (l.map bytes).flatten).toList = (l.map bytes).flatten := by simp
    rw [hlist]
    exact decodeAll_flatten hself ⟨_, hshort [] hpos⟩ (map_encode hfit)

/-! A reader looks for the fixed part first, or when it has taken note of where it starts. -/

theorem prefixCode_of_need {f : Unit → Reader α} (hself : SelfDelimiting α) (hpos : 0 < fixedPart)
    (hread : WireFormat.read = Reader.need fixedPart >>= f) : PrefixCode α fixedPart := by
  refine prefixCode hself hpos fun b hb => decode_error_iff.2 ?_
  rw [hread]
  exact Reader.run_need_bind_of_lt hb

theorem prefixCode_of_get_need {f : Bytes → Unit → Reader α} (hself : SelfDelimiting α)
    (hpos : 0 < fixedPart)
    (hread : WireFormat.read = get >>= fun start => Reader.need fixedPart >>= f start) :
    PrefixCode α fixedPart := by
  refine prefixCode hself hpos fun b hb => decode_error_iff.2 ?_
  rw [hread, Reader.run_get_bind]
  exact Reader.run_need_bind_of_lt hb

end Spelling

/-- The messages whose encodings tell where they end, each with the size of its fixed part. Echo
messages and payloads run on to the end of the input, and the type of a query to its length. -/
theorem prefixCodes :
    PrefixCode Icmpv6.Header 4 ∧ PrefixCode Icmpv6.Listener 24 ∧ PrefixCode Icmpv6.SourceQuery 28 ∧
      PrefixCode (GroupRecord .mld) 20 ∧ PrefixCode Icmpv6.Report 8 ∧ PrefixCode Igmp.Short 8 ∧
      PrefixCode Igmp.SourceQuery 12 ∧ PrefixCode (GroupRecord .igmp) 8 ∧ PrefixCode Igmp.Report 8 ∧
      PrefixCode Udp 8 ∧ PrefixCode Routing 8 ∧ PrefixCode Fragment 8 := by
  refine ⟨?_, ?_, ?_, ?_, ?_, ?_, ?_, ?_, ?_, ?_, ?_, ?_⟩
  · exact Spelling.prefixCode_of_need (fun _ _ => trivial) (by decide) Icmpv6.Header.read.eq_def
  · exact Spelling.prefixCode_of_need (fun _ _ => trivial) (by decide) Icmpv6.Listener.read.eq_def
  · exact Spelling.prefixCode_of_get_need (fun _ _ => trivial) (by decide) Icmpv6.SourceQuery.read.eq_def
  · exact Spelling.prefixCode_of_get_need (fun _ _ => trivial) (by decide) GroupRecord.read.eq_def
  · exact Spelling.prefixCode_of_get_need (fun _ _ => trivial) (by decide) Icmpv6.Report.read.eq_def
  · exact Spelling.prefixCode_of_need (fun _ _ => trivial) (by decide) Igmp.Short.read.eq_def
  · exact Spelling.prefixCode_of_get_need (fun _ _ => trivial) (by decide) Igmp.SourceQuery.read.eq_def
  · exact Spelling.prefixCode_of_get_need (fun _ _ => trivial) (by decide) GroupRecord.read.eq_def
  · exact Spelling.prefixCode_of_get_need (fun _ _ => trivial) (by decide) Igmp.Report.read.eq_def
  · exact Spelling.prefixCode_of_get_need (fun _ _ => trivial) (by decide) Udp.read.eq_def
  · exact Spelling.prefixCode_of_get_need (fun _ _ => trivial) (by decide) Routing.read.eq_def
  · exact Spelling.prefixCode_of_need (fun _ _ => trivial) (by decide) Fragment.read.eq_def

end PacketWatch
