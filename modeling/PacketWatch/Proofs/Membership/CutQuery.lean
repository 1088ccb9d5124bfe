import PacketWatch.Proofs.Icmpv6.Listener
import PacketWatch.Proofs.Igmp.Message
import PacketWatch.Proofs.Wire.Failing

namespace PacketWatch

open Wire

namespace Querier

variable {α β : Type} {p : Protocol} {q : Querier p} {older L : Nat} {start front : Bytes}

def fixedBytes (q : Querier p) : Bytes :=
  digits 1 (8 * q.suppress.toNat + q.robustness.toNat) ++ ([q.interval] ++ digits 2 q.sources.length)

theorem bytes_eq (q : Querier p) : q.bytes = q.fixedBytes ++ q.sources.flatMap Address.bytes := by
  rw [bytes, fixedBytes, List.append_assoc, List.append_assoc]

theorem length_fixedBytes (q : Querier p) : q.fixedBytes.length = 4 := by
  simp [fixedBytes]

/-- The number of sources is enough to tell that some of them are missing. -/
theorem run_read_of_short (hfit : Fit q.limits) (hstart : start.length < older + q.size) (tail : Bytes) :
    (read p older start).run (q.fixedBytes ++ tail) =
      .error (.inconsistentLength (.sourceCount p) (older + q.size) start.length) := by
  simp only [limits, fit_cons, fit_nil, and_true] at hfit
  have hs := q.suppress.toNat_lt
  have hdeclared : older + q.size = older + 4 + p.addressWidth * q.sources.length := by
    rw [size, Nat.add_assoc]
  rw [hdeclared] at hstart ⊢
  have hb : q.fixedBytes ++ tail = digits 1 (8 * q.suppress.toNat + q.robustness.toNat) ++
      (q.interval :: (digits 2 q.sources.length ++ tail)) := by
    simp [fixedBytes]
  rw [hb, read, Reader.run_bind_of_ok (Reader.run_word_ok.2 ⟨by omega, rfl⟩),
    Reader.run_bind_of_ok (Reader.run_u8_ok.2 rfl),
    Reader.run_bind_of_ok (Reader.run_word_ok.2 ⟨by omega, rfl⟩)]
  exact Reader.run_bind_of_error (Reader.run_declare_of_lt hstart)

/-- A newer query that is cut short, be it in its fixed part or behind it. -/
theorem run_readBehind_take {r : Reader α} {base : α} {query : α → Querier p → β}
    (hr : ∀ rest, r.run (front ++ rest) = .ok (base, rest)) (hfront : front.length = older)
    (hfit : Fit q.limits) (hL : L < older + q.size) :
    (do
      let start ← get
      Reader.need (older + 4)
      let base ← r
      let querier ← read p older start
      return query base querier : Reader β).run ((front ++ q.bytes).take L) =
      .error (if L < older + 4 then .truncated (older + 4) L
        else .inconsistentLength (.sourceCount p) (older + q.size) L) := by
  have hlen : ((front ++ q.bytes).take L).length = L := by
    rw [List.length_take, List.length_append, hfront, length_bytes]
    omega
  rw [Reader.run_get_bind]
  by_cases hshort : L < older + 4
  · rw [if_pos hshort, Reader.run_need_bind_of_lt (by rwa [hlen]), hlen]
  · -- What is left begins with the whole fixed part, so the number of sources is read.
    have hsplit : (front ++ q.bytes).take L =
        front ++ (q.fixedBytes ++ (q.sources.flatMap Address.bytes).take (L - older - 4)) := by
      rw [List.take_append, List.take_of_length_le (by omega), bytes_eq, List.take_append,
        List.take_of_length_le (by rw [length_fixedBytes]; omega), hfront, length_fixedBytes]
    rw [hsplit] at hlen ⊢
    have hread := run_read_of_short hfit (hlen.symm ▸ hL)
      ((q.sources.flatMap Address.bytes).take (L - older - 4))
    rw [hlen] at hread
    rw [if_neg hshort, Reader.run_need_bind_of_le (hlen.symm ▸ Nat.le_of_not_lt hshort),
      Reader.run_bind_of_ok (hr _)]
    exact Reader.run_bind_of_error hread

end Querier

namespace Icmpv6

variable {q : SourceQuery} {w : Bytes} {L : Nat}

theorem SourceQuery.run_read_take (hfit : Fit q.limits) (hL : L < q.size) :
    read.run (q.bytes.take L) = .error (if L < minSize then .truncated minSize L
      else .inconsistentLength (.sourceCount .mld) q.size L) :=
  Querier.run_readBehind_take
    (fun _ => Listener.run_read_ok.2 ⟨_, rfl, Spelling.clears_bytes q.base fit_nil⟩)
    q.base.length_bytes hfit hL

/-- What the front of a newer query is read as depends on how long it is. -/
theorem Query.decode_take (h : encode q = .ok w) (hL : L ≤ q.size) : decode Query (w.take L) =
    if L < Listener.length then .error (.truncated Listener.length L)
    else if L ≤ SourceQuery.minSize then .ok (v1 q.base, Listener.length)
    else if L < q.size then .error (.inconsistentLength (.sourceCount .mld) q.size L)
    else .ok (v2 q, L) := by
  have hlen : (w.take L).length = L :=
    List.length_take_of_le (Nat.le_trans hL (Nat.le_of_eq (Spelling.length_of_encode h).symm))
  obtain ⟨hfit, hw⟩ := Spelling.encode_ok_iff.1 h
  replace hw : w = q.bytes := hw
  split
  · next hshort =>
    refine Spelling.decode_error_iff.2 ?_
    change read.run _ = _
    rw [read, Reader.run_get_bind, Reader.run_need_bind_of_lt (by rwa [hlen]), hlen]
  split
  · next hbase holder =>
    have htake : (w.take L).take Listener.length = q.base.bytes := by
      rw [List.take_take, Nat.min_eq_left (Nat.le_of_not_lt hbase), hw]
      exact List.take_left' q.base.length_bytes
    have hback : Listener.length + (L - Listener.length) ≤ SourceQuery.minSize := by omega
    rw [Spelling.decode_ok_iff_clears, hlen, htake]
    exact ⟨rfl, Nat.le_of_not_lt hbase, hback, fit_nil, Spelling.clears_bytes q.base fit_nil⟩
  have hnewer : SourceQuery.minSize < L := Nat.lt_of_not_le ‹_›
  split
  · next hcut =>
    refine Spelling.decode_error_iff.2 ?_
    change read.run _ = _
    have hread := SourceQuery.run_read_take hfit hcut
    rw [if_neg (Nat.lt_asymm hnewer), ← hw] at hread
    rw [read, Reader.run_get_bind, Reader.run_need_bind_of_le (by rw [hlen]; omega),
      if_pos (reaches_eq_true_iff.2 (by rwa [hlen]))]
    exact Reader.run_bind_of_error hread
  · next hwhole =>
    obtain rfl : L = q.size := Nat.le_antisymm hL (Nat.le_of_not_lt hwhole)
    have hall : w.take q.size = w := List.take_of_length_le (Nat.le_of_eq (Spelling.length_of_encode h))
    have hv2 : encode (v2 q) = .ok w := Spelling.encode_ok_iff.2 ⟨hfit, hw⟩
    rw [hall]
    exact (Spelling.decode_of_encode hv2).2 hnewer

theorem Query.eq_v1_of_decode_take {m : Query} {n : Nat} (h : encode q = .ok w) (hL : L < q.size)
    (hd : decode Query (w.take L) = .ok (m, n)) :
    Listener.length ≤ L ∧ L ≤ SourceQuery.minSize ∧ m = v1 q.base := by
  rw [decode_take h (Nat.le_of_lt hL), if_pos hL] at hd
  split at hd
  · cases hd
  split at hd
  · next hbase holder =>
    cases hd
    exact ⟨Nat.le_of_not_lt hbase, holder, rfl⟩
  · cases hd

end Icmpv6

namespace Igmp

variable {q : SourceQuery} {w : Bytes} {L : Nat}

theorem SourceQuery.run_read_take (hfit : Fit q.limits) (hL : L < q.size) :
    read.run (q.bytes.take L) = .error (if L < Short.length + 4 then .truncated (Short.length + 4) L
      else .inconsistentLength (.sourceCount .igmp) q.size L) :=
  Querier.run_readBehind_take (fun _ => Short.run_read_ok.2 rfl) q.base.length_bytes hfit hL

/-- Behind its type, the front of a query is read as one of version 3 unless it is as short as a short
message. -/
theorem Message.run_read_query {b : Bytes} : read.run (Short.queryKind :: b) =
    if Short.length ≤ b.length then (SourceQuery.read >>= fun q => pure (query q)).run (Short.queryKind :: b)
    else (Short.read >>= fun m => pure (short m)).run (Short.queryKind :: b) := by
  have hpeek : Reader.peekByte.run (Short.queryKind :: b) = .ok (Short.queryKind, Short.queryKind :: b) :=
    Reader.run_peekByte_ok.2 ⟨⟨b, rfl⟩, rfl⟩
  rw [read, Reader.run_get_bind, Reader.run_need_bind_of_le (Nat.succ_le_succ (Nat.zero_le _)),
    Reader.run_bind_of_ok hpeek]
  by_cases hlong : Short.length ≤ b.length
  · rw [if_pos hlong, if_pos ⟨rfl, reaches_eq_true_iff.2 (Nat.succ_le_succ hlong)⟩]
  · have hshort : ¬ (Short.queryKind = Short.queryKind ∧
        reaches (Short.queryKind :: b) (Short.length + 1) = true) := fun h =>
      hlong (Nat.le_of_succ_le_succ (reaches_eq_true_iff.1 h.2))
    rw [if_neg hlong, if_neg hshort, if_pos (.inl rfl)]

/-- What the front of a version 3 query is read as depends on how long it is. -/
theorem Message.decode_take (h : encode q = .ok w) (hkind : q.base.kind = Short.queryKind)
    (hL : L ≤ q.size) : decode Message (w.take L) =
    if L < Short.length then .error (.truncated (if L = 0 then 1 else Short.length) L)
    else if L = Short.length then .ok (short q.base, Short.length)
    else if L < Short.length + 4 then .error (.truncated (Short.length + 4) L)
    else if L < q.size then .error (.inconsistentLength (.sourceCount .igmp) q.size L)
    else .ok (query q, L) := by
  have hlen : (w.take L).length = L :=
    List.length_take_of_le (Nat.le_trans hL (Nat.le_of_eq (Spelling.length_of_encode h).symm))
  obtain ⟨hfit, hw⟩ := Spelling.encode_ok_iff.1 h
  replace hw : w = q.bytes := hw
  by_cases hzero : L = 0
  · subst hzero
    rfl
  obtain ⟨back, hback⟩ : ∃ back, w.take L = Short.queryKind :: back := by
    obtain ⟨k, rfl⟩ := Nat.exists_eq_succ_of_ne_zero hzero
    rw [hw, ← hkind]
    exact ⟨_, rfl⟩
  have hrest : back.length + 1 = L := by
    rwa [hback] at hlen
  split
  · next hshort =>
    have hread : Short.read.run (Short.queryKind :: back) = .error (.truncated Short.length L) := by
      rw [← hback, Short.read, Reader.run_need_bind_of_lt (by rwa [hlen]), hlen]
    refine Spelling.decode_error_iff.2 ?_
    change read.run _ = _
    rw [hback, run_read_query, if_neg (by omega), Reader.run_bind_of_error hread]
  split
  · next heq =>
    have htake : w.take L = q.base.bytes := by
      rw [heq, hw]
      exact List.take_left' q.base.length_bytes
    have hshort : encode (short q.base) = .ok (w.take L) := Spelling.encode_ok_iff.2 ⟨fit_nil, htake⟩
    exact (Spelling.decode_of_encode hshort).2 ⟨mem_shortKinds.2 (.inl hkind), fun _ => rfl⟩
  have hnewer : Short.length ≤ back.length := by omega
  by_cases hcut : L < q.size
  · have hread := SourceQuery.run_read_take hfit hcut
    rw [← hw, hback] at hread
    have herror : decode Message (w.take L) = .error (if L < Short.length + 4
        then .truncated (Short.length + 4) L else .inconsistentLength (.sourceCount .igmp) q.size L) := by
      refine Spelling.decode_error_iff.2 ?_
      change read.run _ = _
      rw [hback, run_read_query, if_pos hnewer, Reader.run_bind_of_error hread]
    rw [herror, if_pos hcut]
    split <;> rfl
  · obtain rfl : L = q.size := Nat.le_antisymm hL (Nat.le_of_not_lt hcut)
    have hsize : Short.length + 4 ≤ q.size := by
      rw [SourceQuery.size, Querier.size]
      omega
    have hall : w.take q.size = w := List.take_of_length_le (Nat.le_of_eq (Spelling.length_of_encode h))
    have hquery : encode (query q) = .ok w := Spelling.encode_ok_iff.2 ⟨hfit, hw⟩
    rw [if_neg (Nat.not_lt.2 hsize), if_neg hcut, hall]
    exact (Spelling.decode_of_encode hquery).2 hkind

theorem Message.eq_short_of_decode_take {m : Message} {n : Nat} (h : encode q = .ok w)
    (hkind : q.base.kind = Short.queryKind) (hL : L < q.size)
    (hd : decode Message (w.take L) = .ok (m, n)) : L = Short.length ∧ m = short q.base := by
  rw [decode_take h hkind (Nat.le_of_lt hL), if_pos hL] at hd
  split at hd
  · cases hd
  split at hd
  · next heq =>
    cases hd
    exact ⟨heq, rfl⟩
  split at hd
  · cases hd
  · cases hd

end Igmp

/-- The version of a query that is cut short anywhere is told by its length. Of the fronts of a newer
query only those are accepted that are as short as an older one, and they are read as that. -/
theorem queries_told_by_length :
    (∀ (q : Icmpv6.SourceQuery) (w : Bytes) (k L : Nat), encode q = .ok w → k = q.querier.sources.length →
      L ≤ 28 + 16 * k → w.length = 28 + 16 * k ∧
      (decode Icmpv6.Query (w.take L) =
        if L < 24 then .error (.truncated 24 L)
        else if L ≤ 28 then .ok (.v1 q.base, 24)
        else if L < 28 + 16 * k then .error (.inconsistentLength (.sourceCount .mld) (28 + 16 * k) L)
        else .ok (.v2 q, L)) ∧
      ∀ m n, L < w.length → decode Icmpv6.Query (w.take L) = .ok (m, n) →
        24 ≤ L ∧ L ≤ 28 ∧ m = .v1 q.base) ∧
    ∀ (q : Igmp.SourceQuery) (w : Bytes) (k L : Nat), encode q = .ok w → q.base.kind = 0x11 →
      k = q.querier.sources.length → L ≤ 12 + 4 * k → w.length = 12 + 4 * k ∧
      (decode Igmp.Message (w.take L) =
        if L < 8 then .error (.truncated (if L = 0 then 1 else 8) L)
        else if L = 8 then .ok (.short q.base, 8)
        else if L < 12 then .error (.truncated 12 L)
        else if L < 12 + 4 * k then .error (.inconsistentLength (.sourceCount .igmp) (12 + 4 * k) L)
        else .ok (.query q, L)) ∧
      ∀ m n, L < w.length → decode Igmp.Message (w.take L) = .ok (m, n) → L = 8 ∧ m = .short q.base := by
  constructor
  · rintro q w k L h rfl hL
    have hsize : 28 + 16 * q.querier.sources.length = q.size := Nat.add_assoc 24 4 _
    have hw : w.length = q.size := Spelling.length_of_encode h
    rw [hsize] at hL ⊢
    refine ⟨hw, Icmpv6.Query.decode_take h hL, fun m n hcut hd => ?_⟩
    exact Icmpv6.Query.eq_v1_of_decode_take h (hw ▸ hcut) hd
  · rintro q w k L h hkind rfl hL
    have hsize : 12 + 4 * q.querier.sources.length = q.size := Nat.add_assoc 8 4 _
    have hw : w.length = q.size := Spelling.length_of_encode h
    rw [hsize] at hL ⊢
    refine ⟨hw, Igmp.Message.decode_take h hkind hL, fun m n hcut hd => ?_⟩
    exact Igmp.Message.eq_short_of_decode_take h hkind (hw ▸ hcut) hd

theorem queries_told_by_length_two_sources :
    let mld : Icmpv6.SourceQuery :=
      ⟨.query 5 default, { robustness := 2, interval := 125, sources := [default, default] }⟩
    let igmp := Igmp.SourceQuery.ofSources 5 default 2 125 [default, default]
    ∃ v w, encode mld = .ok v ∧ encode igmp = .ok w ∧
      decode Icmpv6.Query (v.take 28) = .ok (.v1 mld.base, 24) ∧
      decode Icmpv6.Query (v.take 59) = .error (.inconsistentLength (.sourceCount .mld) 60 59) ∧
      decode Icmpv6.Query (v.take 60) = .ok (.v2 mld, 60) ∧
      decode Igmp.Message (w.take 8) = .ok (.short igmp.base, 8) ∧
      decode Igmp.Message (w.take 9) = .error (.truncated 12 9) ∧
      decode Igmp.Message (w.take 20) = .ok (.query igmp, 20) := by
  intro mld igmp
  obtain ⟨hmld, higmp⟩ := queries_told_by_length
  exact ⟨_, _, rfl, rfl, (hmld mld _ 2 28 rfl rfl (by decide)).2.1, (hmld mld _ 2 59 rfl rfl (by decide)).2.1,
    (hmld mld _ 2 60 rfl rfl (by decide)).2.1, (higmp igmp _ 2 8 rfl rfl rfl (by decide)).2.1,
    (higmp igmp _ 2 9 rfl rfl rfl (by decide)).2.1, (higmp igmp _ 2 20 rfl rfl rfl (by decide)).2.1⟩

end PacketWatch
