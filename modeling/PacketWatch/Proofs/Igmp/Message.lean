import PacketWatch.Igmp.Message
import PacketWatch.Proofs.Membership.Records

namespace PacketWatch.Igmp

open Wire

namespace Short

def bytes (m : Short) : Bytes :=
  [m.kind] ++ ([m.maxResponse] ++ (digits 2 m.checksum.toNat ++ m.group.bytes))

theorem length_bytes (m : Short) : m.bytes.length = length := by
  simp only [bytes, length, List.length_append, List.length_singleton, length_digits,
    Address.length_bytes]

theorem puts_write (m : Short) : m.write.Puts [] m.bytes :=
  (Writer.puts_u8 _).bind <| (Writer.puts_u8 _).bind <| (Writer.puts_u16 _).bind m.group.puts_write

theorem run_read_ok {b rest : Bytes} {m : Short} :
    read.run b = .ok (m, rest) ↔ b = m.bytes ++ rest := by
  rw [read]
  simp only [Reader.run_bind_ok, Reader.run_need_ok, Reader.run_u8_ok, Reader.run_u16_ok,
    Address.run_read_ok, Reader.run_pure_ok]
  constructor
  · rintro ⟨_, _, ⟨-, rfl⟩, kind, _, rfl, maxResponse, _, rfl, checksum, _, rfl, group, _, rfl, rfl, rfl⟩
    simp [bytes]
  · rintro rfl
    have hb : m.bytes ++ rest =
        m.kind :: m.maxResponse :: (digits 2 m.checksum.toNat ++ (m.group.bytes ++ rest)) := by
      simp [bytes]
    refine ⟨(), _, ⟨?_, rfl⟩, m.kind, _, hb, m.maxResponse, _, rfl, m.checksum, _, rfl, m.group, _, rfl,
      rfl, rfl⟩
    rw [List.length_append, length_bytes]; omega

instance : Spelling Short :=
  .ofExact (fun _ => []) bytes (fun _ _ => True) puts_write length_bytes <| by
    intro b rest m
    simp only [fit_nil, true_and]
    exact run_read_ok

end Short

namespace SourceQuery

def limits (q : SourceQuery) : List EncodeError := q.querier.limits

def bytes (q : SourceQuery) : Bytes := q.base.bytes ++ q.querier.bytes

def reserved (q : SourceQuery) : Bytes := kept Short.length ++ q.querier.reserved

theorem length_bytes (q : SourceQuery) : q.bytes.length = q.size := by
  rw [bytes, size, List.length_append, Short.length_bytes, Querier.length_bytes]

theorem puts_write (q : SourceQuery) : q.write.Puts q.limits q.bytes :=
  q.base.puts_write.bind q.querier.puts_write

theorem clears_iff {q : SourceQuery} {front : Bytes} : Clears q.reserved front q.bytes ↔
    ∃ newer, front = q.base.bytes ++ newer ∧ Clears q.querier.reserved newer q.querier.bytes := by
  rw [reserved, bytes, Clears.append_iff (m := kept Short.length) (Short.length_bytes _).symm]
  simp only [Clears.kept_iff, Short.length_bytes, and_true]
  constructor
  · rintro ⟨_, newer, rfl, rfl, hnewer⟩
    exact ⟨newer, rfl, hnewer⟩
  · rintro ⟨newer, rfl, hnewer⟩
    exact ⟨_, newer, rfl, rfl, hnewer⟩

theorem clears_bytes (q : SourceQuery) (h : Fit q.limits) : Clears q.reserved q.bytes q.bytes :=
  clears_iff.2 ⟨_, rfl, q.querier.clears_bytes h⟩

theorem run_read_ok {b rest : Bytes} {q : SourceQuery} :
    read.run b = .ok (q, rest) ↔
      Fit q.limits ∧ ∃ front, b = front ++ rest ∧ Clears q.reserved front q.bytes := by
  have hshort {b rest : Bytes} {m : Short} : Short.read.run b = .ok (m, rest) ↔
      ∃ front, b = front ++ rest ∧ Clears (kept Short.length) front m.bytes := by
    simp [Short.run_read_ok, Clears.kept_iff, Short.length_bytes]
  rw [read, Querier.run_readBehind_ok Short.length_bytes hshort]
  simp only [clears_iff]
  constructor
  · rintro ⟨base, querier, rfl, hfit, front, back, rfl, hfront, hback⟩
    obtain ⟨rfl, -⟩ := Clears.kept_iff.1 hfront
    exact ⟨hfit, _, rfl, back, rfl, hback⟩
  · rintro ⟨hfit, _, rfl, back, rfl, hback⟩
    exact ⟨q.base, q.querier, rfl, hfit, _, back, rfl, Clears.kept_iff.2 ⟨rfl, Short.length_bytes _⟩, hback⟩

instance : Spelling SourceQuery where
  limits
  bytes
  reserved
  ReadsBack _ _ := True
  puts_write
  length_bytes
  clears_bytes
  run_read_ok := by
    intro b rest q
    rw [true_and]
    exact run_read_ok

end SourceQuery

namespace Report

def limits (r : Report) : List EncodeError := GroupRecord.listLimits r.records

def bytes (r : Report) : Bytes :=
  [kind] ++ ([0] ++ (digits 2 r.checksum.toNat ++ GroupRecord.listBytes r.records))

def reserved (r : Report) : Bytes :=
  kept 1 ++ (ignored 1 ++ (kept 2 ++ GroupRecord.listReserved r.records))

theorem length_bytes (r : Report) : r.bytes.length = r.size := by
  simp only [bytes, size, List.length_append, List.length_singleton, length_digits,
    GroupRecord.length_listBytes]
  omega

theorem puts_write (r : Report) : r.write.Puts r.limits r.bytes :=
  (Writer.puts_u8 _).bind <| (Writer.puts_u8 _).bind <| (Writer.puts_u16 _).bind <|
    GroupRecord.puts_writeList r.records

theorem clears_iff {r : Report} {front : Bytes} : Clears r.reserved front r.bytes ↔
    ∃ x records : Bytes, x.length = 1 ∧
      front = [kind] ++ (x ++ (digits 2 r.checksum.toNat ++ records)) ∧
      Clears (GroupRecord.listReserved r.records) records (GroupRecord.listBytes r.records) := by
  have hkind : (kept 1).length = [kind].length := rfl
  have hskipped : (ignored 1).length = ([0] : Bytes).length := rfl
  have hchecksum : (kept 2).length = (digits 2 r.checksum.toNat).length := (length_digits 2 _).symm
  rw [reserved, bytes, Clears.append_iff hkind]
  simp only [Clears.append_iff hskipped, Clears.append_iff hchecksum, Clears.kept_iff,
    Clears.ignored_iff]
  constructor
  · rintro ⟨_, _, rfl, ⟨rfl, -⟩, x, _, rfl, ⟨hx, -⟩, _, records, rfl, ⟨rfl, -⟩, hr⟩
    exact ⟨x, records, hx, rfl, hr⟩
  · rintro ⟨x, records, hx, rfl, hr⟩
    exact ⟨_, _, rfl, ⟨rfl, rfl⟩, x, _, rfl, ⟨hx, rfl⟩, _, records, rfl, ⟨rfl, length_digits 2 _⟩, hr⟩

theorem run_read_ok {b rest : Bytes} {r : Report} :
    read.run b = .ok (r, rest) ↔
      Fit r.limits ∧ ∃ front, b = front ++ rest ∧ Clears r.reserved front r.bytes := by
  rw [read]
  simp only [Reader.run_bind_ok, Reader.run_get_ok, Reader.run_need_ok, Reader.run_u8_ok,
    Reader.run_unless_ok, Reader.run_skip_ok, Reader.run_u16_ok, GroupRecord.run_readList_ok,
    Reader.run_pure_ok, clears_iff, ne_eq, not_not]
  constructor
  · rintro ⟨_, _, ⟨rfl, rfl⟩, _, _, ⟨-, rfl⟩, _, _, rfl, rfl, _, _, ⟨x, hx, rfl⟩, checksum, _, rfl,
      records, _, ⟨-, hfit, front, rfl, hr⟩, rfl, rfl⟩
    exact ⟨hfit, _, by simp, x, front, hx, rfl, hr⟩
  · rintro ⟨hfit, _, rfl, x, front, hx, rfl, hr⟩
    have hfront : front.length = GroupRecord.listSize r.records := by
      rw [← hr.length_eq, GroupRecord.length_listBytes]
    have hb : [kind] ++ (x ++ (digits 2 r.checksum.toNat ++ front)) ++ rest =
        kind :: (x ++ (digits 2 r.checksum.toNat ++ (front ++ rest))) := by
      simp
    have hlen : ([kind] ++ (x ++ (digits 2 r.checksum.toNat ++ front)) ++ rest).length =
        4 + GroupRecord.listSize r.records + rest.length := by
      simp only [List.length_append, List.length_singleton, length_digits, hx, hfront]
      omega
    have hmin := GroupRecord.minSize_mul_le r.records
    refine ⟨_, _, ⟨rfl, rfl⟩, (), _, ⟨?_, rfl⟩, kind, _, hb, rfl, (), _, ⟨x, hx, rfl⟩, r.checksum, _, rfl,
      r.records, _, ⟨?_, hfit, front, rfl, hr⟩, rfl, rfl⟩
    · rw [hlen, GroupRecord.listSize]; omega
    · rw [hlen, GroupRecord.listSize]; omega

instance : Spelling Report where
  limits
  bytes
  reserved
  ReadsBack _ _ := True
  puts_write
  length_bytes
  clears_bytes r _ :=
    clears_iff.2 ⟨[0], _, rfl, rfl, GroupRecord.clears_listBytes_iff.2 ⟨digits 2 0, rfl, rfl⟩⟩
  run_read_ok := by
    intro b rest r
    rw [true_and]
    exact run_read_ok

end Report

namespace Message

def limits : Message → List EncodeError
  | short _ => []
  | query q => q.limits
  | report r => r.limits

def bytes : Message → Bytes
  | short m => m.bytes
  | query q => q.bytes
  | report r => r.bytes

def reserved : Message → Bytes
  | short _ => kept Short.length
  | query q => q.reserved
  | report r => r.reserved

def shortKinds : List UInt8 :=
  [Short.queryKind, Short.v1ReportKind, Short.v2ReportKind, Short.v2LeaveKind]

theorem mem_shortKinds {kind : UInt8} : kind ∈ shortKinds ↔ kind = Short.queryKind ∨
    kind = Short.v1ReportKind ∨ kind = Short.v2ReportKind ∨ kind = Short.v2LeaveKind := by
  simp [shortKinds]

/-- A message is read back if its type belongs to its form. What follows a short query would make it
one of version 3. -/
def ReadsBack : Message → Nat → Prop
  | short m, n => m.kind ∈ shortKinds ∧ (m.kind = Short.queryKind → n = 0)
  | query q, _ => q.base.kind = Short.queryKind
  | report _, _ => True

theorem length_bytes (m : Message) : m.bytes.length = m.size := by
  cases m with
  | short m => exact m.length_bytes
  | query q => exact q.length_bytes
  | report r => exact r.length_bytes

theorem puts_write (m : Message) : m.write.Puts m.limits m.bytes := by
  cases m with
  | short m => exact m.puts_write
  | query q => exact q.puts_write
  | report r => exact r.puts_write

theorem clears_bytes (m : Message) (h : Fit m.limits) : Clears m.reserved m.bytes m.bytes := by
  cases m with
  | short m => exact Clears.kept_iff.2 ⟨rfl, m.length_bytes⟩
  | query q => exact q.clears_bytes h
  | report r => exact Spelling.clears_bytes r h

/-- No bit of the type is reserved. -/
theorem eq_cons_of_clears {m : Message} {front : Bytes} (h : Clears m.reserved front m.bytes) :
    ∃ back, front = m.kind :: back := by
  cases m with
  | short m =>
      obtain ⟨rfl, -⟩ := Clears.kept_iff.1 h
      exact ⟨_, rfl⟩
  | query q =>
      obtain ⟨newer, rfl, -⟩ := SourceQuery.clears_iff.1 h
      exact ⟨_, rfl⟩
  | report r =>
      obtain ⟨x, records, -, rfl, -⟩ := Report.clears_iff.1 h
      exact ⟨_, rfl⟩

theorem eight_le_size (m : Message) : 8 ≤ m.size := by
  cases m with
  | short _ => exact Nat.le_refl 8
  | query q => simp only [size, SourceQuery.size, Short.length]; omega
  | report r => simp only [size, Report.size, GroupRecord.listSize]; omega

theorem run_read_ok {b rest : Bytes} {m : Message} :
    read.run b = .ok (m, rest) ↔ m.ReadsBack rest.length ∧ Fit m.limits ∧
      ∃ front, b = front ++ rest ∧ Clears m.reserved front m.bytes := by
  rw [read]
  simp only [Reader.run_bind_ok, Reader.run_get_ok, Reader.run_need_ok, Reader.run_peekByte_ok]
  constructor
  · rintro ⟨_, _, ⟨rfl, rfl⟩, _, _, ⟨-, rfl⟩, kind, _, ⟨⟨left, rfl⟩, rfl⟩, h⟩
    -- Whatever the message is read as, its type is the byte that chose the reader.
    have hkind {m : Message} {front rest : Bytes} (hc : Clears m.reserved front m.bytes)
        (hb : kind :: left = front ++ rest) : m.kind = kind := by
      obtain ⟨back, rfl⟩ := eq_cons_of_clears hc
      exact (List.cons.inj hb).1.symm
    split at h
    · next hk =>
      simp only [Reader.run_bind_ok, SourceQuery.run_read_ok, Reader.run_pure_ok] at h
      obtain ⟨q, _, ⟨hfit, front, hb, hc⟩, rfl, rfl⟩ := h
      exact ⟨(hkind (m := query q) hc hb).trans hk.1, hfit, front, hb, hc⟩
    split at h
    · next hlong hk =>
      simp only [Reader.run_bind_ok, Short.run_read_ok, Reader.run_pure_ok] at h
      obtain ⟨m, _, hb, rfl, rfl⟩ := h
      have hc : Clears (reserved (short m)) m.bytes (bytes (short m)) :=
        Clears.kept_iff.2 ⟨rfl, m.length_bytes⟩
      have hm : m.kind = kind := hkind hc hb
      refine ⟨⟨mem_shortKinds.2 (by rwa [hm]), fun hq => ?_⟩, fit_nil, m.bytes, hb, hc⟩
      have hshort := not_and.1 hlong (hm.symm.trans hq)
      rw [reaches_eq_true_iff, hb, List.length_append, Short.length_bytes] at hshort
      omega
    split at h
    · next hk =>
      simp only [Reader.run_bind_ok, Report.run_read_ok, Reader.run_pure_ok] at h
      obtain ⟨r, _, ⟨hfit, front, hb, hc⟩, rfl, rfl⟩ := h
      exact ⟨trivial, hfit, front, hb, hc⟩
    · exact absurd h Reader.run_throw_ok
  · rintro ⟨hback, hfit, front, rfl, hc⟩
    have hlen : (front ++ rest).length = m.size + rest.length := by
      rw [List.length_append, ← hc.length_eq, length_bytes]
    have height := eight_le_size m
    obtain ⟨back, rfl⟩ := eq_cons_of_clears hc
    refine ⟨_, _, ⟨rfl, rfl⟩, (), _, ⟨by omega, rfl⟩, m.kind, _, ⟨⟨back ++ rest, rfl⟩, rfl⟩, ?_⟩
    cases m with
    | short m =>
        obtain ⟨hk, hq⟩ := hback
        have hk' : (short m).kind ∈ shortKinds := hk
        have hshort : ¬ ((short m).kind = Short.queryKind ∧
            reaches ((short m).kind :: back ++ rest) (Short.length + 1) = true) := by
          rintro ⟨hm, hlong⟩
          rw [reaches_eq_true_iff, hlen, hq hm] at hlong
          exact Nat.not_succ_le_self _ hlong
        obtain ⟨hb, -⟩ := Clears.kept_iff.1 hc
        rw [if_neg hshort, if_pos (mem_shortKinds.1 hk'), hb]
        simp only [Reader.run_bind_ok, Short.run_read_ok, Reader.run_pure_ok]
        exact ⟨m, rest, rfl, rfl, rfl⟩
    | query q =>
        have hk : (query q).kind = Short.queryKind := hback
        have hlong : Short.length + 1 ≤ ((query q).kind :: back ++ rest).length := by
          rw [hlen]
          simp only [size, SourceQuery.size, Querier.size]
          omega
        rw [if_pos ⟨hk, reaches_eq_true_iff.2 hlong⟩]
        simp only [Reader.run_bind_ok, SourceQuery.run_read_ok, Reader.run_pure_ok]
        exact ⟨q, rest, ⟨hfit, _, rfl, hc⟩, rfl, rfl⟩
    | report r =>
        have hk : (report r).kind = Report.kind := rfl
        rw [if_neg (fun h => absurd h.1 (by rw [hk]; decide)), if_neg (by rw [hk]; decide), if_pos hk]
        simp only [Reader.run_bind_ok, Report.run_read_ok, Reader.run_pure_ok]
        exact ⟨r, rest, ⟨hfit, _, rfl, hc⟩, rfl, rfl⟩

instance : Spelling Message where
  limits
  bytes
  reserved
  ReadsBack
  puts_write
  length_bytes
  clears_bytes
  run_read_ok

end Message

end PacketWatch.Igmp
