import PacketWatch.Icmpv6.Message
import PacketWatch.Proofs.Icmpv6.Echo
import PacketWatch.Proofs.Membership.Records

namespace PacketWatch.Icmpv6

open Wire

namespace Listener

def bytes (m : Listener) : Bytes :=
  (m.header.bytes ++ digits 2 m.maxDelay.toNat) ++ (digits 2 0 ++ m.group.bytes)

def reserved : Bytes := kept 6 ++ (ignored 2 ++ kept 16)

theorem length_bytes (m : Listener) : m.bytes.length = length := by
  simp only [bytes, List.length_append, length_digits, Header.length_bytes, Address.length_bytes]

theorem puts_write (m : Listener) : m.write.Puts [] m.bytes := by
  have h := m.header.puts_write.bind <| (Writer.puts_u16 m.maxDelay).bind <|
    (Writer.puts_word 2 0).bind m.group.puts_write
  rw [bytes, List.append_assoc]
  exact h

theorem clears_iff {m : Listener} {front : Bytes} : Clears reserved front m.bytes ↔
    ∃ x : Bytes, x.length = 2 ∧
      front = m.header.bytes ++ (digits 2 m.maxDelay.toNat ++ (x ++ m.group.bytes)) := by
  have hlen : (m.header.bytes ++ digits 2 m.maxDelay.toNat).length = 6 := by
    rw [List.length_append, Header.length_bytes, length_digits]
  rw [reserved, bytes, Clears.append_iff (m := kept 6) (by rw [hlen, List.length_replicate])]
  simp only [Clears.append_iff (m := ignored 2) (length_digits 2 0).symm, Clears.kept_iff,
    Clears.ignored_iff, hlen, Address.length_bytes, and_true]
  constructor
  · rintro ⟨_, _, rfl, rfl, x, _, rfl, ⟨hx, -⟩, rfl⟩
    exact ⟨x, hx, List.append_assoc _ _ _⟩
  · rintro ⟨x, hx, rfl⟩
    exact ⟨_, _, (List.append_assoc _ _ _).symm, rfl, x, _, rfl, ⟨hx, rfl⟩, rfl⟩

theorem run_read_ok {b rest : Bytes} {m : Listener} :
    read.run b = .ok (m, rest) ↔ ∃ front, b = front ++ rest ∧ Clears reserved front m.bytes := by
  rw [read]
  simp only [Reader.run_bind_ok, Reader.run_need_ok, Header.run_read_ok, Reader.run_u16_ok,
    Reader.run_skip_ok, Address.run_read_ok, Reader.run_pure_ok, clears_iff]
  constructor
  · rintro ⟨_, _, ⟨-, rfl⟩, header, _, rfl, delay, _, rfl, _, _, ⟨x, hx, rfl⟩, group, _, rfl, rfl, rfl⟩
    exact ⟨_, by simp, x, hx, rfl⟩
  · rintro ⟨_, rfl, x, hx, rfl⟩
    have hb : m.header.bytes ++ (digits 2 m.maxDelay.toNat ++ (x ++ m.group.bytes)) ++ rest =
        m.header.bytes ++ (digits 2 m.maxDelay.toNat ++ (x ++ (m.group.bytes ++ rest))) := by
      simp
    refine ⟨(), _, ⟨?_, rfl⟩, m.header, _, hb, m.maxDelay, _, rfl, (), _, ⟨x, hx, rfl⟩, m.group, _, rfl,
      rfl, rfl⟩
    simp only [length, List.length_append, length_digits, Header.length_bytes, Address.length_bytes]
    omega

instance : Spelling Listener where
  limits _ := []
  bytes
  reserved _ := reserved
  ReadsBack _ _ := True
  puts_write
  length_bytes
  clears_bytes m _ := clears_iff.2 ⟨digits 2 0, rfl, by simp [bytes]⟩
  run_read_ok := by
    intro b rest m
    simp only [fit_nil, true_and]
    exact run_read_ok

end Listener

namespace SourceQuery

def limits (q : SourceQuery) : List EncodeError := q.querier.limits

def bytes (q : SourceQuery) : Bytes := q.base.bytes ++ q.querier.bytes

def reserved (q : SourceQuery) : Bytes := Listener.reserved ++ q.querier.reserved

theorem length_bytes (q : SourceQuery) : q.bytes.length = q.size := by
  rw [bytes, size, List.length_append, Listener.length_bytes, Querier.length_bytes]

theorem puts_write (q : SourceQuery) : q.write.Puts q.limits q.bytes :=
  q.base.puts_write.bind q.querier.puts_write

theorem clears_iff {q : SourceQuery} {front : Bytes} : Clears q.reserved front q.bytes ↔
    ∃ older newer, front = older ++ newer ∧ Clears Listener.reserved older q.base.bytes ∧
      Clears q.querier.reserved newer q.querier.bytes :=
  Clears.append_iff (Listener.length_bytes q.base).symm

theorem clears_bytes (q : SourceQuery) (h : Fit q.limits) : Clears q.reserved q.bytes q.bytes :=
  (Spelling.clears_bytes q.base fit_nil).append (q.querier.clears_bytes h)

theorem run_read_ok {b rest : Bytes} {q : SourceQuery} :
    read.run b = .ok (q, rest) ↔
      Fit q.limits ∧ ∃ front, b = front ++ rest ∧ Clears q.reserved front q.bytes := by
  rw [read, Querier.run_readBehind_ok Listener.length_bytes Listener.run_read_ok]
  simp only [clears_iff]
  constructor
  · rintro ⟨base, querier, rfl, hfit, front, back, rfl, hfront, hback⟩
    exact ⟨hfit, _, rfl, front, back, rfl, hfront, hback⟩
  · rintro ⟨hfit, _, rfl, front, back, rfl, hfront, hback⟩
    exact ⟨q.base, q.querier, rfl, hfit, front, back, rfl, hfront, hback⟩

instance : Spelling SourceQuery where
  limits
  bytes
  reserved
  ReadsBack _ _ := True
  puts_write
  length_bytes
  clears_bytes
  run_read_ok := by
    intro b rest q
    rw [true_and]
    exact run_read_ok

end SourceQuery

namespace Query

def limits : Query → List EncodeError
  | v1 _ => []
  | v2 q => q.limits

def bytes : Query → Bytes
  | v1 q => q.bytes
  | v2 q => q.bytes

def reserved : Query → Bytes
  | v1 _ => Listener.reserved
  | v2 q => q.reserved

/-- The version is told by the length alone, together with what follows. -/
def ReadsBack : Query → Nat → Prop
  | v1 _, n => Listener.length + n ≤ SourceQuery.minSize
  | v2 q, n => SourceQuery.minSize < q.size + n

theorem length_bytes (q : Query) : q.bytes.length = q.size := by
  cases q with
  | v1 q => exact q.length_bytes
  | v2 q => exact q.length_bytes

theorem puts_write (q : Query) : q.write.Puts q.limits q.bytes := by
  cases q with
  | v1 q => exact q.puts_write
  | v2 q => exact q.puts_write

theorem clears_bytes (q : Query) (h : Fit q.limits) : Clears q.reserved q.bytes q.bytes := by
  cases q with
  | v1 q => exact Spelling.clears_bytes q fit_nil
  | v2 q => exact q.clears_bytes h

theorem run_read_ok {b rest : Bytes} {q : Query} :
    read.run b = .ok (q, rest) ↔ q.ReadsBack rest.length ∧ Fit q.limits ∧
      ∃ front, b = front ++ rest ∧ Clears q.reserved front q.bytes := by
  rw [read]
  simp only [Reader.run_bind_ok, Reader.run_get_ok, Reader.run_need_ok]
  constructor
  · rintro ⟨_, _, ⟨rfl, rfl⟩, _, _, ⟨-, rfl⟩, h⟩
    split at h
    · next hlong =>
      rw [reaches_eq_true_iff] at hlong
      simp only [Reader.run_bind_ok, SourceQuery.run_read_ok, Reader.run_pure_ok] at h
      obtain ⟨q, _, ⟨hfit, front, rfl, hc⟩, rfl, rfl⟩ := h
      refine ⟨?_, hfit, front, rfl, hc⟩
      rw [List.length_append, ← hc.length_eq, SourceQuery.length_bytes] at hlong
      exact hlong
    · next hshort =>
      rw [reaches_eq_true_iff] at hshort
      simp only [Reader.run_bind_ok, Listener.run_read_ok, Reader.run_pure_ok] at h
      obtain ⟨m, _, ⟨front, rfl, hc⟩, rfl, rfl⟩ := h
      refine ⟨?_, fit_nil, front, rfl, hc⟩
      rw [List.length_append, ← hc.length_eq, Listener.length_bytes] at hshort
      exact Nat.le_of_not_lt hshort
  · rintro ⟨hback, hfit, front, rfl, hc⟩
    have hlen : (front ++ rest).length = q.size + rest.length := by
      rw [List.length_append, ← hc.length_eq, length_bytes]
    refine ⟨_, _, ⟨rfl, rfl⟩, (), _, ⟨?_, rfl⟩, ?_⟩
    · rw [hlen]
      cases q <;> simp only [size, SourceQuery.size] <;> omega
    · cases q with
      | v1 m =>
          have hshort : ¬ SourceQuery.minSize + 1 ≤ (front ++ rest).length := by
            rw [hlen]
            exact Nat.not_le_of_lt (Nat.lt_succ_of_le hback)
          rw [if_neg (by rwa [reaches_eq_true_iff])]
          simp only [Reader.run_bind_ok, Listener.run_read_ok, Reader.run_pure_ok]
          exact ⟨m, rest, ⟨front, rfl, hc⟩, rfl, rfl⟩
      | v2 q =>
          have hlong : SourceQuery.minSize + 1 ≤ (front ++ rest).length := by
            rw [hlen]
            exact hback
          rw [if_pos (by rwa [reaches_eq_true_iff])]
          simp only [Reader.run_bind_ok, SourceQuery.run_read_ok, Reader.run_pure_ok]
          exact ⟨q, rest, ⟨hfit, front, rfl, hc⟩, rfl, rfl⟩

instance : Spelling Query where
  limits
  bytes
  reserved
  ReadsBack
  puts_write
  length_bytes
  clears_bytes
  run_read_ok

end Query

namespace Report

def limits (r : Report) : List EncodeError := GroupRecord.listLimits r.records

def bytes (r : Report) : Bytes := r.header.bytes ++ GroupRecord.listBytes r.records

def reserved (r : Report) : Bytes := kept 4 ++ GroupRecord.listReserved r.records

theorem length_bytes (r : Report) : r.bytes.length = r.size := by
  rw [bytes, size, List.length_append, Header.length_bytes, GroupRecord.length_listBytes]

theorem puts_write (r : Report) : r.write.Puts r.limits r.bytes :=
  r.header.puts_write.bind (GroupRecord.puts_writeList r.records)

theorem clears_iff {r : Report} {front : Bytes} : Clears r.reserved front r.bytes ↔
    ∃ records, front = r.header.bytes ++ records ∧
      Clears (GroupRecord.listReserved r.records) records (GroupRecord.listBytes r.records) := by
  rw [reserved, bytes, Clears.append_iff (m := kept 4) (Header.length_bytes _).symm]
  simp only [Clears.kept_iff, Header.length_bytes, and_true]
  constructor
  · rintro ⟨_, records, rfl, rfl, hr⟩
    exact ⟨records, rfl, hr⟩
  · rintro ⟨records, rfl, hr⟩
    exact ⟨_, records, rfl, rfl, hr⟩

theorem run_read_ok {b rest : Bytes} {r : Report} :
    read.run b = .ok (r, rest) ↔
      Fit r.limits ∧ ∃ front, b = front ++ rest ∧ Clears r.reserved front r.bytes := by
  rw [read]
  simp only [Reader.run_bind_ok, Reader.run_get_ok, Reader.run_need_ok, Header.run_read_ok,
    GroupRecord.run_readList_ok, Reader.run_pure_ok, clears_iff]
  constructor
  · rintro ⟨_, _, ⟨rfl, rfl⟩, _, _, ⟨-, rfl⟩, header, _, rfl, records, _, ⟨-, hfit, front, rfl, hr⟩,
      rfl, rfl⟩
    exact ⟨hfit, _, (List.append_assoc _ _ _).symm, front, rfl, hr⟩
  · rintro ⟨hfit, _, rfl, front, rfl, hr⟩
    have hfront : front.length = GroupRecord.listSize r.records := by
      rw [← hr.length_eq, GroupRecord.length_listBytes]
    have hlen : (r.header.bytes ++ front ++ rest).length =
        4 + GroupRecord.listSize r.records + rest.length := by
      rw [List.length_append, List.length_append, Header.length_bytes, hfront]
    have hmin := GroupRecord.minSize_mul_le r.records
    refine ⟨_, _, ⟨rfl, rfl⟩, (), _, ⟨?_, rfl⟩, r.header, _, List.append_assoc _ _ _, r.records, _,
      ⟨?_, hfit, front, rfl, hr⟩, rfl, rfl⟩
    · rw [hlen, GroupRecord.listSize]; omega
    · rw [hlen, GroupRecord.listSize]; omega

instance : Spelling Report where
  limits
  bytes
  reserved
  ReadsBack _ _ := True
  puts_write
  length_bytes
  clears_bytes r _ := clears_iff.2 ⟨_, rfl, GroupRecord.clears_listBytes_iff.2 ⟨_, rfl, rfl⟩⟩
  run_read_ok := by
    intro b rest r
    rw [true_and]
    exact run_read_ok

end Report

end PacketWatch.Icmpv6
