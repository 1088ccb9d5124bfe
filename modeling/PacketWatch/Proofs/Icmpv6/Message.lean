import PacketWatch.Icmpv6.Message
import PacketWatch.Proofs.Icmpv6.Listener

namespace PacketWatch.Icmpv6.Message

open Wire

def limits : Message → List EncodeError
  | echo _ | listener _ | unknown _ _ => []
  | query q => q.limits
  | report r => r.limits

def bytes : Message → Bytes
  | echo m => m.bytes
  | query q => q.bytes
  | listener m => m.bytes
  | report r => r.bytes
  | unknown h body => h.bytes ++ body

def reserved : Message → Bytes
  | echo m => kept m.size
  | query q => q.reserved
  | listener _ => Listener.reserved
  | report r => r.reserved
  | unknown _ body => kept (4 + body.length)

def knownKinds : List UInt8 :=
  [Echo.requestKind, Echo.replyKind, Listener.queryKind, Listener.reportKind, Listener.doneKind, Report.kind]

/-- A message is read back if its type belongs to its form. Echo messages and unknown ones take up
all the bytes there are, and a query is of the version that their number tells. -/
def ReadsBack : Message → Nat → Prop
  | echo m, n => (m.header.kind = Echo.requestKind ∨ m.header.kind = Echo.replyKind) ∧ n = 0
  | query q, n => q.header.kind = Listener.queryKind ∧ q.ReadsBack n
  | listener m, _ => m.header.kind = Listener.reportKind ∨ m.header.kind = Listener.doneKind
  | report r, _ => r.header.kind = Report.kind
  | unknown h _, n => h.kind ∉ knownKinds ∧ n = 0

theorem length_bytes (m : Message) : m.bytes.length = m.size := by
  cases m with
  | echo m => exact m.length_bytes
  | query q => exact q.length_bytes
  | listener m => exact m.length_bytes
  | report r => exact r.length_bytes
  | unknown h body => rw [bytes, size, List.length_append, Header.length_bytes]

theorem puts_write (m : Message) : m.write.Puts m.limits m.bytes := by
  cases m with
  | echo m => exact m.puts_write
  | query q => exact q.puts_write
  | listener m => exact m.puts_write
  | report r => exact r.puts_write
  | unknown h body => exact h.puts_write.bind (Writer.puts_bytes body)

theorem clears_bytes (m : Message) (h : Fit m.limits) : Clears m.reserved m.bytes m.bytes := by
  cases m with
  | echo m => exact Clears.kept_iff.2 ⟨rfl, m.length_bytes⟩
  | query q => exact q.clears_bytes h
  | listener m => exact Spelling.clears_bytes m fit_nil
  | report r => exact Spelling.clears_bytes r h
  | unknown _ _ => exact Clears.kept_iff.2 ⟨rfl, length_bytes (unknown _ _)⟩

/-- No bit of the type is reserved. -/
theorem eq_cons_of_clears {m : Message} {front : Bytes} (h : Clears m.reserved front m.bytes) :
    ∃ back, front = m.header.kind :: back := by
  have hlistener {m : Listener} {front : Bytes} (h : Clears Listener.reserved front m.bytes) :
      ∃ back, front = m.header.kind :: back := by
    obtain ⟨x, -, rfl⟩ := Listener.clears_iff.1 h
    exact ⟨_, rfl⟩
  cases m with
  | echo m =>
      obtain ⟨rfl, -⟩ := Clears.kept_iff.1 h
      exact ⟨_, rfl⟩
  | query q =>
      cases q with
      | v1 m => exact hlistener h
      | v2 q =>
          obtain ⟨older, newer, rfl, holder, -⟩ := SourceQuery.clears_iff.1 h
          obtain ⟨back, rfl⟩ := hlistener holder
          exact ⟨_, rfl⟩
  | listener m => exact hlistener h
  | report r =>
      obtain ⟨records, rfl, -⟩ := Report.clears_iff.1 h
      exact ⟨_, rfl⟩
  | unknown _ _ =>
      obtain ⟨rfl, -⟩ := Clears.kept_iff.1 h
      exact ⟨_, rfl⟩

theorem four_le_size (m : Message) : 4 ≤ m.size := by
  cases m with
  | echo m => simp only [size, Echo.size]; omega
  | query q => cases q <;> simp only [size, Query.size, SourceQuery.size, Listener.length] <;> omega
  | listener m => exact Nat.le_add_left 4 20
  | report r => simp only [size, Report.size]; omega
  | unknown _ body => simp only [size]; omega

theorem run_read_ok {b rest : Bytes} {m : Message} :
    read.run b = .ok (m, rest) ↔ m.ReadsBack rest.length ∧ Fit m.limits ∧
      ∃ front, b = front ++ rest ∧ Clears m.reserved front m.bytes := by
  rw [read]
  simp only [Reader.run_bind_ok, Reader.run_need_ok, Reader.run_peekByte_ok]
  constructor
  · rintro ⟨_, _, ⟨-, rfl⟩, kind, _, ⟨⟨left, rfl⟩, rfl⟩, h⟩
    -- Whatever the body is read as, its type is the byte that chose the reader.
    have hkind {m : Message} {front rest : Bytes} (hc : Clears m.reserved front m.bytes)
        (hb : kind :: left = front ++ rest) : m.header.kind = kind := by
      obtain ⟨back, rfl⟩ := eq_cons_of_clears hc
      exact (List.cons.inj hb).1.symm
    split at h
    · next hk =>
      simp only [Reader.run_bind_ok, Echo.run_read_ok, Reader.run_pure_ok] at h
      obtain ⟨e, _, ⟨rfl, hb⟩, rfl, rfl⟩ := h
      have hc : Clears (reserved (echo e)) e.bytes (bytes (echo e)) :=
        Clears.kept_iff.2 ⟨rfl, e.length_bytes⟩
      have he : e.header.kind = kind := hkind hc hb
      exact ⟨⟨by rwa [he], rfl⟩, fit_nil, e.bytes, hb, hc⟩
    split at h
    · next hk =>
      simp only [Reader.run_bind_ok, Query.run_read_ok, Reader.run_pure_ok] at h
      obtain ⟨q, _, ⟨hback, hfit, front, hb, hc⟩, rfl, rfl⟩ := h
      exact ⟨⟨(hkind (m := query q) hc hb).trans hk, hback⟩, hfit, front, hb, hc⟩
    split at h
    · next hk =>
      simp only [Reader.run_bind_ok, Listener.run_read_ok, Reader.run_pure_ok] at h
      obtain ⟨l, _, ⟨front, hb, hc⟩, rfl, rfl⟩ := h
      have hl : l.header.kind = kind := hkind (m := listener l) hc hb
      exact ⟨by rwa [ReadsBack, hl], fit_nil, front, hb, hc⟩
    split at h
    · next hk =>
      simp only [Reader.run_bind_ok, Report.run_read_ok, Reader.run_pure_ok] at h
      obtain ⟨r, _, ⟨hfit, front, hb, hc⟩, rfl, rfl⟩ := h
      exact ⟨(hkind (m := report r) hc hb).trans hk, hfit, front, hb, hc⟩
    · next hecho hquery hlistener hreport =>
      simp only [Reader.run_bind_ok, Header.run_read_ok, Reader.run_rest_ok, Reader.run_pure_ok] at h
      obtain ⟨header, _, hb, body, _, ⟨rfl, rfl⟩, rfl, rfl⟩ := h
      have hc : Clears (reserved (unknown header body)) (header.bytes ++ body)
          (bytes (unknown header body)) :=
        Clears.kept_iff.2 ⟨rfl, length_bytes (unknown header body)⟩
      have hb' : kind :: left = header.bytes ++ body ++ [] := by rw [hb, List.append_nil]
      refine ⟨⟨?_, rfl⟩, fit_nil, _, hb', hc⟩
      rw [show header.kind = kind from hkind hc hb']
      simp only [knownKinds, List.mem_cons, List.not_mem_nil, or_false]
      tauto
  · rintro ⟨hback, hfit, front, rfl, hc⟩
    have hlen : (front ++ rest).length = m.size + rest.length := by
      rw [List.length_append, ← hc.length_eq, length_bytes]
    have hfour := four_le_size m
    obtain ⟨back, rfl⟩ := eq_cons_of_clears hc
    refine ⟨(), _, ⟨by omega, rfl⟩, m.header.kind, _, ⟨⟨back ++ rest, rfl⟩, rfl⟩, ?_⟩
    cases m with
    | echo e =>
        obtain ⟨hk, hr⟩ := hback
        have hk' : (echo e).header.kind = Echo.requestKind ∨ (echo e).header.kind = Echo.replyKind := hk
        obtain ⟨hb, -⟩ := Clears.kept_iff.1 hc
        rw [if_pos hk', hb]
        simp only [Reader.run_bind_ok, Echo.run_read_ok, Reader.run_pure_ok]
        exact ⟨e, rest, ⟨List.length_eq_zero_iff.1 hr, rfl⟩, rfl, rfl⟩
    | query q =>
        obtain ⟨hk, hr⟩ := hback
        have hk' : (query q).header.kind = Listener.queryKind := hk
        rw [if_neg (by rw [hk']; decide), if_pos hk']
        simp only [Reader.run_bind_ok, Query.run_read_ok, Reader.run_pure_ok]
        exact ⟨q, rest, ⟨hr, hfit, _, rfl, hc⟩, rfl, rfl⟩
    | listener l =>
        have hk : (listener l).header.kind = Listener.reportKind ∨
            (listener l).header.kind = Listener.doneKind := hback
        rw [if_neg (by rcases hk with hk | hk <;> rw [hk] <;> decide),
          if_neg (by rcases hk with hk | hk <;> rw [hk] <;> decide), if_pos hk]
        simp only [Reader.run_bind_ok, Listener.run_read_ok, Reader.run_pure_ok]
        exact ⟨l, rest, ⟨_, rfl, hc⟩, rfl, rfl⟩
    | report r =>
        have hk : (report r).header.kind = Report.kind := hback
        rw [if_neg (by rw [hk]; decide), if_neg (by rw [hk]; decide), if_neg (by rw [hk]; decide),
          if_pos hk]
        simp only [Reader.run_bind_ok, Report.run_read_ok, Reader.run_pure_ok]
        exact ⟨r, rest, ⟨hfit, _, rfl, hc⟩, rfl, rfl⟩
    | unknown header body =>
        obtain ⟨hk, hr⟩ := hback
        have hk' : (unknown header body).header.kind ∉ knownKinds := hk
        obtain ⟨hb, -⟩ := Clears.kept_iff.1 hc
        simp only [knownKinds, List.mem_cons, List.not_mem_nil, or_false, not_or] at hk'
        rw [if_neg (by tauto), if_neg (by tauto), if_neg (by tauto), if_neg (by tauto), hb,
          List.length_eq_zero_iff.1 hr, List.append_nil]
        simp only [Reader.run_bind_ok, Header.run_read_ok, Reader.run_rest_ok, Reader.run_pure_ok]
        exact ⟨header, body, rfl, body, [], ⟨rfl, rfl⟩, rfl, rfl⟩

instance : Spelling Message where
  limits
  bytes
  reserved
  ReadsBack
  puts_write
  length_bytes
  clears_bytes
  run_read_ok

end PacketWatch.Icmpv6.Message
