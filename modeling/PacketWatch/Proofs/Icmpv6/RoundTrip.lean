import PacketWatch.Proofs.Icmpv6.Message

namespace PacketWatch.Icmpv6.Message

open Wire

def KindMatches : Message → Prop
  | echo m => m.header.kind = Echo.requestKind ∨ m.header.kind = Echo.replyKind
  | query q => q.header.kind = Listener.queryKind
  | listener m => m.header.kind = Listener.reportKind ∨ m.header.kind = Listener.doneKind
  | report r => r.header.kind = Report.kind
  | unknown h _ => h.kind ∉ knownKinds

def IsSourceless : Message → Prop
  | query (.v2 q) => q.querier.sources = []
  | _ => False

def reservedAt : Message → Nat → UInt8
  | query (.v1 _), i | listener _, i => if i = 6 ∨ i = 7 then 0xff else 0
  | query (.v2 _), i => if i = 6 ∨ i = 7 then 0xff else if i = 24 then 0xf0 else 0
  | report _, i => if i = 4 ∨ i = 5 then 0xff else 0
  | echo _, _ | unknown _ _, _ => 0

variable {m : Message} {b : Bytes} {n : Nat}

theorem readsBack_zero_iff : m.ReadsBack 0 ↔ m.KindMatches ∧ ¬ m.IsSourceless := by
  cases m with
  | echo _ | report _ | unknown _ _ => simp [ReadsBack, KindMatches, IsSourceless]
  | listener _ => simp [ReadsBack, KindMatches, IsSourceless]
  | query q =>
      cases q with
      | v1 _ => simp [ReadsBack, KindMatches, IsSourceless, Query.ReadsBack]
      | v2 q =>
          have hsize : SourceQuery.minSize < q.size ↔ q.querier.sources ≠ [] := by
            rw [← List.length_pos_iff]
            change 28 < 24 + (4 + 16 * q.querier.sources.length) ↔ _
            omega
          simp [ReadsBack, KindMatches, IsSourceless, Query.ReadsBack, hsize]

theorem kindMatches_of_readsBack (h : m.ReadsBack n) : m.KindMatches := by
  cases m with
  | echo _ | query _ | unknown _ _ => exact h.1
  | listener _ | report _ => exact h

theorem getD_reserved (m : Message) (i : Nat) : m.reserved.getD i 0 = m.reservedAt i := by
  have hnewer (k : Nat) : (Listener.reserved ++ ([0xf0] ++ kept k)).getD i 0 =
      if i = 6 ∨ i = 7 then 0xff else if i = 24 then 0xf0 else 0 := by
    rw [Listener.reserved, List.append_assoc, List.append_assoc, ← List.replicate_one]
    simp only [getD_replicate_append, getD_kept]
    grind
  have holder : Listener.reserved.getD i 0 = if i = 6 ∨ i = 7 then 0xff else 0 := by
    rw [Listener.reserved]
    simp only [getD_replicate_append, getD_kept]
    grind
  cases m with
  | echo _ | unknown _ _ => exact getD_kept _ _
  | listener _ => exact holder
  | query q =>
      cases q with
      | v1 _ => exact holder
      | v2 q => exact hnewer _
  | report r =>
      rw [reserved, Report.reserved, GroupRecord.listReserved, reservedAt]
      simp only [getD_replicate_append, getD_kept]
      grind

/-- The number of sources stands behind 26 bytes. -/
theorem sourceCount_eq {q : SourceQuery} {front : Bytes} (hfit : Fit q.limits)
    (hc : Clears q.reserved front q.bytes) (rest : Bytes) :
    value (((front ++ rest).drop 26).take 2) = q.querier.sources.length := by
  obtain ⟨older, newer, rfl, holder, hnewer⟩ := SourceQuery.clears_iff.1 hc
  obtain ⟨flags, rfl, hflags⟩ := Querier.clears_iff.1 hnewer
  have hlength : (older ++ (flags ++ [q.querier.interval])).length = 26 := by
    simp [← holder.length_eq, ← hflags.length_eq, Listener.length_bytes]
  have hsplit : older ++ (flags ++ ([q.querier.interval] ++ (digits 2 q.querier.sources.length ++
      q.querier.sources.flatMap Address.bytes))) ++ rest = older ++ (flags ++ [q.querier.interval]) ++
        (digits 2 q.querier.sources.length ++ (q.querier.sources.flatMap Address.bytes ++ rest)) := by
    simp
  simp only [SourceQuery.limits, Querier.limits, fit_cons] at hfit
  rw [hsplit, List.drop_left' hlength, List.take_left' (length_digits _ _), value_digits (by omega)]

theorem exists_query_of_kind (h : m.KindMatches) (hkind : m.header.kind = Listener.queryKind) :
    ∃ q, m = query q := by
  cases m with
  | query q => exact ⟨q, rfl⟩
  | echo _ | listener _ =>
      rcases h with h | h
      · exact absurd (h.symm.trans hkind) (by decide)
      · exact absurd (h.symm.trans hkind) (by decide)
  | report _ => exact absurd (h.symm.trans hkind) (by decide)
  | unknown header _ =>
      refine absurd ?_ h
      rw [show header.kind = Listener.queryKind from hkind]
      decide

/-- A query is read as one of the newer version when something follows its fixed part, be it no source. -/
theorem isSourceless_iff (h : decode Message b = .ok (m, n)) : m.IsSourceless ↔
    b.head? = some Listener.queryKind ∧ SourceQuery.minSize < b.length ∧
      value ((b.drop 26).take 2) = 0 := by
  rw [Spelling.head?_of_decode eq_cons_of_clears h, Option.some.injEq]
  obtain ⟨rfl, hle, hback, hfit, hc⟩ := Spelling.decode_ok_iff_clears.1 h
  cases m with
  | echo _ | listener _ | report _ | unknown _ _ =>
      refine iff_of_false id fun hquery => ?_
      obtain ⟨q, hq⟩ := exists_query_of_kind (kindMatches_of_readsBack hback) hquery.1
      cases hq
  | query q =>
      cases q with
      | v1 l =>
          have hshort : Listener.length + (b.length - Listener.length) ≤ SourceQuery.minSize := hback.2
          refine iff_of_false id fun hquery => ?_
          omega
      | v2 q =>
          have hlong : SourceQuery.minSize < q.size + (b.length - q.size) := hback.2
          have hle' : q.size ≤ b.length := hle
          have hcount := sourceCount_eq hfit hc (b.drop q.size)
          rw [show WireFormat.size (query (.v2 q)) = q.size from rfl, List.take_append_drop] at hcount
          rw [hcount, List.length_eq_zero_iff]
          exact ⟨fun hnil => ⟨hback.1, by omega, hnil⟩, fun hquery => hquery.2.2⟩

/-- What is written of a query of the newer version without sources is one of the older version and
four bytes more. -/
theorem decode_sourceless {q : SourceQuery} (h : encode (query (.v2 q)) = .ok b)
    (hkind : q.base.header.kind = Listener.queryKind) (hsources : q.querier.sources = []) :
    decode Message b = .ok (query (.v1 q.base), Listener.length) := by
  obtain ⟨-, rfl⟩ := Spelling.encode_ok_iff.1 h
  have hlength : (Spelling.bytes (query (.v2 q))).length = SourceQuery.minSize := by
    rw [Spelling.length_bytes]
    change Listener.length + q.querier.size = _
    rw [Querier.size, hsources]
    rfl
  have htake : (Spelling.bytes (query (.v2 q))).take Listener.length = q.base.bytes :=
    List.take_left' q.base.length_bytes
  rw [Spelling.decode_ok_iff_clears, hlength, htake]
  have hshort : Listener.length + (SourceQuery.minSize - Listener.length) ≤ SourceQuery.minSize := by decide
  exact ⟨rfl, by decide, ⟨hkind, hshort⟩, fit_nil, Spelling.clears_bytes q.base fit_nil⟩

/-- A message that can be encoded is read back from its encoding exactly if its type is one of its form
and it is no query of the newer version without sources; such a query is read back as one of the older
version. What has been read has a type of its form and is encoded as the bytes it took, except that
reserved bits are zero; and those bytes are read as the same again unless they are such a query. -/
theorem reads_back_unless_sourceless :
    (∀ (m : Message) (b : Bytes), encode m = .ok b →
      (decode Message b = .ok (m, m.size) ↔ m.KindMatches ∧ ¬ m.IsSourceless) ∧
      ∀ q, m = query (.v2 q) → q.base.header.kind = Listener.queryKind → q.querier.sources = [] →
        decode Message b = .ok (query (.v1 q.base), 24)) ∧
    ∀ (b : Bytes) (m : Message) (n : Nat), decode Message b = .ok (m, n) →
      m.KindMatches ∧ b.head? = some m.header.kind ∧ n ≤ b.length ∧
      ∃ c, encode m = .ok c ∧ c = clearAt m.reservedAt (b.take n) ∧
        (decode Message c = .ok (m, n) ↔
          ¬ (b.head? = some Listener.queryKind ∧ 28 < b.length ∧ value ((b.drop 26).take 2) = 0)) := by
  constructor
  · intro m b h
    refine ⟨(Spelling.decode_of_encode h).trans readsBack_zero_iff, ?_⟩
    rintro q rfl hkind hsources
    exact decode_sourceless h hkind hsources
  · intro b m n h
    obtain rfl := Spelling.size_of_decode h
    have hkind := kindMatches_of_readsBack (Spelling.decode_ok_iff_clears.1 h).2.2.1
    have hencode := Spelling.encode_of_decode_clearAt (getD_reserved m) h
    refine ⟨hkind, Spelling.head?_of_decode eq_cons_of_clears h, Spelling.le_length_of_decode h, _, hencode,
      rfl, ?_⟩
    rw [← isSourceless_iff h]
    exact (Spelling.decode_of_encode hencode).trans (readsBack_zero_iff.trans (and_iff_right hkind))

theorem reads_back_unless_sourceless_dirty_query :
    let b : Bytes := [130, 0, 0, 0, 0, 5, 0xff, 0xff] ++ List.replicate 16 0 ++ [0xfa, 125, 0, 0, 7]
    let q : SourceQuery := ⟨.query 5 default, { suppress := true, robustness := 2, interval := 125, sources := [] }⟩
    let c : Bytes := [130, 0, 0, 0, 0, 5, 0, 0] ++ List.replicate 16 0 ++ [0x0a, 125, 0, 0]
    decode Message b = .ok (query (.v2 q), 28) ∧ encode (query (.v2 q)) = .ok c ∧
      c = clearAt (query (.v2 q)).reservedAt (b.take 28) ∧ decode Message c = .ok (query (.v1 q.base), 24) ∧
      decode Message c ≠ .ok (query (.v2 q), 28) := by
  intro b q c
  have hdecode : decode Message b = .ok (query (.v2 q), 28) := by decide +kernel +revert
  have hencode : encode (query (.v2 q)) = .ok c := by decide +kernel +revert
  obtain ⟨hwritten, hread⟩ := reads_back_unless_sourceless
  obtain ⟨-, -, -, c', hc', hclear, hback⟩ := hread b _ 28 hdecode
  obtain rfl : c = c' := Except.ok.inj (hencode.symm.trans hc')
  exact ⟨hdecode, hencode, hclear, (hwritten _ c hencode).2 q rfl rfl rfl,
    fun h => hback.1 h ⟨rfl, by decide, by decide +kernel +revert⟩⟩

end PacketWatch.Icmpv6.Message
