import PacketWatch.Proofs.Session.Log

namespace PacketWatch.Connection

def ahead (c : Connection) : List Signal := c.incoming.flatMap Incoming.signals

def unreadBytes (c : Connection) : Bytes := c.incoming.flatMap Incoming.bytes

/-- No chunk in store is empty; an empty one would read as the end of the stream. -/
def Tidy (c : Connection) : Prop := ∀ i ∈ c.incoming, i ≠ .chunk []

def Faulty (c : Connection) : Prop :=
  c.writeFault ≠ none ∨ c.writesNothing = true ∨ c.flushFault ≠ none

variable {c d : Connection} {limit : Nat} {b left : Bytes} {reason : String}

theorem ahead_deliver (c : Connection) (i : Incoming) : (c.deliver i).ahead = c.ahead ++ i.signals := by
  unfold deliver
  split
  · exact (List.append_nil _).symm
  · rw [ahead, ahead, List.flatMap_append, List.flatMap_singleton]

theorem filterMap_ahead (c : Connection) : c.ahead.filterMap Signal.byte? = c.unreadBytes :=
  filterMap_flatMap_signals c.incoming

theorem Tidy.deliver (h : c.Tidy) (i : Incoming) : (c.deliver i).Tidy := by
  unfold Connection.deliver
  split
  · exact h
  · next hi =>
    intro j hj
    rcases List.mem_append.1 hj with hj | hj
    · exact h j hj
    · rw [List.mem_singleton.1 hj]
      exact hi

theorem length_le_of_read (h : c.read limit = .data b d) : b.length ≤ limit := by
  unfold read at h
  split at h
  · cases h
  · cases h
    rw [List.length_take]
    exact Nat.min_le_left _ _
  · cases h
    exact Nat.zero_le _
  · cases h

theorem ahead_of_read_wait (h : c.read limit = .wait) : c.ahead = [] := by
  unfold read at h
  split at h
  · next hin => rw [ahead, hin]; rfl
  · cases h
  · cases h
  · cases h

theorem ahead_of_read_fault (h : c.read limit = .fault reason d) : c.ahead = .broken reason :: d.ahead := by
  unfold read at h
  split at h
  · cases h
  · cases h
  · cases h
  · next hin => cases h; rw [ahead, hin]; rfl

theorem ahead_of_read (h : c.read limit = .data b d) (hb : b ≠ []) : c.ahead = signals b ++ d.ahead := by
  unfold read at h
  split at h
  · cases h
  · next chunk rest hin =>
    cases h
    rw [ahead, ahead, hin, List.flatMap_cons, List.flatMap_append, ← List.append_assoc]
    congr 1
    have hchunk := List.take_append_drop limit chunk
    by_cases hle : chunk.length ≤ limit
    · rw [if_pos hle, List.take_of_length_le hle]
      exact (List.append_nil _).symm
    · rw [if_neg hle, List.flatMap_singleton]
      conv => lhs; rw [← hchunk]
      exact signals_append _ _
  · cases h
    exact absurd rfl hb
  · cases h

/-- A read that gives no bytes has met the end of the stream, which stays. -/
theorem ahead_of_read_nil (htidy : c.Tidy) (hlimit : 1 ≤ limit) (h : c.read limit = .data [] d) :
    (∃ rest, c.ahead = .done :: rest) ∧ d = c := by
  unfold read at h
  split at h
  · cases h
  · next chunk rest hin =>
    rw [ReadResult.data.injEq] at h
    have hnil : chunk = [] := by
      rcases List.take_eq_nil_iff.1 h.1 with hzero | hnil
      · omega
      · exact hnil
    refine absurd rfl (htidy (.chunk []) ?_)
    rw [hin, hnil]
    exact List.mem_cons_self
  · next rest hin =>
    cases h
    exact ⟨⟨rest.flatMap Incoming.signals, by rw [ahead, hin]; rfl⟩, rfl⟩
  · cases h

theorem Tidy.read (htidy : c.Tidy) (h : c.read limit = .data b d) : d.Tidy := by
  unfold Connection.read at h
  split at h
  · cases h
  · next chunk rest hin =>
    cases h
    rw [Tidy, hin, List.forall_mem_cons] at htidy
    intro i hi
    rcases List.mem_append.1 hi with hi | hi
    · split at hi
      · cases hi
      · next hlong =>
        rw [List.mem_singleton.1 hi]
        intro hnil
        rw [Incoming.chunk.injEq, List.drop_eq_nil_iff] at hnil
        exact hlong hnil
    · exact htidy.2 i hi
  · cases h
    exact htidy
  · cases h

theorem Tidy.read_fault (htidy : c.Tidy) (h : c.read limit = .fault reason d) : d.Tidy := by
  unfold Connection.read at h
  split at h
  · cases h
  · cases h
  · cases h
  · next hin =>
    cases h
    rw [Tidy, hin, List.forall_mem_cons] at htidy
    exact htidy.2

/-! Reading and delivering leave alone what is written. -/

theorem eq_of_read (h : c.read limit = .data b d) : d = { c with incoming := d.incoming } := by
  unfold read at h
  split at h
  · cases h
  · cases h; rfl
  · cases h; rfl
  · cases h

theorem eq_of_read_fault (h : c.read limit = .fault reason d) : d = { c with incoming := d.incoming } := by
  unfold read at h
  split at h
  · cases h
  · cases h
  · cases h
  · cases h; rfl

theorem written_of_read (h : c.read limit = .data b d) : d.written = c.written := by
  rw [eq_of_read h]

theorem written_of_read_fault (h : c.read limit = .fault reason d) : d.written = c.written := by
  rw [eq_of_read_fault h]

theorem eq_deliver (c : Connection) (i : Incoming) :
    c.deliver i = { c with incoming := (c.deliver i).incoming } := by
  unfold deliver
  split <;> rfl

theorem faulty_of_write (h : c.write b = .fault reason) : c.Faulty := by
  unfold write at h
  split at h
  · next hfault =>
    rw [Faulty, hfault]
    exact .inl (by simp)
  · split at h
    · next hnothing => exact .inr (.inl hnothing)
    · split at h <;> cases h

theorem faulty_of_flush (h : c.flush = .error reason) : c.Faulty := by
  unfold flush at h
  split at h
  · next hfault =>
    rw [Faulty, hfault]
    exact .inr (.inr (by simp))
  · cases h

/-- A flush changes nothing but what is known to be flushed. -/
theorem eq_of_flush (h : c.flush = .ok d) : d = { c with flushed := c.written.length } := by
  unfold flush at h
  split at h
  · cases h
  · cases h; rfl

theorem written_of_flush (h : c.flush = .ok d) : d.written = c.written := by
  rw [eq_of_flush h]

theorem write_sent (h : c.write b = .sent left d) : ∃ out, b = out ++ left ∧
    d.written = c.written ++ out ∧ d.incoming = c.incoming ∧ (d.Faulty ↔ c.Faulty) := by
  unfold write at h
  split at h
  · cases h
  · split at h
    · cases h
    · split at h
      · cases h
        exact ⟨b, (List.append_nil b).symm, rfl, rfl, Iff.rfl⟩
      · cases h
      · next n _ _ =>
        cases h
        exact ⟨b.take n, (List.take_append_drop n b).symm, rfl, rfl, Iff.rfl⟩

theorem room_of_write_wait (h : c.write b = .wait) : c.room = some 0 := by
  unfold write at h
  split at h
  · cases h
  · split at h
    · cases h
    · split at h
      · cases h
      · next hroom => exact hroom
      · cases h

theorem room_of_write (h : c.write b = .sent left d) (hroom : c.room = none) : d.room = none := by
  unfold write at h
  rw [hroom] at h
  split at h
  · cases h
  · split at h
    · cases h
    · cases h
      rfl

end PacketWatch.Connection
