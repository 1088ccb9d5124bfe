import PacketWatch.Proofs.Session.Kept

namespace PacketWatch.Session

/-- A session on its way: its task takes steps while others act on it, in any order. -/
inductive Run (s : Session) : Log → Session → Prop
  | refl : Run s [] s
  | step {log : Log} {t u : Session} {events : List Event} (hrun : Run s log t)
      (hstep : t.step = some (u, events)) : Run s log u
  | act {log : Log} {t : Session} (hrun : Run s log t) (a : Action) :
      Run s (log ++ [(a, (t.act a).1)]) (t.act a).2

variable {s t : Session} {log : Log}

/-- What holds at the beginning and is kept by every move and every deed holds all the way. -/
theorem Run.invariant {P : Log → Session → Prop} (hrun : Run s log t) (hstart : P [] s)
    (hmove : ∀ {log t u events}, P log t → Move t u events → P log u)
    (hdeed : ∀ {log t e u}, P log t → Deed t e u → P (log ++ [e]) u) : P log t := by
  induction hrun with
  | refl => exact hstart
  | step _ hstep ih => exact hmove ih (move_of_step hstep)
  | act _ a ih => exact hdeed ih (deed_of_act _ a)

theorem Run.room_eq_none (hrun : Run s log t) (hroom : s.connection.room = none)
    (hallow : ∀ e ∈ log, ∀ n, e.1 ≠ .allow n) : t.connection.room = none := by
  refine hrun.invariant (P := fun log t => (∀ e ∈ log, ∀ n, e.1 ≠ .allow n) → t.connection.room = none)
    (fun _ => hroom) (fun h hmove hallow => hmove.room (h hallow)) ?_ hallow
  intro log t e u h hdeed hallow
  rw [List.forall_mem_append, List.forall_mem_singleton] at hallow
  rw [hdeed.room hallow.2]
  exact h hallow.1

theorem Run.settle (hrun : Run s log t) : Run s log t.settle.1 := by
  fun_induction Session.settle t with
  | case1 => exact hrun
  | case2 t u told hstep last rest hsettle ih =>
      rw [hsettle] at ih
      exact ih (hrun.step hstep)

theorem step_settle (s : Session) : s.settle.1.step = none := by
  fun_induction Session.settle s with
  | case1 s hstep => exact hstep
  | case2 s t told hstep last rest hsettle ih =>
      rw [hsettle] at ih
      exact ih

/-- Draining is receiving, and leaves nothing to be received. -/
theorem Run.drain (hrun : Run s log t) (hstep : t.step = none) : ∃ more : Log,
    Run s (log ++ more) t.drain.2.1 ∧ more.received = t.drain.1 ∧ (∀ e ∈ more, e.1 = .receive) ∧
      t.drain.2.1.step = none ∧ t.drain.2.1.inbound = [] := by
  fun_induction Session.drain t generalizing log with
  | case1 t i u hreceive items last told hdrain ih =>
      have hact : t.act .receive = (.received (.item i), u) := by
        rw [Session.act, hreceive]
      have hnext := hrun.act .receive
      rw [hact] at hnext
      obtain ⟨more, hmore, hreceived, honly, hlast⟩ := ih hnext.settle (step_settle u)
      rw [hdrain] at hmore hreceived hlast
      refine ⟨(.receive, .received (.item i)) :: more, ?_, ?_, ?_, hlast⟩
      · rwa [List.append_assoc, List.singleton_append] at hmore
      · exact congrArg (i :: ·) hreceived
      · rw [List.forall_mem_cons]
        exact ⟨rfl, honly⟩
  | case2 t r u hno hreceive =>
      unfold receive at hreceive
      split at hreceive
      · next i _ _ =>
        cases hreceive
        exact absurd rfl (hno i)
      · next hinbound =>
        cases hreceive
        refine ⟨[], ?_, rfl, by simp, hstep, hinbound⟩
        rwa [List.append_nil]

end PacketWatch.Session
