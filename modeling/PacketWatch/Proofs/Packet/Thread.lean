import PacketWatch.Proofs.Packet.Chain

namespace PacketWatch

namespace Extension

variable (e : Extension) (code : UInt8)

@[simp] theorem code_setNextHeader : (e.setNextHeader code).code = e.code := by
  cases e <;> rfl

@[simp] theorem nextHeader_setNextHeader : (e.setNextHeader code).nextHeader = code := by
  cases e <;> rfl

@[simp] theorem setNextHeader_nextHeader : e.setNextHeader e.nextHeader = e := by
  cases e <;> rfl

@[simp] theorem size_setNextHeader : (e.setNextHeader code).size = e.size := by
  cases e <;> rfl

@[simp] theorem isFragment_setNextHeader : (e.setNextHeader code).isFragment = e.isFragment := by
  cases e <;> rfl

@[simp] theorem readsBack_setNextHeader : (e.setNextHeader code).ReadsBack ↔ e.ReadsBack := by
  cases e <;> rfl

end Extension

namespace Packet

def chainCode (last : UInt8) : List Extension → UInt8
  | [] => last
  | e :: _ => e.code

/-- Makes each extension header name its successor, and the last one `last`. -/
def threadChain (last : UInt8) : List Extension → List Extension
  | [] => []
  | e :: rest => e.setNextHeader (chainCode last rest) :: threadChain last rest

variable {l m : List Extension} {code last : UInt8}

theorem chainCode_append : chainCode last (l ++ m) = chainCode (chainCode last m) l := by
  cases l <;> rfl

theorem chainCode_threadChain : chainCode last (threadChain last l) = chainCode last l := by
  cases l with
  | nil => rfl
  | cons e l => exact e.code_setNextHeader _

theorem isNamedBy_chainCode (h : l ≠ []) : Extension.isNamedBy (chainCode last l) = true := by
  cases l with
  | nil => exact absurd rfl h
  | cons e l => exact e.isNamedBy_code

/-- The chain is threaded in one pass from its end, which carries the code of the header behind. -/
theorem foldr_setNextHeader :
    l.foldr (fun e (code, done) => (e.code, e.setNextHeader code :: done)) (last, []) =
      (chainCode last l, threadChain last l) := by
  induction l with
  | nil => rfl
  | cons e l ih => rw [List.foldr_cons, ih, chainCode, threadChain]

theorem thread_eq_threadChain (p : Packet) : p.thread = { p with
    nextHeader := chainCode p.payload.code p.extensions
    extensions := threadChain p.payload.code p.extensions } := by
  rw [thread, foldr_setNextHeader]

theorem length_threadChain : (threadChain last l).length = l.length := by
  induction l with
  | nil => rfl
  | cons e l ih => rw [threadChain, List.length_cons, ih, List.length_cons]

theorem total_size_threadChain :
    Wire.total Extension.size (threadChain last l) = Wire.total Extension.size l := by
  induction l with
  | nil => rfl
  | cons e l ih => rw [threadChain, Wire.total_cons, Wire.total_cons, ih, e.size_setNextHeader]

theorem threadChain_append :
    threadChain last (l ++ m) = threadChain (chainCode last m) l ++ threadChain last m := by
  induction l with
  | nil => rfl
  | cons e l ih => rw [List.cons_append, threadChain, ih, chainCode_append, threadChain, List.cons_append]

theorem threadChain_take (k : Nat) :
    (threadChain last l).take k = threadChain (chainCode last (l.drop k)) (l.take k) := by
  induction l generalizing k with
  | nil => simp [threadChain]
  | cons e l ih =>
      cases k with
      | zero => rfl
      | succ k =>
          rw [List.take_succ_cons, List.drop_succ_cons, threadChain, threadChain, List.take_succ_cons, ih,
            ← chainCode_append, List.take_append_drop]

theorem threadChain_drop (k : Nat) : (threadChain last l).drop k = threadChain last (l.drop k) := by
  induction l generalizing k with
  | nil => simp [threadChain]
  | cons e l ih =>
      cases k with
      | zero => rfl
      | succ k => rw [threadChain, List.drop_succ_cons, ih, List.drop_succ_cons]

/-- Threading a chain keeps what does not depend on the codes that it sets. -/
theorem forall_mem_threadChain {P : Extension → Prop} (hP : ∀ e code, P (e.setNextHeader code) ↔ P e) :
    (∀ e ∈ threadChain last l, P e) ↔ ∀ e ∈ l, P e := by
  induction l with
  | nil => exact Iff.rfl
  | cons e l ih => rw [threadChain, List.forall_mem_cons, List.forall_mem_cons, hP, ih]

theorem readsBack_threadChain :
    (∀ e ∈ threadChain last l, e.ReadsBack) ↔ ∀ e ∈ l, e.ReadsBack :=
  forall_mem_threadChain Extension.readsBack_setNextHeader

theorem isFragment_threadChain :
    (∀ e ∈ threadChain last l, e.isFragment = false) ↔ ∀ e ∈ l, e.isFragment = false :=
  forall_mem_threadChain fun e code => by rw [e.isFragment_setNextHeader]

/-- A chain names its own first header, or what stands behind it. -/
theorem Linked.eq_chainCode (h : Linked code l last) : code = chainCode last l := by
  cases l with
  | nil => exact h
  | cons e l => exact h.1

theorem Linked.threadChain_eq (h : Linked code l last) : threadChain last l = l := by
  induction l generalizing code with
  | nil => rfl
  | cons e l ih =>
      rw [threadChain, ← h.2.eq_chainCode, e.setNextHeader_nextHeader, ih h.2]

theorem linked_iff_getElem : Linked code l last ↔ code = (l[0]?.map Extension.code).getD last ∧
    ∀ i e, l[i]? = some e → e.nextHeader = (l[i + 1]?.map Extension.code).getD last := by
  induction l generalizing code with
  | nil => simp [Linked]
  | cons d l ih =>
      rw [Linked, ih]
      constructor
      · rintro ⟨hcode, hnext, hrest⟩
        refine ⟨hcode, fun i e he => ?_⟩
        cases i with
        | zero =>
            cases he
            exact hnext
        | succ i => exact hrest i e he
      · rintro ⟨hcode, hall⟩
        exact ⟨hcode, hall 0 d rfl, fun i e he => hall (i + 1) e he⟩

theorem linked_append : Linked code (l ++ m) last ↔
    Linked code l (chainCode last m) ∧ Linked (chainCode last m) m last := by
  induction l generalizing code with
  | nil =>
      constructor
      · intro h
        have hcode := Linked.eq_chainCode h
        exact ⟨hcode, hcode ▸ h⟩
      · rintro ⟨hcode, h⟩
        rw [Linked] at hcode
        rwa [List.nil_append, hcode]
  | cons e l ih =>
      rw [List.cons_append, Linked, Linked, ih, and_assoc]

theorem linked_threadChain : Linked (chainCode last l) (threadChain last l) last := by
  induction l with
  | nil => rfl
  | cons e l ih =>
      refine ⟨(e.code_setNextHeader _).symm, ?_⟩
      rwa [e.nextHeader_setNextHeader]

theorem linked_thread (p : Packet) : Linked p.thread.nextHeader p.thread.extensions p.payload.code := by
  rw [thread_eq_threadChain]
  exact linked_threadChain

theorem extensions_build (source destination : Ipv6Address) (hopLimit : UInt8) (extensions : List Extension)
    (payload : Payload) : (build source destination hopLimit extensions payload).extensions =
      threadChain payload.code extensions := by
  rw [build, thread_eq_threadChain]

end Packet

end PacketWatch
