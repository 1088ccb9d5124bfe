import Mathlib.Data.List.Forall2
import PacketWatch.Proofs.Framing.FrameSize
import PacketWatch.Session.Run

namespace PacketWatch

inductive CutEnd where
  /-- What is left is no whole frame; its length is kept. -/
  | leftover (length : Nat)
  | fault (error : SessionError)
deriving DecidableEq

/-- The packets that the frames of a byte string hold, one frame after another and none longer than
`max`, and why there are no more. -/
def cut (max : Nat) (b : Bytes) : List Packet × CutEnd :=
  match _h : frameSize? b with
  | .error e => ([], .fault (.decode e))
  | .ok none => ([], .leftover b.length)
  | .ok (some n) =>
    if max < n then ([], .fault (.messageTooLarge n max))
    else if b.length < n then ([], .leftover b.length)
    else
      match parseFrame (b.take n) with
      | .error e => ([], .fault (.decode e))
      | .ok p => (p :: (cut max (b.drop n)).1, (cut max (b.drop n)).2)
termination_by b.length
decreasing_by
  all_goals
    have := frameSize?_pos _h
    rw [List.length_drop]
    omega

structure IsFrame (max : Nat) (f : Bytes) (p : Packet) : Prop where
  size : frameSize? f = .ok (some f.length)
  le : f.length ≤ max
  parse : parseFrame f = .ok p

inductive Framed (max : Nat) : Bytes → List Packet → Prop
  | nil : Framed max [] []
  | snoc {b f : Bytes} {ps : List Packet} {p : Packet} (hb : Framed max b ps) (hf : IsFrame max f p) :
      Framed max (b ++ f) (ps ++ [p])

variable {max : Nat} {b c f : Bytes} {p : Packet} {ps : List Packet}

theorem cut_of_frameSize {n : Nat} (h : frameSize? b = .ok (some n)) : cut max b =
    if max < n then ([], .fault (.messageTooLarge n max))
    else if b.length < n then ([], .leftover b.length)
    else
      match parseFrame (b.take n) with
      | .error e => ([], .fault (.decode e))
      | .ok p => (p :: (cut max (b.drop n)).1, (cut max (b.drop n)).2) := by
  rw [cut]
  split
  · next hs => rw [h] at hs; cases hs
  · next hs => rw [h] at hs; cases hs
  · next hs =>
    rw [h] at hs
    cases hs
    rfl

theorem cut_of_frameSize_none (h : frameSize? b = .ok none) : cut max b = ([], .leftover b.length) := by
  rw [cut]
  split
  · next hs => rw [h] at hs; cases hs
  · rfl
  · next hs => rw [h] at hs; cases hs

theorem cut_of_frameSize_error {e : DecodeError} (h : frameSize? b = .error e) :
    cut max b = ([], .fault (.decode e)) := by
  rw [cut]
  split
  · next hs =>
    rw [h] at hs
    cases hs
    rfl
  · next hs => rw [h] at hs; cases hs
  · next hs => rw [h] at hs; cases hs

theorem IsFrame.cut_append (h : IsFrame max f p) (c : Bytes) :
    cut max (f ++ c) = (p :: (cut max c).1, (cut max c).2) := by
  have hlen : ¬ (f ++ c).length < f.length := by
    rw [List.length_append]; omega
  rw [cut_of_frameSize (frameSize?_append h.size c), if_neg (Nat.not_lt.2 h.le), if_neg hlen,
    List.take_left, h.parse, List.drop_left]

theorem Framed.cut_append (h : Framed max b ps) (c : Bytes) :
    cut max (b ++ c) = (ps ++ (cut max c).1, (cut max c).2) := by
  induction h generalizing c with
  | nil => rfl
  | snoc hb hf ih => rw [List.append_assoc, ih, hf.cut_append, List.append_assoc, List.singleton_append]

theorem Framed.exists_frames (h : Framed max b ps) :
    ∃ frames : List Bytes, b = frames.flatten ∧ List.Forall₂ (IsFrame max) frames ps := by
  induction h with
  | nil => exact ⟨[], rfl, .nil⟩
  | snoc _ hf ih =>
      obtain ⟨frames, rfl, hframes⟩ := ih
      refine ⟨frames ++ [_], ?_, List.rel_append hframes (.cons hf .nil)⟩
      rw [List.flatten_append, List.flatten_singleton]

theorem isFrame_take {n : Nat} (hs : frameSize? b = .ok (some n)) (hmax : ¬ max < n)
    (hlen : n ≤ b.length) (hparse : parseFrame (b.take n) = .ok p) : IsFrame max (b.take n) p := by
  have htake : (b.take n).length = n := by
    rw [List.length_take]; omega
  refine ⟨?_, by omega, hparse⟩
  rw [htake]
  exact frameSize?_take hs hlen

theorem cut_prefix_append (max : Nat) (b c : Bytes) : (cut max b).1 <+: (cut max (b ++ c)).1 := by
  fun_induction cut max b with
  | case6 b n hs hmax hlen p hparse ih =>
      have hframe := isFrame_take hs hmax (Nat.not_lt.1 hlen) hparse
      have hcut := hframe.cut_append (b.drop n ++ c)
      rw [← List.append_assoc, List.take_append_drop] at hcut
      rw [hcut, List.cons_prefix_cons]
      exact ⟨rfl, ih⟩
  | _ => exact List.nil_prefix

theorem isFrame_of_encode (h : encode p = .ok b) (hp : p.IsCanonical) (hmax : p.size ≤ max) :
    IsFrame max b p := by
  have hdecode : decode Packet b = .ok (p, p.size) := (Spelling.decode_of_encode h).2 hp
  have hlen : b.length = p.size := Spelling.length_of_encode h
  refine ⟨?_, by omega, ?_⟩
  · rw [hlen]
    exact frameSize?_of_decode hdecode
  · rw [parseFrame_ok_iff, hlen]
    exact hdecode

theorem Framed.append_encodings (h : Framed max b ps) {qs : List Packet} {encodings : List Bytes}
    (hencode : qs.map encode = encodings.map .ok) (hqs : ∀ q ∈ qs, q.IsCanonical ∧ q.size ≤ max) :
    Framed max (b ++ encodings.flatten) (ps ++ qs) := by
  induction qs generalizing b ps encodings with
  | nil =>
      rw [List.map_eq_nil_iff.1 hencode.symm, List.flatten_nil, List.append_nil, List.append_nil]
      exact h
  | cons q qs ih =>
      cases encodings with
      | nil => cases hencode
      | cons c encodings =>
          rw [List.map_cons, List.map_cons, List.cons.injEq] at hencode
          rw [List.forall_mem_cons] at hqs
          have hq := h.snoc (isFrame_of_encode hencode.1 hqs.1.1 hqs.1.2)
          rw [List.flatten_cons, ← List.append_assoc, ← List.singleton_append, ← List.append_assoc]
          exact ih hq hencode.2 hqs.2

/-- What is sent packet by packet is cut into the same packets, with nothing left. -/
theorem cut_encodings {encodings : List Bytes} (hencode : ps.map encode = encodings.map .ok)
    (hps : ∀ p ∈ ps, p.IsCanonical ∧ p.size ≤ max) : cut max encodings.flatten = (ps, .leftover 0) := by
  have hframed := Framed.nil.append_encodings hencode hps
  have hnil : cut max [] = ([], .leftover 0) := cut_of_frameSize_none rfl
  have hcut := hframed.cut_append []
  rwa [List.append_nil, hnil, List.append_nil] at hcut

namespace Session

variable {n : Nat}

theorem cut_of_incomplete (h : scan max b = .incomplete) : cut max b = ([], .leftover b.length) := by
  unfold scan at h
  split at h
  · cases h
  · next hs => exact cut_of_frameSize_none hs
  · next n hs =>
    split at h
    · cases h
    · next hmax =>
      split at h
      · next hr =>
        have hlen : b.length < n := by
          rw [Bool.not_eq_true'] at hr
          by_contra hge
          rw [Wire.reaches_eq_true_iff.2 (Nat.not_lt.1 hge)] at hr
          cases hr
        rw [cut_of_frameSize hs, if_neg hmax, if_pos hlen]
      · split at h <;> cases h

theorem cut_of_fault {e : SessionError} (h : scan max b = .fault e) (c : Bytes) :
    cut max (b ++ c) = ([], .fault e) := by
  unfold scan at h
  split at h
  · next hs =>
    cases h
    exact cut_of_frameSize_error (frameSize?_append_of_error hs c)
  · cases h
  · next n hs =>
    split at h
    · next hmax =>
      cases h
      rw [cut_of_frameSize (frameSize?_append hs c), if_pos hmax]
    · split at h
      · cases h
      · split at h <;> cases h

theorem cut_of_badFrame {e : DecodeError} (h : scan max b = .badFrame e n) (c : Bytes) :
    cut max (b ++ c) = ([], .fault (.decode e)) := by
  obtain ⟨-, hle⟩ := scan_badFrame h
  unfold scan at h
  split at h
  · cases h
  · cases h
  · next hs =>
    split at h
    · cases h
    · next hmax =>
      split at h
      · cases h
      · split at h
        · cases h
        · next hparse =>
          cases h
          have hlen : ¬ (b ++ c).length < n := by
            rw [List.length_append]; omega
          rw [cut_of_frameSize (frameSize?_append hs c), if_neg hmax, if_neg hlen,
            List.take_append_of_le_length hle, hparse]

theorem isFrame_of_scan (h : scan max b = .message p n) : IsFrame max (b.take n) p := by
  obtain ⟨-, hle⟩ := scan_message h
  unfold scan at h
  split at h
  · cases h
  · cases h
  · next hs =>
    split at h
    · cases h
    · next hmax =>
      split at h
      · cases h
      · split at h
        · next hparse =>
          cases h
          exact isFrame_take hs hmax hle hparse
        · cases h

theorem scan_of_isFrame (h : IsFrame max f p) (c : Bytes) : scan max (f ++ c) = .message p f.length := by
  have hlen : f.length ≤ (f ++ c).length := by
    rw [List.length_append]
    exact Nat.le_add_right _ _
  rw [scan, frameSize?_append h.size c]
  simp only [Nat.not_lt.2 h.le, if_false, Wire.reaches_eq_true_iff.2 hlen, Bool.not_true,
    Bool.false_eq_true, List.take_left, h.parse]

theorem step_of_isFrame {s : Session} (hphase : s.phase = .scanning) (hbuffer : s.buffer = f ++ c)
    (h : IsFrame s.settings.maxMessageSize f p) :
    s.step = some ({ s with phase := .publishing p, buffer := c }, [.carved f.length]) := by
  rw [step, hphase, hbuffer]
  simp only [scan_of_isFrame h, List.drop_left]

end Session

end PacketWatch
