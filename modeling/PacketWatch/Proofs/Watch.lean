import PacketWatch.Proofs.Session.Delivery
import PacketWatch.Watch

namespace PacketWatch.Watch

def told (w : Watch) (ps : List Packet) : List LogLine :=
  ps.mapIdx fun i p => w.line .info s!"#{w.count + i + 1} {p.summary}"

def closing (w : Watch) : SessionError → LogLine
  | .connectionClosed => w.line .info "Connection closed"
  | e => w.line .error s!"Stream ended: {e.message}"

/-- How many of `available` packets are described under a limit. One is described even if the limit
is zero. -/
def share (limit : Option Nat) (available : Nat) : Nat :=
  match limit with
  | some n => min (max n 1) available
  | none => available

variable {w : Watch} {p : Packet} {ps : List Packet} {e : SessionError} {tail : List Item} {n : Nat}

theorem told_cons (w : Watch) (p : Packet) (ps : List Packet) :
    w.told (p :: ps) = w.told [p] ++ told { w with count := w.count + 1 } ps := by
  have hcount (i : Nat) : w.count + (i + 1) + 1 = w.count + 1 + i + 1 := by omega
  simp only [told, List.mapIdx_cons, List.mapIdx_nil, hcount]
  rfl

theorem see_error (w : Watch) (e : SessionError) : w.see (.error e) = ([w.closing e], w) := by
  cases e <;> rfl

theorem seeAll_cons_of_isOver {i : Item} {rest : List Item} (h : (w.see i).2.isOver = true) :
    w.seeAll (i :: rest) = w.see i := by
  rw [seeAll]
  exact if_pos h

theorem seeAll_cons {i : Item} {rest : List Item} (h : (w.see i).2.isOver = false) :
    w.seeAll (i :: rest) = ((w.see i).1 ++ ((w.see i).2.seeAll rest).1, ((w.see i).2.seeAll rest).2) := by
  rw [seeAll]
  exact if_neg (ne_true_of_eq_false h)

theorem seeAll_errors (hover : w.isOver = false) (e? : Option SessionError) :
    w.seeAll (e?.toList.map .error) = (e?.toList.map w.closing, w) := by
  cases e? with
  | none => rfl
  | some e =>
      have hsee : w.seeAll [.error e] = _ := seeAll_cons (by rw [see_error]; exact hover)
      rw [see_error] at hsee
      simpa [seeAll] using hsee

theorem see_of_limit_le (hlimit : w.limit = some n) (hn : n ≤ w.count + 1) : w.see (.ok p) =
    (w.told [p] ++ [w.line .info "Message limit reached"],
      { w with count := w.count + 1, isOver := true }) := by
  simp [see, told, hlimit, hn, line]

theorem see_of_lt_limit (hlimit : ∀ n ∈ w.limit, w.count + 1 < n) :
    w.see (.ok p) = (w.told [p], { w with count := w.count + 1 }) := by
  have hnot : w.limit.any (· ≤ w.count + 1) = false := by
    cases hn : w.limit with
    | none => rfl
    | some n => simpa [hn] using hlimit
  simp [see, told, hnot, line]

/-- A packet before the limit is told, and what follows it is told with the count one higher. -/
theorem seeAll_ok_cons (hover : w.isOver = false) (hlimit : ∀ n ∈ w.limit, w.count + 1 < n) {rest : List Item} :
    w.seeAll (.ok p :: rest) = (w.told [p] ++ (seeAll { w with count := w.count + 1 } rest).1,
      (seeAll { w with count := w.count + 1 } rest).2) := by
  have hsee : w.seeAll (.ok p :: rest) = _ := seeAll_cons (by rw [see_of_lt_limit hlimit]; exact hover)
  rwa [see_of_lt_limit hlimit] at hsee

/-- Under a limit that is reached nothing behind it is looked at. By induction on the packets, each of
which brings the count nearer to the limit. -/
theorem seeAll_of_limit_le {k : Nat} (hlimit : w.limit = some n) (hover : w.isOver = false)
    (hk : k = max (n - w.count) 1) (hle : k ≤ ps.length) : w.seeAll (ps.map .ok ++ tail) =
      (w.told (ps.take k) ++ [w.line .info "Message limit reached"],
        { w with count := w.count + k, isOver := true }) := by
  induction ps generalizing w k with
  | nil =>
      rw [List.length_nil] at hle
      omega
  | cons p ps ih =>
      rw [List.length_cons] at hle
      rw [List.map_cons, List.cons_append]
      by_cases hn : n ≤ w.count + 1
      · obtain rfl : k = 1 := by omega
        have hsee := see_of_limit_le (p := p) hlimit hn
        rw [seeAll_cons_of_isOver (by rw [hsee]), hsee]
        rfl
      · obtain ⟨j, rfl⟩ : ∃ j, k = j + 1 := ⟨k - 1, by omega⟩
        have hnext : ∀ n' ∈ w.limit, w.count + 1 < n' := by
          rw [hlimit]
          simpa using hn
        have hcount : w.count + 1 + j = w.count + (j + 1) := by omega
        have hj : j = max (n - (w.count + 1)) 1 := by omega
        rw [seeAll_ok_cons hover hnext, ih (w := { w with count := w.count + 1 }) hlimit hover hj (by omega)]
        rw [List.take_succ_cons, told_cons w p (ps.take j), List.append_assoc, hcount]
        rfl

/-- As long as the limit is not reached everything is told, and what follows the packets as well. -/
theorem seeAll_of_lt_limit (hlimit : ∀ n ∈ w.limit, ps.length < max (n - w.count) 1) (hover : w.isOver = false) :
    w.seeAll (ps.map .ok ++ tail) =
      (w.told ps ++ (seeAll { w with count := w.count + ps.length } tail).1,
        (seeAll { w with count := w.count + ps.length } tail).2) := by
  induction ps generalizing w with
  | nil => rfl
  | cons p ps ih =>
      rw [List.length_cons] at hlimit
      have hnext : ∀ n ∈ w.limit, w.count + 1 < n := fun n hn => by
        have := hlimit n hn
        omega
      have hrest : ∀ n ∈ w.limit, ps.length < max (n - (w.count + 1)) 1 := fun n hn => by
        have := hlimit n hn
        omega
      have hcount : w.count + 1 + ps.length = w.count + (ps.length + 1) := by omega
      rw [List.map_cons, List.cons_append, seeAll_ok_cons hover hnext,
        ih (w := { w with count := w.count + 1 }) hrest hover, told_cons w p ps, List.append_assoc, List.length_cons]
      simp only [hcount]

def errorBehind (why : CutEnd) : Option Incoming → Option SessionError
  | some ending => some (lastError why ending)
  | none => why.error?

variable {settings : Settings} {log : Log} {s : Session}

theorem lines_eq {items : List Item} (h : s.settle.1.drain.1 = items) :
    w.lines s = (w.seeAll items).1 ++ [(w.seeAll items).2.total] := by
  rw [← h]
  rfl

theorem items_eq (hbuffer : 1 ≤ settings.readBufferSize) (hrun : Session.Run { settings } log s)
    (hquiet : ∀ entry ∈ log, (∃ i, entry.1 = .deliver i) ∨ entry.1 = .receive)
    (chunks : List Bytes) (ending : Option Incoming)
    (hdelivered : log.delivered = chunks.map .chunk ++ ending.toList)
    (hending : ∀ i ∈ ending, i.isEnd = true) :
    log.received ++ s.settle.1.drain.1 = (cut settings.maxMessageSize chunks.flatten).1.map .ok ++
      (errorBehind (cut settings.maxMessageSize chunks.flatten).2 ending).toList.map .error := by
  have hundisturbed : ¬ log.Disturbed := by
    rintro ⟨⟨a, r⟩, hmem, hdisturbs⟩
    rcases hquiet _ hmem with ⟨i, rfl⟩ | rfl <;> cases hdisturbs
  have hwriting := Session.drain_ne_writing hrun fun entry hmem n hallow => by
    rcases hquiet entry hmem with ⟨i, hi⟩ | hi <;> rw [hi] at hallow <;> cases hallow
  have hstream : log.stream = signals chunks.flatten ++ ending.toList.flatMap Incoming.signals := by
    rw [Log.stream, hdelivered, List.flatMap_append, flatMap_signals_chunk]
  cases ending with
  | none => exact hrun.received_drain_of_signals hbuffer (hstream.trans (List.append_nil _)) hundisturbed hwriting
  | some i =>
      rw [Option.toList_some, List.flatMap_singleton] at hstream
      exact (hrun.received_drain hbuffer hstream (hending i rfl) hundisturbed hwriting).1

/-- Whatever a session delivers, and however its bytes come, its packets are described from the first one
on, each once and in order, until the limit is reached or there are no more of them, and that many are
reported in the end. A limit of zero describes one packet if there is one. -/
theorem describes_share (hbuffer : 1 ≤ settings.readBufferSize) (hrun : Session.Run { settings } log s)
    (hquiet : ∀ entry ∈ log, (∃ i, entry.1 = .deliver i) ∨ entry.1 = .receive)
    (chunks : List Bytes) (ending : Option Incoming)
    (hdelivered : log.delivered = chunks.map .chunk ++ ending.toList)
    (hending : ∀ i ∈ ending, i.isEnd = true) (peer : Endpoint) (limit : Option Nat) :
    let w : Watch := { peer, limit }
    let framing := cut settings.maxMessageSize chunks.flatten
    let k := share limit framing.1.length
    let seen := w.seeAll (log.received ++ s.settle.1.drain.1)
    seen.1 = w.told (framing.1.take k) ++ (if limit.any (max · 1 ≤ framing.1.length)
        then [w.line .info "Message limit reached"]
        else (errorBehind framing.2 ending).toList.map w.closing) ∧
      seen.2.total = w.line .info s!"{k} message(s) decoded" ∧
      (log.received = [] → w.lines s = seen.1 ++ [seen.2.total]) ∧
      (limit = none → k = framing.1.length) ∧
      ∀ n, limit = some n → (k = min n framing.1.length ↔ n ≠ 0 ∨ framing.1.length = 0) := by
  intro w framing k seen
  have hseen : seen = w.seeAll (framing.1.map .ok ++ (errorBehind framing.2 ending).toList.map .error) :=
    congrArg w.seeAll (items_eq hbuffer hrun hquiet chunks ending hdelivered hending)
  have hlines : log.received = [] → w.lines s = seen.1 ++ [seen.2.total] := by
    intro hnone
    simp only [seen, hnone, List.nil_append]
    exact lines_eq rfl
  have hshare : (limit = none → k = framing.1.length) ∧
      ∀ n, limit = some n → (k = min n framing.1.length ↔ n ≠ 0 ∨ framing.1.length = 0) := by
    constructor
    · rintro rfl
      rfl
    · rintro n rfl
      simp only [k, share]
      omega
  by_cases hreached : limit.any (max · 1 ≤ framing.1.length) = true
  · obtain ⟨n, rfl, hn⟩ : ∃ n, limit = some n ∧ max n 1 ≤ framing.1.length := by
      cases limit with
      | none => cases hreached
      | some n => exact ⟨n, rfl, of_decide_eq_true hreached⟩
    have hk : k = max (n - w.count) 1 := Nat.min_eq_left hn
    rw [seeAll_of_limit_le rfl rfl hk (hk ▸ hn)] at hseen
    rw [if_pos hreached, hseen]
    exact ⟨rfl, by rw [total, line, Nat.zero_add]; rfl, hseen ▸ hlines, hshare⟩
  · have hlt : ∀ n ∈ limit, framing.1.length < max n 1 := by
      rintro n rfl
      exact Nat.lt_of_not_le fun hle => hreached (decide_eq_true hle)
    have hk : k = framing.1.length := by
      cases limit with
      | none => rfl
      | some n => exact Nat.min_eq_right (Nat.le_of_lt (hlt n rfl))
    have hcount : 0 + framing.1.length = k := by omega
    rw [seeAll_of_lt_limit hlt rfl, hcount, seeAll_errors rfl] at hseen
    rw [if_neg hreached, hseen, List.take_of_length_le (Nat.le_of_eq hk.symm)]
    exact ⟨rfl, rfl, hseen ▸ hlines, hshare⟩

theorem describes_share_one_of_two :
    let b : Bytes := [0x60, 0, 0, 0, 0, 0, 59, 1] ++ List.replicate 32 0
    let p : Packet := {
      nextHeader := 59, hopLimit := 1, source := default, destination := default
      extensions := [], payload := .raw 59 [] }
    let w : Watch := { peer := .v4 default 7600, limit := some 1 }
    ∃ log s, Session.Run { settings := {} } log s ∧
      log.delivered = [.chunk (b.take 7), .chunk (b.drop 7 ++ b), .done] ∧
      w.lines s = [w.line .info s!"#{1} {p.summary}", w.line .info "Message limit reached",
        w.line .info s!"{1} message(s) decoded"] := by
  intro b p w
  have hframe : IsFrame 65575 b p := ⟨rfl, by decide +revert, by decide +kernel +revert⟩
  have hcut : cut 65575 (b ++ b) = ([p, p], .leftover 0) := by
    have hnil : cut 65575 [] = ([], .leftover 0) := cut_of_frameSize_none rfl
    have hone := hframe.cut_append []
    rw [List.append_nil, hnil] at hone
    rw [hframe.cut_append b, hone]
  have hrun := ((Session.Run.refl (s := { settings := {} })).act (.deliver (.chunk (b.take 7)))).act
    (.deliver (.chunk (b.drop 7 ++ b))) |>.act (.deliver .done)
  obtain ⟨htold, htotal, hlines, -, -⟩ := describes_share (by decide) hrun (by simp [Session.act])
    [b.take 7, b.drop 7 ++ b] (some .done) rfl (by simp [Incoming.isEnd]) w.peer w.limit
  have hflatten : cut 65575 [b.take 7, b.drop 7 ++ b].flatten = ([p, p], .leftover 0) := hcut
  refine ⟨_, _, hrun, rfl, (hlines rfl).trans ?_⟩
  simp only [hflatten] at htold htotal
  rw [htold, htotal]
  rfl

/-- A limit of zero is looked at behind the first packet only. -/
theorem zero_limit_describes_one :
    let b : Bytes := [0x60, 0, 0, 0, 0, 0, 59, 1] ++ List.replicate 32 0
    let p : Packet := {
      nextHeader := 59, hopLimit := 1, source := default, destination := default
      extensions := [], payload := .raw 59 [] }
    let w : Watch := { peer := .v4 default 7600, limit := some 0 }
    ∃ log s, Session.Run { settings := {} } log s ∧ log.delivered = [.chunk b, .done] ∧
      w.lines s = [w.line .info s!"#{1} {p.summary}", w.line .info "Message limit reached",
        w.line .info s!"{1} message(s) decoded"] := by
  intro b p w
  have hframe : IsFrame 65575 b p := ⟨rfl, by decide +revert, by decide +kernel +revert⟩
  have hcut : cut 65575 b = ([p], .leftover 0) := by
    have hnil : cut 65575 [] = ([], .leftover 0) := cut_of_frameSize_none rfl
    have hone := hframe.cut_append []
    rwa [List.append_nil, hnil] at hone
  have hrun := ((Session.Run.refl (s := { settings := {} })).act (.deliver (.chunk b))).act (.deliver .done)
  have hitems := items_eq (by decide) hrun (by simp [Session.act]) [b] (some .done) rfl
    (by simp [Incoming.isEnd])
  have hflatten : cut 65575 [b].flatten = ([p], .leftover 0) := hcut
  simp only [hflatten] at hitems
  refine ⟨_, _, hrun, rfl, ?_⟩
  rw [lines_eq hitems]
  rfl

end PacketWatch.Watch
