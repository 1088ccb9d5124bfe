import Mathlib.Data.Option.Basic
import PacketWatch.Yaml.Lexer

namespace PacketWatch.Yaml

def isName (c : Char) : Bool := c.isAlphanum || c = '_'

def IsName (cs : List Char) : Prop := cs ≠ [] ∧ ∀ c ∈ cs, isName c = true

instance (cs : List Char) : Decidable (IsName cs) :=
  decidable_of_iff (cs ≠ [] ∧ cs.all isName = true) (and_congr_right' List.all_eq_true)

variable {c d : Char} {cs text : List Char} {p : Place} {rest : List Place} {line column floor : Nat}

theorem ne_of_isName (h : isName c = true) (hd : isName d = false) : c ≠ d := by
  rintro rfl
  exact Bool.false_ne_true (hd.symm.trans h)

theorem isPrintable_of_isName (h : isName c = true) : isPrintable c = true := by
  have hbetween (first last : Char) (hfirst : ' ' ≤ first) (hlast : last ≤ '~') (h : first ≤ c ∧ c ≤ last) :
      ' ' ≤ c ∧ c ≤ '~' := ⟨Char.le_trans hfirst h.1, Char.le_trans h.2 hlast⟩
  have hrange : ' ' ≤ c ∧ c ≤ '~' := by
    obtain halphanum | hline := Bool.or_eq_true_iff.1 h
    · obtain halpha | hdigit := Bool.or_eq_true_iff.1 halphanum
      · obtain hupper | hlower := Bool.or_eq_true_iff.1 halpha
        · exact hbetween 'A' 'Z' (by decide) (by decide) (of_decide_eq_true hupper)
        · exact hbetween 'a' 'z' (by decide) (by decide)
            ((Bool.and_eq_true_iff.1 hlower).imp of_decide_eq_true of_decide_eq_true)
      · exact hbetween '0' '9' (by decide) (by decide)
          ((Bool.and_eq_true_iff.1 hdigit).imp of_decide_eq_true of_decide_eq_true)
    · rw [of_decide_eq_true hline]
      decide
  simp [isPrintable, hrange]

theorem isBreak_of_isName (h : isName c = true) : isBreak c = false := by
  simp (disch := decide) [isBreak, ne_of_isName h]

theorem places_cons (h : isBreak c = false) (line column : Nat) (cs : List Char) :
    places line column (c :: cs) = ⟨c, line, column⟩ :: places line (column + 1) cs := by
  have hne : c ≠ '\r' := by
    rintro rfl
    cases h
  rw [places.eq_2 _ _ _ _ (by simp [hne]), h]
  rfl

theorem isMarker_of_isName (h : isName p.char = true) : isMarker (p :: rest) = false := by
  simp (disch := decide) [isMarker, chars, ne_of_isName h]

theorem startsPlain_of_isName {flow : Bool} (h : isName p.char = true) :
    startsPlain flow (p :: rest) = true := by
  simp (disch := decide) [startsPlain, isBlank, isIndicator, isFlowMark, ne_of_isName h]

theorem skip_of_isName {flow fresh : Bool} (h : isName p.char = true) :
    skip flow false fresh (p :: rest) = (p :: rest, fresh) := by
  simp (disch := decide) [skip, ne_of_isName h]

theorem skip_space (flow fresh : Bool) (rest : List Place) :
    skip flow false fresh (⟨' ', line, column⟩ :: rest) = skip flow false fresh rest := by
  rw [skip]
  simp

theorem plain_cons (h : isName p.char = true) :
    plain false floor text [] (p :: rest) = plain false floor (p.char :: text) [] rest := by
  rw [plain]
  simp (disch := decide) [isBlank, isMarker_of_isName h, fold, ne_of_isName h]

/-- A plain scalar goes on over a name. -/
theorem plain_append (h : ∀ c ∈ cs, isName c = true) (floor : Nat) (text : List Char) (line column : Nat)
    (after : List Char) :
    plain false floor text [] (places line column (cs ++ after)) =
      plain false floor (cs.reverse ++ text) [] (places line (column + cs.length) after) := by
  induction cs generalizing column text with
  | nil => rfl
  | cons c cs ih =>
      rw [List.forall_mem_cons] at h
      rw [List.cons_append, places_cons (isBreak_of_isName h.1), plain_cons h.1, ih h.2, List.reverse_cons,
        List.append_assoc, List.length_cons, Nat.add_assoc, Nat.add_comm 1]
      rfl

theorem plain_colon (after : List Char) :
    plain false floor text [] (places line column (':' :: ' ' :: after)) =
      some (text.reverse, places line column (':' :: ' ' :: after), false) := by
  rw [places_cons (by decide), places_cons (by decide), plain]
  simp [isBlank, endsWord]

/-- A plain scalar ends in front of a name at the first column. -/
theorem plain_newline {after : List Char} (hafter : ∀ c ∈ after.head?, isName c = true) (hfloor : 0 < floor) :
    plain false floor text [] (places line column ('\n' :: after)) =
      some (text.reverse, places (line + 1) 0 after, !after.isEmpty) := by
  have hplaces : places line column ('\n' :: after) = ⟨'\n', line, column⟩ :: places (line + 1) 0 after := by
    rw [places.eq_2 _ _ _ _ (by simp)]
    rfl
  rw [hplaces, plain]
  cases after with
  | nil => simp [places, plain]
  | cons c after =>
      have hc : isName c = true := hafter c rfl
      rw [places_cons (isBreak_of_isName hc)]
      simp (disch := decide) [plain, isBlank, hfloor, ne_of_isName hc]

namespace Lexer

variable {s : Lexer}

theorem leave_of_lt (h : ∀ c ∈ s.columns, c < floor) : s.leave floor = s := by
  obtain ⟨rest, fresh, columns, key, outer, tokens⟩ := s
  cases columns with
  | nil => simp [leave]
  | cons c columns =>
      have hc : ¬ floor ≤ c := Nat.not_le.2 (h c List.mem_cons_self)
      simp [leave, hc]

theorem step_of_isName (h : isName p.char = true) :
    s.step p rest = s.scalar p .plain (plain s.flow s.floor [] [] (p :: rest)) := by
  rw [step]
  simp (disch := decide) [isMarker_of_isName h, startsPlain_of_isName h, ne_of_isName h]

def atLine (line : Nat) (fresh : Bool) (columns : List Nat) (tokens : List Token) (text : List Char) : Lexer :=
  { rest := places line 0 text, fresh, columns, tokens }

variable {n : Nat} {columns : List Nat} {tokens : List Token} {key value after : List Char}

/-- One round of the lexer, if no block collection ends in front of the token. -/
theorem run_of_step {s s' : Lexer} {fresh : Bool} (hskip : skip s.flow false s.fresh s.rest = (p :: rest, fresh))
    (hcolumns : ∀ c ∈ s.columns, c ≤ p.column) (hstep : step p rest { s with fresh } = some s') :
    run (n + 1) s = run n s' := by
  have hleave : leave (p.column + 1) { s with fresh } = { s with fresh } :=
    leave_of_lt fun c hc => Nat.lt_succ_of_le (hcolumns c hc)
  rw [run, hskip]
  simp only [hleave, hstep]
  rfl

/-- A name at the first column is read up to the colon behind it. -/
theorem run_key (hkey : IsName key) (hcolumns : ∀ c ∈ columns, c = 0) :
    run (n + 1) (atLine line true columns tokens (key ++ ':' :: ' ' :: after)) = run n
      { rest := places line key.length (':' :: ' ' :: after), fresh := false, columns
        key := some { line, column := 0, before := tokens.length, required := columns.head? = some 0 }
        tokens := .scalar .plain (.ofList key) :: tokens } := by
  obtain ⟨hne, hname⟩ := hkey
  obtain ⟨c, cs, rfl⟩ := List.exists_cons_of_ne_nil hne
  have hc : isName c = true := hname c List.mem_cons_self
  have hplaces := places_cons (isBreak_of_isName hc) line 0 (cs ++ ':' :: ' ' :: after)
  have hplain (floor : Nat) := plain_append hname floor [] line 0 (':' :: ' ' :: after)
  simp only [plain_colon, List.cons_append, hplaces] at hplain
  have hskip : skip false false true (places line 0 (c :: cs ++ ':' :: ' ' :: after)) =
      (⟨c, line, 0⟩ :: places line 1 (cs ++ ':' :: ' ' :: after), true) := by
    rw [List.cons_append, hplaces]
    exact skip_of_isName hc
  refine run_of_step hskip (fun c hc => Nat.le_of_eq (hcolumns c hc)) ?_
  rw [step_of_isName hc, scalar]
  simp only [atLine, flow, List.isEmpty_nil, Bool.not_true, hplain]
  simp [remember, forget, put, flow]

/-- A colon makes a key of the name in front of it. A mapping begins there, unless one goes on. -/
theorem run_colon {t : Token} {required : Bool} (hreach : column ≤ 1024) (hcolumns : columns = [] ∨ columns = [0]) :
    run (n + 1) { rest := places line column (':' :: ' ' :: after), fresh := false, columns
                  key := some { line, column := 0, before := tokens.length, required }
                  tokens := t :: tokens } =
      run n { rest := places line (column + 1) (' ' :: after), fresh := false, columns := [0]
              tokens := .value :: t :: .key ::
                if columns = [] then .beginMapping :: tokens else tokens } := by
  have hskip : skip false false false (places line column (':' :: ' ' :: after)) =
      (⟨':', line, column⟩ :: places line (column + 1) (' ' :: after), false) := by
    rw [places_cons (by decide)]
    simp [skip]
  have hends : endsWord (places line (column + 1) (' ' :: after)) = true := by
    rw [places_cons (by decide)]
    rfl
  refine run_of_step hskip (fun c hc => ?_) ?_
  · obtain rfl | rfl := hcolumns <;> simp_all
  · simp only [step, isMarker, chars, hends]
    obtain rfl | rfl := hcolumns <;>
      simp [colon, Key.reaches, hreach, Option.filter, enter, flow, floor, put]

/-- A name behind a key is read up to the end of its line. -/
theorem run_value (hvalue : IsName value) (hafter : ∀ c ∈ after.head?, isName c = true) :
    run (n + 1) { rest := places line column (' ' :: (value ++ '\n' :: after)), fresh := false, columns := [0]
                  tokens } =
      run n (atLine (line + 1) (!after.isEmpty) [0] (.scalar .plain (.ofList value) :: tokens) after) := by
  obtain ⟨hne, hname⟩ := hvalue
  obtain ⟨c, cs, rfl⟩ := List.exists_cons_of_ne_nil hne
  have hc : isName c = true := hname c List.mem_cons_self
  have hplaces := places_cons (isBreak_of_isName hc) line (column + 1) (cs ++ '\n' :: after)
  have hplain := plain_append hname 1 [] line (column + 1) ('\n' :: after)
  rw [plain_newline hafter Nat.one_pos, List.cons_append, hplaces] at hplain
  have hskip : skip false false false (places line column (' ' :: (c :: cs ++ '\n' :: after))) =
      (⟨c, line, column + 1⟩ :: places line (column + 2) (cs ++ '\n' :: after), false) := by
    rw [places_cons (by decide), List.cons_append, hplaces]
    exact (skip_space _ _ _).trans (skip_of_isName hc)
  refine run_of_step hskip (by simp) ?_
  rw [step_of_isName hc, scalar]
  simp only [flow, floor, List.isEmpty_nil, Bool.not_true, hplain]
  simp [remember, put, atLine]

end Lexer

structure IsEntry (e : String × String) : Prop where
  key : IsName e.1.toList
  value : IsName e.2.toList
  /-- The colon stands within reach of the key. -/
  reach : e.1.toList.length ≤ 1024

def lines (entries : List (String × String)) : List Char :=
  entries.flatMap fun e => e.1.toList ++ ':' :: ' ' :: (e.2.toList ++ ['\n'])

def entryTokens (e : String × String) : List Token := [.key, .scalar .plain e.1, .value, .scalar .plain e.2]

variable {e : String × String} {entries : List (String × String)}

theorem lines_cons (e : String × String) (entries : List (String × String)) :
    lines (e :: entries) = e.1.toList ++ ':' :: ' ' :: (e.2.toList ++ '\n' :: lines entries) := by
  simp [lines]

theorem isName_of_mem_head?_lines (h : ∀ e ∈ entries, IsEntry e) : ∀ c ∈ (lines entries).head?, isName c = true := by
  cases entries with
  | nil => simp [lines]
  | cons e entries =>
      obtain ⟨hne, hname⟩ := (h e List.mem_cons_self).key
      obtain ⟨c, cs, hcs⟩ := List.exists_cons_of_ne_nil hne
      rw [hcs] at hname
      simpa [lines_cons, hcs] using hname c List.mem_cons_self

/-- There are characters enough in each line for the rounds that it takes. -/
theorem three_mul_length_le (entries : List (String × String)) : 3 * entries.length ≤ (lines entries).length := by
  induction entries with
  | nil => exact Nat.zero_le _
  | cons e entries ih =>
      simp only [lines_cons, List.length_cons, List.length_append]
      omega

theorem all_isPrintable_lines (h : ∀ e ∈ entries, IsEntry e) : (lines entries).all isPrintable = true := by
  rw [List.all_eq_true]
  intro c hc
  obtain ⟨e, he, hc⟩ := List.mem_flatMap.1 hc
  simp only [List.mem_append, List.mem_cons, List.not_mem_nil, or_false] at hc
  obtain hkey | rfl | rfl | hvalue | rfl := hc
  · exact isPrintable_of_isName ((h e he).key.2 c hkey)
  · decide
  · decide
  · exact isPrintable_of_isName ((h e he).value.2 c hvalue)
  · decide

namespace Lexer

theorem run_line {after : List Char} {columns : List Nat} (he : IsEntry e) (hcolumns : columns = [] ∨ columns = [0])
    (hafter : ∀ c ∈ after.head?, isName c = true) (n line : Nat) (tokens : List Token) :
    run (n + 3) (atLine line true columns tokens (e.1.toList ++ ':' :: ' ' :: (e.2.toList ++ '\n' :: after))) =
      run n (atLine (line + 1) (!after.isEmpty) [0]
        ((entryTokens e).reverse ++ if columns = [] then .beginMapping :: tokens else tokens) after) := by
  have hzero : ∀ c ∈ columns, c = 0 := by
    obtain rfl | rfl := hcolumns <;> simp
  rw [run_key he.key hzero, run_colon he.reach hcolumns, run_value he.value hafter]
  simp [entryTokens, String.ofList_toList]

/-- The lines behind the first one. By induction on them, each of which takes three rounds. -/
theorem run_lines (h : ∀ e ∈ entries, IsEntry e) (n line : Nat) (tokens : List Token) :
    run (3 * entries.length + n + 1) (atLine line (!(lines entries).isEmpty) [0] tokens (lines entries)) =
      some (tokens.reverse ++ entries.flatMap entryTokens ++ [.endBlock]) := by
  induction entries generalizing line tokens with
  | nil => simp [run, atLine, lines, places, skip, leave, flow, forget]
  | cons e entries ih =>
      rw [List.forall_mem_cons] at h
      have hfresh : (!(lines (e :: entries)).isEmpty) = true := by
        simp [lines_cons]
      have hfuel : 3 * (e :: entries).length + n + 1 = 3 * entries.length + n + 1 + 3 := by
        rw [List.length_cons]
        omega
      rw [hfresh, lines_cons, hfuel, run_line h.1 (.inr rfl) (isName_of_mem_head?_lines h.2), ih h.2]
      simp

end Lexer

theorem tokens?_lines (hne : entries ≠ []) (h : ∀ e ∈ entries, IsEntry e) :
    tokens? (lines entries) = some (.beginMapping :: (entries.flatMap entryTokens ++ [.endBlock])) := by
  obtain ⟨e, entries, rfl⟩ := List.exists_cons_of_ne_nil hne
  rw [List.forall_mem_cons] at h
  obtain ⟨n, hn⟩ := Nat.exists_eq_add_of_le (three_mul_length_le (e :: entries))
  have hfuel : (lines (e :: entries)).length + 1 = 3 * entries.length + n + 1 + 3 := by
    rw [hn, List.length_cons]
    omega
  have hfirst := Lexer.run_line h.1 (.inl rfl) (isName_of_mem_head?_lines h.2) (3 * entries.length + n + 1) 0 []
  rw [Lexer.run_lines h.2, ← lines_cons, Lexer.atLine] at hfirst
  rw [tokens?, all_isPrintable_lines (List.forall_mem_cons.2 h), if_pos rfl, hfuel]
  simpa using hfirst

end PacketWatch.Yaml
