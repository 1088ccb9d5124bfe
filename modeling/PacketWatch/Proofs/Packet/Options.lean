import PacketWatch.Proofs.Packet.HopByHop
import PacketWatch.Proofs.Wire.Failing

namespace PacketWatch

open Wire

namespace HopOption

/-- A byte string that is options in a row: single zero bytes, and types other than zero, each with its
length and as many bytes of data. -/
inductive Tiles : Bytes → List HopOption → Prop
  | nil : Tiles [] []
  | pad1 {b : Bytes} {l : List HopOption} : Tiles b l → Tiles (0 :: b) (pad1 :: l)
  | tlv {kind size : UInt8} {data b : Bytes} {l : List HopOption} : kind ≠ 0 → data.length = size.toNat →
      Tiles b l → Tiles (kind :: size :: (data ++ b)) (tlv kind data :: l)

/-- A byte string that ends inside its first option, which takes up `n` bytes, or two if not even its
length is there. -/
inductive Overruns : Bytes → Nat → Prop
  | kind {kind : UInt8} : kind ≠ 0 → Overruns [kind] 2
  | data {kind size : UInt8} {data : Bytes} : kind ≠ 0 → data.length < size.toNat →
      Overruns (kind :: size :: data) (2 + size.toNat)

variable {b front back : Bytes} {l m seen : List HopOption} {length offset n : Nat}

theorem tiles_zero_cons : Tiles (0 :: b) l ↔ ∃ m, l = pad1 :: m ∧ Tiles b m := by
  constructor
  · intro h
    cases h with
    | pad1 h => exact ⟨_, rfl, h⟩
    | tlv hkind => exact absurd rfl hkind
  · rintro ⟨m, rfl, h⟩
    exact .pad1 h

theorem tiles_cons {kind : UInt8} (hkind : kind ≠ 0) : Tiles (kind :: b) l ↔
    ∃ size data rest m, b = size :: (data ++ rest) ∧ data.length = size.toNat ∧ l = tlv kind data :: m ∧
      Tiles rest m := by
  constructor
  · intro h
    cases h with
    | pad1 => exact absurd rfl hkind
    | tlv _ hsize h => exact ⟨_, _, _, _, rfl, hsize, rfl, h⟩
  · rintro ⟨size, data, rest, m, rfl, hsize, rfl, h⟩
    exact .tlv hkind hsize h

theorem Tiles.total_size (h : Tiles b l) : total size l = b.length := by
  induction h with
  | nil => rfl
  | pad1 _ ih => rw [total_cons, ih, size, List.length_cons, Nat.add_comm]
  | tlv _ _ _ ih =>
      rw [total_cons, ih, size, List.length_cons, List.length_cons, List.length_append]
      omega

/-- Where some options stand in front, others can only go on behind them. -/
theorem Tiles.exists_append (hfront : Tiles front l) (h : Tiles (front ++ back) m) :
    ∃ k, m = l ++ k ∧ Tiles back k := by
  induction hfront generalizing m with
  | nil => exact ⟨m, rfl, h⟩
  | pad1 _ ih =>
      obtain ⟨m, rfl, hm⟩ := tiles_zero_cons.1 h
      obtain ⟨k, rfl, hk⟩ := ih hm
      exact ⟨k, rfl, hk⟩
  | tlv hkind hsize _ ih =>
      obtain ⟨size, data, rest, m, hb, hsize', rfl, hm⟩ := (tiles_cons hkind).1 h
      obtain ⟨rfl, hrest⟩ := List.cons.inj hb
      rw [List.append_eq, List.append_assoc] at hrest
      obtain ⟨rfl, rfl⟩ := List.append_inj hrest (hsize.trans hsize'.symm)
      obtain ⟨k, rfl, hk⟩ := ih hm
      exact ⟨k, rfl, hk⟩

theorem Tiles.unique (h : Tiles b l) (h' : Tiles b m) : l = m := by
  rw [← List.append_nil b] at h'
  obtain ⟨k, rfl, hk⟩ := h.exists_append h'
  cases hk
  exact (List.append_nil l).symm

theorem Overruns.length_lt (h : Overruns b n) : b.length < n := by
  cases h with
  | kind => exact Nat.lt_succ_self 1
  | data _ hsize =>
      rw [List.length_cons, List.length_cons]
      omega

theorem Overruns.ne_nil (h : Overruns b n) : b ≠ [] := by
  cases h <;> exact List.cons_ne_nil _ _

/-- An option that is not all there does not become one by leaving more of it away. -/
theorem Overruns.eq_nil_of_tiles (h : Overruns (front ++ back) n) (hfront : Tiles front l) : front = [] := by
  generalize hb : front ++ back = b at h
  cases front with
  | nil => rfl
  | cons kind front =>
      cases h with
      | kind hkind =>
          obtain ⟨rfl, hrest⟩ := List.cons.inj hb
          obtain ⟨_, _, _, _, rfl, -⟩ := (tiles_cons hkind).1 hfront
          cases hrest
      | data hkind hsize =>
          obtain ⟨rfl, hrest⟩ := List.cons.inj hb
          obtain ⟨_, data, rest, _, rfl, hdata, -⟩ := (tiles_cons hkind).1 hfront
          obtain ⟨rfl, rfl⟩ := List.cons.inj hrest
          rw [List.append_eq, List.append_assoc, List.length_append] at hsize
          omega

/-- Options in front do not go on into one that is not all there. -/
theorem Overruns.not_tiles_take (hback : Overruns back n) (hfront : Tiles front l) {k : Nat}
    (hk : front.length < k) : ¬ Tiles ((front ++ back).take k) m := by
  intro h
  rw [List.take_append, List.take_of_length_le (Nat.le_of_lt hk)] at h
  obtain ⟨_, -, hrest⟩ := hfront.exists_append h
  rw [← List.take_append_drop (k - front.length) back] at hback
  have hnil := hback.eq_nil_of_tiles hrest
  rw [List.take_append_drop] at hback
  obtain hzero | hnone := List.take_eq_nil_iff.1 hnil
  · omega
  · exact hback.ne_nil hnone

theorem Overruns.not_tiles (hback : Overruns back n) (hfront : Tiles front l) :
    ¬ ∃ m, Tiles (front ++ back) m := by
  rintro ⟨m, hm⟩
  have hpos := List.length_pos_iff.2 hback.ne_nil
  have hreach : front.length < (front ++ back).length := by
    rw [List.length_append]
    omega
  rw [← List.take_length (l := front ++ back)] at hm
  exact hback.not_tiles_take hfront hreach hm

/-- Every byte string begins with as many options as there are, up to one that is not all there. -/
theorem exists_tiles (b : Bytes) : ∃ front back l, b = front ++ back ∧ Tiles front l ∧
    (back = [] ∨ ∃ n, Overruns back n) := by
  -- On the length: an option takes up as much as its own length byte says.
  induction hn : b.length using Nat.strongRecOn generalizing b with
  | _ n ih =>
      subst hn
      match b with
      | [] => exact ⟨[], [], [], rfl, .nil, .inl rfl⟩
      | kind :: b =>
        by_cases hkind : kind = 0
        · subst hkind
          obtain ⟨front, back, l, rfl, hfront, hback⟩ := ih _ (Nat.lt_succ_self _) b rfl
          exact ⟨0 :: front, back, pad1 :: l, rfl, .pad1 hfront, hback⟩
        match b with
        | [] => exact ⟨[], [kind], [], rfl, .nil, .inr ⟨2, .kind hkind⟩⟩
        | size :: b =>
          by_cases hsize : b.length < size.toNat
          · exact ⟨[], kind :: size :: b, [], rfl, .nil, .inr ⟨_, .data hkind hsize⟩⟩
          · have hdata : (b.take size.toNat).length = size.toNat :=
              List.length_take_of_le (Nat.le_of_not_lt hsize)
            have hshorter : (b.drop size.toNat).length < (kind :: size :: b).length := by
              rw [List.length_drop, List.length_cons, List.length_cons]
              omega
            obtain ⟨front, back, l, hb, hfront, hback⟩ := ih _ hshorter _ rfl
            refine ⟨_, back, _, ?_, .tlv hkind hdata hfront, hback⟩
            rw [List.cons_append, List.cons_append, List.append_assoc, ← hb, List.take_append_drop]

theorem run_readUntil_pad1 (h : offset < length) : (readUntil length offset seen).run (0 :: b) =
    (readUntil length (offset + 1) (pad1 :: seen)).run b := by
  rw [readUntil, dif_pos h, Reader.run_bind_of_ok (Reader.run_u8_ok.2 rfl), if_pos rfl]

theorem run_readUntil_cons {kind : UInt8} (hkind : kind ≠ 0) (h : offset < length) :
    (readUntil length offset seen).run (kind :: b) =
      if length - offset < 2 then .error (.optionOverrun offset 2 (length - offset))
      else (do
        let size ← Reader.word 1
        if length - offset < 2 + size then throw (.optionOverrun offset (2 + size) (length - offset))
        let data ← Reader.take size
        readUntil length (offset + 2 + size) (tlv kind data :: seen) : Reader (List HopOption)).run b := by
  rw [readUntil, dif_pos h, Reader.run_bind_of_ok (Reader.run_u8_ok.2 rfl), if_neg hkind,
    Reader.run_bind_of_ok (Reader.run_minus_ok.2 ⟨Nat.le_of_lt h, rfl, rfl⟩), Reader.run_unless]

/-- The options in front are read, and the reader goes on behind them. -/
theorem run_readUntil_tiles (hfront : Tiles front l) (hroom : offset + front.length ≤ length) (b : Bytes) :
    (readUntil length offset seen).run (front ++ b) =
      (readUntil length (offset + front.length) (l.reverse ++ seen)).run b := by
  induction hfront generalizing offset seen with
  | nil => rfl
  | @pad1 front l _ ih =>
      rw [List.length_cons] at hroom
      rw [List.cons_append, run_readUntil_pad1 (by omega), ih (by omega), List.reverse_cons,
        List.append_assoc, List.length_cons, Nat.add_assoc, Nat.add_comm 1]
      rfl
  | @tlv kind size data front l hkind hsize _ ih =>
      rw [List.length_cons, List.length_cons, List.length_append] at hroom
      have hlength : (kind :: size :: (data ++ front)).length = 2 + size.toNat + front.length := by
        rw [List.length_cons, List.length_cons, List.length_append, hsize]
        omega
      rw [List.cons_append, List.cons_append, List.append_assoc, run_readUntil_cons hkind (by omega),
        if_neg (by omega), Reader.run_bind_of_ok (Reader.run_word_cons size), Reader.run_unless, if_neg (by omega),
        Reader.run_bind_of_ok (Reader.run_take_ok.2 ⟨hsize, rfl⟩), ih (by omega), List.reverse_cons,
        List.append_assoc, hlength, Nat.add_assoc offset, Nat.add_assoc offset]
      rfl

theorem run_readUntil_overruns (h : Overruns back n) (hlength : length = offset + back.length) (b : Bytes) :
    (readUntil length offset seen).run (back ++ b) = .error (.optionOverrun offset n back.length) := by
  have hremaining : length - offset = back.length := by omega
  cases h with
  | @kind kind hkind =>
      have hlt : offset < length := hlength ▸ Nat.lt_succ_self offset
      have htwo : [kind].length < 2 := Nat.lt_succ_self 1
      rw [List.cons_append, run_readUntil_cons hkind hlt, hremaining, if_pos htwo]
  | @data kind size data hkind hsize =>
      rw [List.length_cons, List.length_cons] at hlength
      rw [List.cons_append, List.cons_append, run_readUntil_cons hkind (by omega), if_neg (by omega),
        Reader.run_bind_of_ok (Reader.run_word_cons size), Reader.run_unless, if_pos (by omega), hremaining]

theorem run_readUntil_self : (readUntil length length seen).run b = .ok (seen.reverse, b) := by
  rw [readUntil, dif_neg (Nat.lt_irrefl length)]
  rfl

theorem not_mem_padding (data : Bytes) (n : Nat) : .tlv 0 data ∉ padding n := by
  match n with
  | 0 => exact List.not_mem_nil
  | 1 | n + 2 =>
    intro h
    cases List.mem_singleton.1 h

end HopOption

namespace HopByHop

open HopOption

variable {units : UInt8} {front back area b : Bytes} {l : List HopOption} {len n : Nat}

theorem run_read_cons (nextHeader : UInt8) (hlen : 8 * (units.toNat + 1) ≤ b.length + 2) : read.run (nextHeader :: units :: b) =
    (readUntil (8 * (units.toNat + 1)) 2 [] >>= fun options => pure (ofOptions nextHeader options)).run b := by
  have hall : 8 * (units.toNat + 1) ≤ (nextHeader :: units :: b).length := hlen
  rw [read, Reader.run_get_bind, Reader.run_need_bind_of_le (by omega),
    Reader.run_bind_of_ok (Reader.run_u8_ok.2 rfl), Reader.run_bind_of_ok (Reader.run_word_cons units),
    Reader.run_declare_bind_of_le hall]

/-- A header whose options fill it is decoded, whatever follows it. -/
theorem decode_of_tiles (nextHeader : UInt8) (h : Tiles area l) (hlen : len = 8 * (units.toNat + 1))
    (harea : area.length + 2 = len) : ∃ header : HopByHop,
      header.nextHeader = nextHeader ∧ header.options = l ∧
      ∀ rest, decode HopByHop (nextHeader :: units :: (area ++ rest)) = .ok (header, len) := by
  have haligned : 8 ∣ 2 + total HopOption.size l := by
    rw [h.total_size, Nat.add_comm, harea, hlen]
    exact Nat.dvd_mul_right 8 _
  refine ⟨⟨nextHeader, l, haligned⟩, rfl, rfl, fun rest => ?_⟩
  have hroom : 8 * (units.toNat + 1) ≤ (area ++ rest).length + 2 := by
    rw [List.length_append]
    omega
  have hend : 2 + area.length = len := by omega
  have hoptions : (readUntil len 2 []).run (area ++ rest) = .ok (l, rest) := by
    rw [run_readUntil_tiles h (Nat.le_of_eq hend), hend, run_readUntil_self, List.append_nil,
      List.reverse_reverse]
  have hread : read.run (nextHeader :: units :: (area ++ rest)) = .ok (⟨nextHeader, l, haligned⟩, rest) := by
    rw [run_read_cons nextHeader hroom, ← hlen, Reader.run_bind_of_ok hoptions, ofOptions_of_dvd nextHeader l haligned]
    rfl
  have hconsumed : (nextHeader :: units :: (area ++ rest)).length - rest.length = len := by
    rw [List.length_cons, List.length_cons, List.length_append]
    omega
  rw [Spelling.decode_of_run_ok hread, hconsumed]

/-- A header that ends inside an option is not decoded, whatever follows it. -/
theorem decode_of_overruns (nextHeader : UInt8) (hfront : Tiles front l) (hback : Overruns back n)
    (hlen : len = 8 * (units.toNat + 1)) (harea : (front ++ back).length + 2 = len) (rest : Bytes) :
    decode HopByHop (nextHeader :: units :: (front ++ back ++ rest)) =
      .error (.optionOverrun (2 + front.length) n back.length) := by
  have hroom : 8 * (units.toNat + 1) ≤ (front ++ back ++ rest).length + 2 := by
    rw [List.length_append]
    omega
  rw [List.length_append] at harea
  refine Spelling.decode_error_iff.2 ?_
  change read.run _ = _
  rw [run_read_cons nextHeader hroom, ← hlen, List.append_assoc]
  refine Reader.run_bind_of_error ?_
  rw [run_readUntil_tiles hfront (by omega)]
  exact run_readUntil_overruns hback (by omega) rest

/-- Nothing in a hop-by-hop header is reserved. -/
theorem encode_of_decode {h : HopByHop} (hd : decode HopByHop b = .ok (h, n)) :
    encode h = .ok (b.take n) := by
  obtain ⟨-, -, -, hfit, hc⟩ := Spelling.decode_ok_iff_clears.1 hd
  exact Spelling.encode_ok_iff.2 ⟨hfit, (Clears.kept_iff.1 hc).1⟩

/-- A header and what follows it, from its length. -/
theorem exists_eq_append (hmin : 8 ≤ b.length) (hlen : len = 8 * ((b.getD 1 0).toNat + 1))
    (hle : len ≤ b.length) : ∃ (nextHeader units : UInt8) (area rest : Bytes),
      b = nextHeader :: units :: (area ++ rest) ∧ len = 8 * (units.toNat + 1) ∧ area.length + 2 = len := by
  match b with
  | nextHeader :: units :: b =>
    replace hlen : len = 8 * (units.toNat + 1) := hlen
    rw [List.length_cons, List.length_cons] at hle
    refine ⟨nextHeader, units, b.take (len - 2), b.drop (len - 2), ?_, hlen, ?_⟩
    · rw [List.take_append_drop]
    · rw [List.length_take]
      omega

theorem drop_take_cons (nextHeader units : UInt8) {k : Nat} (hle : k ≤ area.length) (rest : Bytes) :
    ((nextHeader :: units :: (area ++ rest)).take (2 + k)).drop 2 = area.take k := by
  rw [List.drop_take, Nat.add_sub_cancel_left, List.drop_succ_cons, List.drop_succ_cons, List.drop_zero,
    List.take_append_of_le_length hle]

/-- A hop-by-hop header is decoded exactly if options fill it. They are the ones that are found, and the
header is encoded as the bytes it took. Otherwise the error tells how far options go and what the next
one needs. What follows the header makes no difference. -/
theorem decode_iff_tiles (b : Bytes) (len : Nat) (hmin : 8 ≤ b.length)
    (hlen : len = 8 * ((b.getD 1 0).toNat + 1)) (hle : len ≤ b.length) :
    ((∃ h n, decode HopByHop b = .ok (h, n)) ↔ ∃ l, Tiles ((b.take len).drop 2) l) ∧
    (∀ h n, decode HopByHop b = .ok (h, n) → h.nextHeader = b.getD 0 0 ∧ n = len ∧
      Tiles ((b.take len).drop 2) h.options ∧ (∀ l, Tiles ((b.take len).drop 2) l → l = h.options) ∧
      encode h = .ok (b.take len)) ∧
    ((¬ ∃ l, Tiles ((b.take len).drop 2) l) → ∃ offset n,
      decode HopByHop b = .error (.optionOverrun offset n (len - offset)) ∧ 2 ≤ offset ∧ offset < len ∧
      (∃ l, Tiles ((b.take offset).drop 2) l) ∧
      (∀ k, offset < k → k ≤ len → ¬ ∃ l, Tiles ((b.take k).drop 2) l) ∧
      Overruns ((b.take len).drop offset) n ∧ len - offset < n) ∧
    ∀ s, decode HopByHop (b.take len ++ s) = decode HopByHop b := by
  obtain ⟨nextHeader, units, area, rest, rfl, hunits, harea⟩ := exists_eq_append hmin hlen hle
  have htake : (nextHeader :: units :: (area ++ rest)).take len = nextHeader :: units :: area := by
    rw [← harea, List.take_succ_cons, List.take_succ_cons, List.take_left]
  rw [htake]
  simp only [List.drop_succ_cons, List.drop_zero, List.cons_append]
  obtain ⟨front, back, l, rfl, hfront, rfl | ⟨n, hback⟩⟩ := exists_tiles area
  · rw [List.append_nil] at hmin hle harea htake ⊢
    obtain ⟨h, hnext, rfl, hd⟩ := decode_of_tiles nextHeader hfront hunits harea
    refine ⟨iff_of_true ⟨h, len, hd rest⟩ ⟨_, hfront⟩, fun h' n' hd' => ?_,
      fun hno => absurd ⟨_, hfront⟩ hno, fun s => (hd s).trans (hd rest).symm⟩
    cases (hd rest).symm.trans hd'
    refine ⟨hnext, rfl, hfront, fun m hm => hm.unique hfront, ?_⟩
    rw [encode_of_decode (hd rest), htake]
  · -- The options in `front` are the most there are, since the next one goes on beyond the header.
    have hd := decode_of_overruns nextHeader hfront hback hunits harea
    have hfails : ¬ ∃ h n, decode HopByHop (nextHeader :: units :: (front ++ back ++ rest)) = .ok (h, n) := by
      rintro ⟨h, n, hd'⟩
      cases (hd rest).symm.trans hd'
    have hremaining : len - (2 + front.length) = back.length := by
      rw [← harea, List.length_append]
      omega
    have hpos := List.length_pos_iff.2 hback.ne_nil
    refine ⟨iff_of_false hfails (hback.not_tiles hfront), fun h n hd' => absurd ⟨h, n, hd'⟩ hfails,
      fun _ => ⟨2 + front.length, n, ?_, Nat.le_add_right 2 _, by omega, ?_, fun k hk hkle => ?_, ?_, ?_⟩,
      fun s => (hd s).trans (hd rest).symm⟩
    · rw [hd rest, hremaining]
    · rw [drop_take_cons nextHeader units (by omega), List.take_left]
      exact ⟨l, hfront⟩
    · obtain ⟨k, rfl⟩ := Nat.exists_eq_add_of_le (show 2 ≤ k by omega)
      rw [drop_take_cons nextHeader units (by omega)]
      rintro ⟨m, hm⟩
      exact hback.not_tiles_take hfront (by omega) hm
    · rw [Nat.add_comm 2, List.drop_succ_cons, List.drop_succ_cons, List.drop_left]
      exact hback
    · rw [hremaining]
      exact hback.length_lt

theorem decode_iff_tiles_zero_fill :
    (∃ h, decode HopByHop [58, 0, 0x1e, 1, 1, 0, 0, 0] = .ok (h, 8) ∧ h.nextHeader = 58 ∧
      h.options = [.tlv 0x1e [1], .pad1, .pad1, .pad1] ∧ encode h = .ok [58, 0, 0x1e, 1, 1, 0, 0, 0]) ∧
    decode HopByHop [58, 0, 1, 3, 0, 0, 0, 0x1e] = .error (.optionOverrun 7 2 1) := by
  constructor
  · obtain ⟨hiff, hok, -, -⟩ := decode_iff_tiles [58, 0, 0x1e, 1, 1, 0, 0, 0] 8 (by decide) rfl (by decide)
    have hfilled : Tiles [0x1e, 1, 1, 0, 0, 0] [.tlv 0x1e [1], .pad1, .pad1, .pad1] :=
      (tiles_cons (by decide)).2 ⟨1, [1], [0, 0, 0], _, rfl, rfl, rfl, .pad1 (.pad1 (.pad1 .nil))⟩
    obtain ⟨h, n, hd⟩ := hiff.2 ⟨_, hfilled⟩
    obtain ⟨hnext, rfl, -, hunique, hencode⟩ := hok h n hd
    exact ⟨h, hd, hnext, (hunique _ hfilled).symm, hencode⟩
  · obtain ⟨-, -, herror, -⟩ := decode_iff_tiles [58, 0, 1, 3, 0, 0, 0, 0x1e] 8 (by decide) rfl (by decide)
    have hfront : Tiles [1, 3, 0, 0, 0] [.tlv 1 [0, 0, 0]] :=
      (tiles_cons (by decide)).2 ⟨3, [0, 0, 0], [], _, rfl, rfl, rfl, .nil⟩
    have hback : Overruns [0x1e] 2 := .kind (by decide)
    obtain ⟨offset, n, hd, -, hlt, -, hlongest, hover, -⟩ := herror (hback.not_tiles hfront)
    obtain rfl : offset = 7 := by
      by_contra hne
      exact hlongest 7 (by omega) (by decide) ⟨_, hfront⟩
    cases hover with
    | kind => exact hd

/-- A header is read back as it was built unless it has an option of type zero, which is read as a single
zero byte and not as a type. -/
theorem reads_back_iff_no_zero_kind (nextHeader : UInt8) (options : List HopOption) (b : Bytes)
    (h : encode (ofOptions nextHeader options) = .ok b) :
    decode HopByHop b = .ok (ofOptions nextHeader options, (ofOptions nextHeader options).size) ↔
      ∀ data, .tlv 0 data ∉ options := by
  have hback := (Spelling.decode_of_encode h).trans readsBack_iff
  refine hback.trans (forall_congr' fun data => not_congr ?_)
  rw [ofOptions, List.mem_append, or_iff_left (not_mem_padding data _)]

theorem reads_back_iff_no_zero_kind_router_alert :
    decode HopByHop [58, 0, 5, 2, 0, 0, 1, 0] = .ok (ofOptions 58 [.routerAlert 0], 8) := by
  have hencode : encode (ofOptions 58 [.routerAlert 0]) = .ok [58, 0, 5, 2, 0, 0, 1, 0] := rfl
  refine (reads_back_iff_no_zero_kind 58 [.routerAlert 0] _ hencode).2 fun data hmem => ?_
  cases List.mem_singleton.1 hmem

theorem zero_kind_not_read_back : encode (ofOptions 58 [.tlv 0 [5, 5]]) = .ok [58, 0, 0, 2, 5, 5, 1, 0] ∧
    decode HopByHop [58, 0, 0, 2, 5, 5, 1, 0] = .error (.optionOverrun 3 7 5) := by
  have hfront : Tiles [0] [.pad1] := .pad1 .nil
  have hback : Overruns [2, 5, 5, 1, 0] 7 := .data (show (2 : UInt8) ≠ 0 by decide) (by decide)
  have hunits : 8 = 8 * ((0 : UInt8).toNat + 1) := rfl
  exact ⟨rfl, decode_of_overruns 58 hfront hback hunits rfl []⟩

end HopByHop

end PacketWatch
