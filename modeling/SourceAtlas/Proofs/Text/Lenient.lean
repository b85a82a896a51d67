import SourceAtlas.Proofs.Text.Lines

/-! # Lenient reading of parts

A part of an encoded text may begin or end inside a character. Of a character that it begins in,
each byte is a piece; of one that it ends in, all bytes are one piece. So the pieces are as many as
the bytes with which characters begin and the bytes before the first of them.
-/

namespace SourceAtlas.Utf8

instance : DecidablePred Continues := fun _ => inferInstanceAs (Decidable (_ ∧ _))

variable {b first low high : UInt8} {c : Char} {owed taken bits n : ℕ} {head more tail : Bytes}

/-! ## Bytes of a character -/

theorem exists_encodeChar (c : Char) : ∃ b tail, String.utf8EncodeChar c = b :: tail ∧
    ¬Continues b ∧ ∀ s ∈ tail, Continues s := by
  have hfirst : ∀ n < 256, n < 0x80 ∨ 0xC0 ≤ n → ¬Continues (.ofNat n) := by
    intro n hn hb hc
    rw [Continues, uint8_toNat_ofNat hn] at hc
    omega
  have hlater : ∀ n < 0x40, Continues (.ofNat (n + 0x80)) := by
    intro n hn
    rw [Continues, uint8_toNat_ofNat (by omega)]
    omega
  have hc := @valid_lt c
  unfold String.utf8EncodeChar
  generalize c.val.toNat = v at hc
  dsimp only
  split_ifs
  · exact ⟨_, _, rfl, hfirst _ (by omega) (by omega), List.forall_mem_nil _⟩
  · refine ⟨_, _, rfl, hfirst _ (by omega) (by omega), ?_⟩
    simp only [List.forall_mem_cons]
    exact ⟨hlater _ (by omega), List.forall_mem_nil _⟩
  · refine ⟨_, _, rfl, hfirst _ (by omega) (by omega), ?_⟩
    simp only [List.forall_mem_cons]
    exact ⟨hlater _ (by omega), hlater _ (by omega), List.forall_mem_nil _⟩
  · refine ⟨_, _, rfl, hfirst _ (by omega) (by omega), ?_⟩
    simp only [List.forall_mem_cons]
    exact ⟨hlater _ (by omega), hlater _ (by omega), hlater _ (by omega), List.forall_mem_nil _⟩

/-! ## Pieces that are cut off -/

theorem piece_of_continues (h : Continues b) (more : Bytes) :
    piece b more = .broken b .startByte 0 := by
  have hlead : lead? b = none := by
    obtain ⟨hlow, hhigh⟩ := h
    have hnot : ¬b < 0x80 := fun hb => Nat.not_lt_of_le hlow (UInt8.lt_iff_toNat_lt.mp hb)
    have hlt : b < 0xC2 := UInt8.lt_iff_toNat_lt.mpr (hhigh.trans (by decide))
    rw [lead?, if_neg hnot, if_pos hlt]
  rw [piece, hlead]

theorem length_of_complete (h : complete first low high owed taken bits more = .scalar c n) :
    n = taken + owed := by
  induction owed generalizing low high taken bits more with
  | zero =>
    obtain ⟨-, rfl⟩ := Piece.scalar.inj h
    rfl
  | succ owed ih =>
    obtain ⟨_, _, -, -, h⟩ := complete_succ_eq_scalar.mp h
    rw [ih h]
    omega

/-- A character that lacks some of its bytes ends where the bytes do. -/
theorem complete_of_short
    (h : complete first low high owed taken bits (head ++ more) = .scalar c n)
    (hl : head.length < owed) :
    complete first low high owed taken bits head =
      .broken first .endOfData (taken + head.length) := by
  induction head generalizing low high owed taken bits with
  | nil =>
    obtain ⟨owed, rfl⟩ := Nat.exists_eq_succ_of_ne_zero hl.ne'
    rfl
  | cons s head ih =>
    obtain ⟨owed, rfl⟩ := Nat.exists_eq_succ_of_ne_zero (Nat.zero_lt_of_lt hl).ne'
    obtain ⟨s', tail, hs, hrange, h⟩ := complete_succ_eq_scalar.mp h
    obtain ⟨rfl, rfl⟩ := List.cons.inj hs
    rw [complete, if_pos hrange, ih h (Nat.lt_of_succ_lt_succ hl), List.length_cons, Nat.add_assoc,
      Nat.add_comm 1]

theorem piece_of_short (h : String.utf8EncodeChar c = b :: tail) (hn : n < tail.length) :
    piece b (tail.take n) = .broken b .endOfData n := by
  have hwhole := piece_of_encode h []
  rw [List.append_nil] at hwhole
  unfold piece at hwhole ⊢
  cases hl : lead? b with
  | none => simp [hl] at hwhole
  | some lead =>
    simp only [hl] at hwhole ⊢
    have howed := length_of_complete hwhole
    rw [← List.take_append_drop n tail] at hwhole
    rw [complete_of_short hwhole (by rw [List.length_take]; omega), List.length_take, Nat.zero_add,
      min_eq_left hn.le]

/-! ## Counting pieces -/

theorem lenientLength_append_of_continues (h : ∀ s ∈ head, Continues s) (more : Bytes) :
    lenientLength (head ++ more) = head.length + lenientLength more := by
  induction head with
  | nil => rw [List.nil_append, List.length_nil, Nat.zero_add]
  | cons s head ih =>
    obtain ⟨hs, hhead⟩ := List.forall_mem_cons.mp h
    rw [List.cons_append, lenientLength, pieces, piece_of_continues hs, Piece.following,
      List.drop_zero, List.length_cons, ← lenientLength, ih hhead, List.length_cons]
    omega

/-- With the first byte of a character begins a character, and with no other. -/
theorem countP_take_encodeChar (c : Char) (n : ℕ) :
    ((String.utf8EncodeChar c).take n).countP (fun s => ¬Continues s) = if 0 < n then 1 else 0 := by
  obtain ⟨b, tail, hc, hb, htail⟩ := exists_encodeChar c
  cases n with
  | zero => rfl
  | succ n =>
    have hzero : (tail.take n).countP (fun s => ¬Continues s) = 0 :=
      List.countP_eq_zero.mpr fun s hs => by simpa using htail s (List.mem_of_mem_take hs)
    rw [hc, List.take_succ_cons, List.countP_cons_of_pos (by simpa using hb), hzero,
      if_pos n.succ_pos]

theorem lenientLength_take_encodeChar (c : Char) (n : ℕ) :
    lenientLength ((String.utf8EncodeChar c).take n) = if 0 < n then 1 else 0 := by
  obtain ⟨b, tail, hc, -, -⟩ := exists_encodeChar c
  cases n with
  | zero => rw [List.take_zero, lenientLength, pieces, List.length_nil, if_neg (Nat.lt_irrefl 0)]
  | succ n =>
    rw [hc, List.take_succ_cons, lenientLength, pieces, if_pos n.succ_pos]
    rcases Nat.lt_or_ge n tail.length with hlt | hge
    · rw [piece_of_short hc hlt, Piece.following, List.drop_take_self, pieces]
      rfl
    · have hwhole := piece_of_encode hc []
      rw [List.append_nil] at hwhole
      rw [List.take_of_length_le hge, hwhole, Piece.following, List.drop_length, pieces]
      rfl

theorem lenientLength_take_encode (chars : List Char) (n : ℕ) :
    lenientLength ((chars.flatMap String.utf8EncodeChar).take n) =
      ((chars.flatMap String.utf8EncodeChar).take n).countP fun s => ¬Continues s := by
  induction chars generalizing n with
  | nil => rw [List.flatMap_nil, List.take_nil, lenientLength, pieces]; rfl
  | cons c rest ih =>
    rw [List.flatMap_cons]
    rcases Nat.lt_or_ge n (String.utf8EncodeChar c).length with hlt | hge
    · rw [List.take_append_of_le_length hlt.le, lenientLength_take_encodeChar,
        countP_take_encodeChar]
    · have hpos := List.length_pos_of_ne_nil (String.utf8EncodeChar_ne_nil (c := c))
      have hone := countP_take_encodeChar c n
      obtain ⟨m, hm⟩ := pieces_encodeChar_append c ((rest.flatMap String.utf8EncodeChar).take
        (n - (String.utf8EncodeChar c).length))
      rw [List.take_of_length_le hge, if_pos (hpos.trans_le hge)] at hone
      rw [List.take_append, List.take_of_length_le hge, lenientLength, hm, List.length_cons,
        ← lenientLength, ih, List.countP_append, hone, Nat.add_comm]

/-- An encoded text from some byte on: what is left of a character, then whole ones. -/
theorem exists_drop_encode (chars : List Char) (n : ℕ) :
    ∃ (head : Bytes) (rest : List Char), (chars.flatMap String.utf8EncodeChar).drop n =
      head ++ rest.flatMap String.utf8EncodeChar ∧ ∀ s ∈ head, Continues s := by
  induction chars generalizing n with
  | nil => exact ⟨[], [], List.drop_nil, List.forall_mem_nil _⟩
  | cons c more ih =>
    rw [List.flatMap_cons]
    rcases Nat.lt_or_ge n (String.utf8EncodeChar c).length with hlt | hge
    · cases n with
      | zero => exact ⟨[], c :: more, rfl, List.forall_mem_nil _⟩
      | succ n =>
        obtain ⟨b, tail, hc, -, htail⟩ := exists_encodeChar c
        refine ⟨tail.drop n, more, ?_, fun s hs => htail s (List.mem_of_mem_drop hs)⟩
        rw [List.drop_append_of_le_length hlt.le, hc, List.drop_succ_cons]
    · obtain ⟨head, rest, hdrop, hhead⟩ := ih (n - (String.utf8EncodeChar c).length)
      refine ⟨head, rest, ?_, hhead⟩
      rw [List.drop_append, List.drop_eq_nil_of_le hge, List.nil_append, hdrop]

theorem takeWhile_take_encode (chars : List Char) (n : ℕ) :
    ((chars.flatMap String.utf8EncodeChar).take n).takeWhile (fun s => Continues s) = [] := by
  cases chars with
  | nil => rw [List.flatMap_nil, List.take_nil, List.takeWhile_nil]
  | cons c rest =>
    obtain ⟨b, tail, hc, hb, -⟩ := exists_encodeChar c
    cases n with
    | zero => rfl
    | succ n =>
      rw [List.flatMap_cons, hc, List.cons_append, List.take_succ_cons,
        List.takeWhile_cons_of_neg (by simpa using hb)]

/-- The pieces of a part of an encoded text are as many as the bytes with which characters begin and
the bytes before the first of them. -/
theorem lenientLength_part (chars : List Char) (start stop : ℕ) :
    let part := ((chars.flatMap String.utf8EncodeChar).take stop).drop start
    lenientLength part =
      (part.countP fun s => ¬Continues s) + (part.takeWhile fun s => Continues s).length := by
  intro part
  obtain ⟨head, rest, hdrop, hhead⟩ := exists_drop_encode chars start
  have hpart : part = head.take (stop - start) ++
      (rest.flatMap String.utf8EncodeChar).take (stop - start - head.length) := by
    rw [← List.take_append, ← hdrop, ← List.drop_take]
  have htake : ∀ s ∈ head.take (stop - start), Continues s :=
    fun s hs => hhead s (List.mem_of_mem_take hs)
  have hzero : (head.take (stop - start)).countP (fun s => ¬Continues s) = 0 :=
    List.countP_eq_zero.mpr fun s hs => by simpa using htake s hs
  rw [hpart, lenientLength_append_of_continues htake, lenientLength_take_encode,
    List.countP_append, hzero, List.takeWhile_append_of_pos (by simpa using htake),
    takeWhile_take_encode, List.append_nil]
  omega

end SourceAtlas.Utf8
