import SourceAtlas.Proofs.Text.Lenient

/-! # Where a strict reading fails

A strict reading goes through the whole characters at the beginning of some bytes, and fails where
no further one follows. What it reports there is the longest part with which some character begins,
or a single byte if none does.
-/

namespace SourceAtlas.Utf8

variable {b first low high : UInt8} {c : Char} {fault : Fault} {owed taken bits n : ℕ}
  {bytes rest part more : Bytes} {m : Malformed}

theorem isValidUTF8_iff : bytes.toByteArray.IsValidUTF8 ↔
    ∃ chars : List Char, bytes = chars.flatMap String.utf8EncodeChar := by
  constructor
  · rintro ⟨chars, h⟩
    refine ⟨chars, ?_⟩
    simpa [List.utf8Encode] using congrArg (·.data.toList) h
  · rintro ⟨chars, rfl⟩
    exact ⟨chars, rfl⟩

def BeginsCharacter (part : Bytes) : Prop :=
  ∃ c : Char, part <+: String.utf8EncodeChar c

/-- What the report of an ill-formed part says of the bytes that it is about: before it stand whole
characters, as many as can stand there, and it is the longest part with which a character begins, or
one byte. -/
structure Malformed.Describes (m : Malformed) (bytes : Bytes) : Prop where
  before : (bytes.take m.offset).toByteArray.IsValidUTF8
  longest : ∀ n, m.offset < n → n ≤ bytes.length → ¬(bytes.take n).toByteArray.IsValidUTF8
  first_eq : bytes[m.offset]? = some m.first
  size_pos : 0 < m.size
  size_le : m.offset + m.size ≤ bytes.length
  begins : m.size = 1 ∨ BeginsCharacter ((bytes.drop m.offset).take m.size)
  maximal : ∀ n, m.size < n → m.offset + n ≤ bytes.length →
    ¬BeginsCharacter ((bytes.drop m.offset).take n)
  startByte_iff : m.fault = .startByte ↔ ¬BeginsCharacter [m.first]
  endOfData_iff : m.fault = .endOfData ↔
    BeginsCharacter [m.first] ∧ m.offset + m.size = bytes.length

/-! ## Started characters -/

theorem beginsCharacter_cons_iff :
    BeginsCharacter (b :: part) ↔
      ∃ more c n, piece b (part ++ more) = .scalar c n ∧ part.length ≤ n := by
  constructor
  · rintro ⟨c, tail, h⟩
    refine ⟨tail, c, (part ++ tail).length, ?_, by simp⟩
    simpa using piece_of_encode h.symm []
  · rintro ⟨more, c, n, h, hn⟩
    obtain ⟨tail, more', he, hc, rfl⟩ := encode_of_piece h
    refine ⟨c, ?_⟩
    rw [hc, List.cons_prefix_cons]
    exact ⟨rfl, List.prefix_of_prefix_length_le (List.prefix_append part more)
      (he ▸ List.prefix_append tail more') hn⟩

/-- A started character can always be brought to an end. -/
theorem exists_complete (h : low ≤ high) (first : UInt8) (owed taken bits : ℕ) :
    ∃ more c, complete first low high owed taken bits more = .scalar c (taken + owed) := by
  induction owed generalizing low high taken bits with
  | zero => exact ⟨[], _, rfl⟩
  | succ owed ih =>
    have hrange : (0x80 : UInt8) ≤ 0xBF := by decide
    obtain ⟨more, c, hc⟩ := ih hrange (taken + 1) (bits * 64 + (low.toNat - 0x80))
    refine ⟨low :: more, c, ?_⟩
    rw [complete, if_pos ⟨UInt8.le_refl low, h⟩, hc, Nat.add_assoc, Nat.add_comm 1]

/-- A started character breaks off at the end of the bytes, or at one with which it cannot go on.
The bytes before can be gone on with otherwise. -/
theorem complete_eq_broken {f : UInt8}
    (h : complete first low high owed taken bits rest = .broken f fault n) (hr : low ≤ high) :
    f = first ∧ ∃ head tail, rest = head ++ tail ∧ n = taken + head.length ∧ head.length < owed ∧
      (∃ more c, complete first low high owed taken bits (head ++ more) =
        .scalar c (taken + owed)) ∧
      (tail = [] ∧ fault = .endOfData ∨ ∃ s tail', tail = s :: tail' ∧ fault = .continuationByte ∧
        ∀ more, complete first low high owed taken bits (head ++ s :: more) =
          .broken first .continuationByte n) := by
  -- Only the first byte that is owed has a range of its own, so the range is general.
  induction owed generalizing low high taken bits rest with
  | zero => cases h
  | succ owed ih =>
    cases rest with
    | nil =>
      obtain ⟨rfl, rfl, rfl⟩ := Piece.broken.inj h
      exact ⟨rfl, [], [], rfl, rfl, owed.succ_pos, exists_complete hr _ _ _ _, .inl ⟨rfl, rfl⟩⟩
    | cons s rest =>
      by_cases hs : low ≤ s ∧ s ≤ high
      · rw [complete, if_pos hs] at h
        obtain ⟨rfl, head, tail, rfl, rfl, hlt, ⟨more, c, hc⟩, hend⟩ := ih h (by decide)
        refine ⟨rfl, s :: head, tail, rfl, ?_, Nat.succ_lt_succ hlt, ⟨more, c, ?_⟩, ?_⟩
        · simp [Nat.add_assoc, Nat.add_comm 1]
        · rw [List.cons_append, complete, if_pos hs, hc, Nat.add_assoc, Nat.add_comm 1]
        · rcases hend with hend | ⟨s', tail', ht, hf, hb⟩
          · exact .inl hend
          · refine .inr ⟨s', tail', ht, hf, fun more => ?_⟩
            rw [List.cons_append, complete, if_pos hs, hb]
      · rw [complete, if_neg hs] at h
        obtain ⟨rfl, rfl, rfl⟩ := Piece.broken.inj h
        refine ⟨rfl, [], s :: rest, rfl, rfl, owed.succ_pos, exists_complete hr _ _ _ _,
          .inr ⟨s, rest, rfl, rfl, fun more => ?_⟩⟩
        rw [List.nil_append, complete, if_neg hs]

theorem low_le_high_of_lead? {lead : Lead} (h : lead? b = some lead) : lead.low ≤ lead.high := by
  simp only [lead?] at h
  split_ifs at h <;> obtain rfl := Option.some.inj h <;> dsimp only <;> decide

/-! ## Broken pieces -/

structure Breaks (b : UInt8) (rest : Bytes) (fault : Fault) (n : ℕ) : Prop where
  le_length : n ≤ rest.length
  begins : n = 0 ∨ BeginsCharacter (b :: rest.take n)
  maximal : ∀ k, n < k → k ≤ rest.length → ¬BeginsCharacter (b :: rest.take k)
  startByte_iff : fault = .startByte ↔ ¬BeginsCharacter [b]
  endOfData_iff : fault = .endOfData ↔ BeginsCharacter [b] ∧ n = rest.length

theorem not_beginsCharacter_of_lead? (h : lead? b = none) : ¬BeginsCharacter (b :: part) := by
  rw [beginsCharacter_cons_iff]
  rintro ⟨more, c, n, hp, -⟩
  simp [piece, h] at hp

theorem breaks_of_piece (h : piece b rest = .broken first fault n) :
    first = b ∧ Breaks b rest fault n := by
  cases hl : lead? b with
  | none =>
    rw [piece, hl] at h
    obtain ⟨rfl, rfl, rfl⟩ := Piece.broken.inj h
    have hnone : ∀ part, ¬BeginsCharacter (b :: part) :=
      fun _ => not_beginsCharacter_of_lead? hl
    exact ⟨rfl, Nat.zero_le _, .inl rfl, fun _ _ _ => hnone _, by simp [hnone], by simp [hnone]⟩
  | some lead =>
    have hlead : ∀ more, piece b more =
        complete b lead.low lead.high lead.following 0 lead.bits more := by
      intro more
      rw [piece, hl]
    have hr := low_le_high_of_lead? hl
    have hb : BeginsCharacter [b] := by
      obtain ⟨more, c, hc⟩ := exists_complete hr b lead.following 0 lead.bits
      exact beginsCharacter_cons_iff.mpr ⟨more, c, _, (hlead more).trans hc, Nat.zero_le _⟩
    rw [hlead] at h
    obtain ⟨rfl, head, tail, rfl, hn, hlt, ⟨more, c, hc⟩, hend⟩ := complete_eq_broken h hr
    obtain rfl : n = head.length := by simpa using hn
    refine ⟨rfl, ⟨by simp, .inr ?_, fun k hk hle => ?_, ?_, ?_⟩⟩
    · rw [List.take_left, beginsCharacter_cons_iff]
      exact ⟨more, c, _, (hlead _).trans hc, by omega⟩
    · rcases hend with ⟨rfl, -⟩ | ⟨s, tail, rfl, -, hbroken⟩
      · simp at hle
        omega
      · -- Any longer part holds the byte with which the character cannot go on.
        obtain ⟨j, rfl⟩ := Nat.exists_eq_add_of_lt hk
        rw [Nat.add_assoc, List.take_append, List.take_of_length_le (by omega),
          Nat.add_sub_cancel_left, List.take_succ_cons, beginsCharacter_cons_iff]
        rintro ⟨more, c, n, hp, -⟩
        rw [hlead, List.append_assoc, List.cons_append, hbroken] at hp
        cases hp
    · rcases hend with ⟨-, rfl⟩ | ⟨s, tail, -, rfl, -⟩ <;> simp [hb]
    · rcases hend with ⟨rfl, rfl⟩ | ⟨s, tail, rfl, rfl, -⟩ <;> simp [hb]

/-! ## Whole characters before -/

/-- A strict reading fails at a broken piece that stands behind whole characters. -/
theorem exists_broken_of_gather {offset : ℕ} (h : gather offset (pieces bytes) = .error m) :
    ∃ (chars : List Char) (b : UInt8) (rest : Bytes) (fault : Fault) (n : ℕ),
      bytes = chars.flatMap String.utf8EncodeChar ++ b :: rest ∧
        piece b rest = .broken b fault n ∧
        m = ⟨offset + (chars.flatMap String.utf8EncodeChar).length, b, n + 1, fault⟩ := by
  fun_induction pieces bytes generalizing offset with
  | case1 => cases h
  | case2 b rest ih =>
    cases hp : piece b rest with
    | broken first fault n =>
      obtain ⟨rfl, -⟩ := breaks_of_piece hp
      rw [hp] at h
      exact ⟨[], _, rest, fault, n, rfl, hp, (Except.error.inj h).symm⟩
    | scalar c n =>
      rw [hp] at h ih
      obtain ⟨tail, more, rfl, hc, rfl⟩ := encode_of_piece hp
      rw [gather, Piece.following, List.drop_left] at h
      rw [Piece.following, List.drop_left] at ih
      cases hg : gather (offset + tail.length + 1) (pieces more) with
      | ok chars => simp [hg, Except.map] at h
      | error m' =>
        rw [hg] at h
        obtain rfl := Except.error.inj h
        obtain ⟨chars, b', rest', fault, n, rfl, hbroken, rfl⟩ := ih hg
        refine ⟨c :: chars, b', rest', fault, n, ?_, hbroken, ?_⟩
        · simp [hc]
        · simp [hc]
          omega

/-- Where one run of characters goes on behind another, no piece is broken. -/
theorem piece_ne_broken (chars longer : List Char)
    (h : longer.flatMap String.utf8EncodeChar ++ more =
      chars.flatMap String.utf8EncodeChar ++ b :: rest)
    (hlt : (chars.flatMap String.utf8EncodeChar).length <
      (longer.flatMap String.utf8EncodeChar).length) :
    piece b rest ≠ .broken first fault n := by
  induction chars generalizing longer with
  | nil =>
    cases longer with
    | nil => simp at hlt
    | cons c longer =>
      obtain ⟨b', tail, hc⟩ := List.exists_cons_of_ne_nil (String.utf8EncodeChar_ne_nil (c := c))
      simp only [List.flatMap_cons, List.flatMap_nil, hc, List.cons_append, List.append_assoc,
        List.nil_append, List.cons.injEq] at h
      obtain ⟨rfl, rfl⟩ := h
      rw [piece_of_encode hc]
      nofun
  | cons c chars ih =>
    cases longer with
    | nil => simp at hlt
    | cons c' longer =>
      simp only [List.flatMap_cons, List.append_assoc] at h
      obtain ⟨k, hk⟩ := pieces_encodeChar_append c
        (chars.flatMap String.utf8EncodeChar ++ b :: rest)
      obtain ⟨k', hk'⟩ := pieces_encodeChar_append c' (longer.flatMap String.utf8EncodeChar ++ more)
      rw [h, hk] at hk'
      -- The same bytes begin with one piece only, so that the first characters are the same.
      obtain ⟨rfl, -⟩ := Piece.scalar.inj (List.cons.inj hk').1
      exact ih longer (List.append_cancel_left h) (by simpa using hlt)

theorem exists_broken_of_decode (h : decode bytes = .error m) :
    ∃ (chars : List Char) (b : UInt8) (rest : Bytes) (fault : Fault) (n : ℕ),
      bytes = chars.flatMap String.utf8EncodeChar ++ b :: rest ∧
        piece b rest = .broken b fault n ∧
        m = ⟨(chars.flatMap String.utf8EncodeChar).length, b, n + 1, fault⟩ := by
  unfold decode at h
  cases hg : gather 0 (pieces bytes) with
  | ok chars => simp [hg, Except.map] at h
  | error m' =>
    obtain rfl : m' = m := by simpa [hg, Except.map] using h
    simpa using exists_broken_of_gather hg

theorem describes_of_decode (h : decode bytes = .error m) : m.Describes bytes := by
  obtain ⟨chars, b, rest, fault, n, rfl, hbroken, rfl⟩ := exists_broken_of_decode h
  obtain ⟨-, hb⟩ := breaks_of_piece hbroken
  have hle := hb.le_length
  constructor <;> dsimp only
  case before =>
    rw [List.take_left]
    exact isValidUTF8_iff.mpr ⟨chars, rfl⟩
  case longest =>
    intro k hk hkle hvalid
    obtain ⟨longer, hlonger⟩ := isValidUTF8_iff.mp hvalid
    have happend := List.take_append_drop k (chars.flatMap String.utf8EncodeChar ++ b :: rest)
    rw [hlonger] at happend
    refine piece_ne_broken chars longer happend ?_ hbroken
    rw [← hlonger, List.length_take]
    exact lt_min hk (hk.trans_le hkle)
  case first_eq => simp
  case size_pos => exact n.succ_pos
  case size_le =>
    simp
    omega
  case begins => simpa using hb.begins
  case maximal =>
    intro k hk hkle
    obtain ⟨k, rfl⟩ := Nat.exists_eq_succ_of_ne_zero (Nat.ne_zero_of_lt hk)
    simp only [List.length_append, List.length_cons] at hkle
    simpa using hb.maximal k (by omega) (by omega)
  case startByte_iff => exact hb.startByte_iff
  case endOfData_iff => simp [hb.endOfData_iff]

/-! ## One description -/

namespace Malformed.Describes

variable {m m' : Malformed} (h : m.Describes bytes) (h' : m'.Describes bytes)

include h h'

theorem offset_le : m'.offset ≤ m.offset := by
  by_contra hlt
  have hle := h'.size_le
  exact h.longest m'.offset (by omega) (by omega) h'.before

theorem size_le_of_offset_eq (ho : m.offset = m'.offset) : m'.size ≤ m.size := by
  by_contra hlt
  have hle := h'.size_le
  have hpos := h.size_pos
  rcases h'.begins with hone | hb
  · omega
  · exact h.maximal m'.size (by omega) (by omega) (ho ▸ hb)

theorem fault_eq (hf : m.first = m'.first) (he : m.offset + m.size = m'.offset + m'.size) :
    m.fault = m'.fault := by
  have hstart := h.startByte_iff
  have hend := h.endOfData_iff
  rw [hf, ← h'.startByte_iff] at hstart
  rw [hf, he, ← h'.endOfData_iff] at hend
  cases hm : m.fault <;> cases hm' : m'.fault <;> simp_all

theorem unique : m = m' := by
  have ho : m.offset = m'.offset := le_antisymm (h'.offset_le h) (h.offset_le h')
  have hs : m.size = m'.size :=
    le_antisymm (h'.size_le_of_offset_eq h ho.symm) (h.size_le_of_offset_eq h' ho)
  have hf : m.first = m'.first := by
    have hfirst := h.first_eq
    rw [ho, h'.first_eq] at hfirst
    exact (Option.some.inj hfirst).symm
  have hfault := h.fault_eq h' hf (by rw [ho, hs])
  cases m
  cases m'
  simp_all

end Malformed.Describes

/-- The strict reading fails with the one report that describes the bytes. -/
theorem decode_eq_error_iff : decode bytes = .error m ↔ m.Describes bytes := by
  constructor
  · exact describes_of_decode
  · intro h
    cases hd : decode bytes with
    | error m' => rw [(describes_of_decode hd).unique h]
    | ok text =>
      have hlt := h.size_pos
      have hle := h.size_le
      refine absurd ?_ (h.longest bytes.length (by omega) le_rfl)
      rw [List.take_length, decode_eq_ok_iff.mp hd, toByteArray_encode]
      exact text.isValidUTF8

end SourceAtlas.Utf8
