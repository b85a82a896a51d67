import Mathlib.Tactic
import SourceAtlas.Text.Utf8

/-! # Strict reading and writing

The pieces of an encoded text are its characters, and a piece that is a character is its encoding.
Hence the strict reading accepts exactly the bytes that encode some text, and gives that text back.
-/

namespace SourceAtlas.Utf8

variable {b : UInt8} {c : Char} {rest : Bytes} {n : ℕ}

theorem toNat_ofNat (h : n.isValidChar) : (Char.ofNat n).val.toNat = n := by
  rw [Char.ofNat, dif_pos h]
  rfl

theorem uint8_ofNat_eq (h : n = b.toNat) : UInt8.ofNat n = b := by
  rw [h, UInt8.ofNat_toNat]

theorem uint8_toNat_ofNat (h : n < 256) : (UInt8.ofNat n).toNat = n :=
  Nat.mod_eq_of_lt h

/-! ## First bytes -/

/-- Whether a byte has the form of one that goes on with a character. -/
def Continues (s : UInt8) : Prop :=
  0x80 ≤ s.toNat ∧ s.toNat < 0xC0

def Lead.next (lead : Lead) (s : UInt8) : ℕ :=
  lead.bits * 64 + (s.toNat - 0x80)

/-- What a first byte asks of the second. Of the characters that would start with these two, those
of three bytes are neither shorter ones nor surrogates, and those of four neither shorter ones nor
too large. -/
inductive Starts (b : UInt8) (lead : Lead) : Prop
  | one : b.toNat < 0x80 → lead.following = 0 → lead.bits = b.toNat → Starts b lead
  | two : 0xC2 ≤ b.toNat → b.toNat < 0xE0 → lead.following = 1 → lead.bits = b.toNat - 0xC0 →
      (∀ s, lead.low ≤ s ∧ s ≤ lead.high ↔ Continues s) → Starts b lead
  | three : 0xE0 ≤ b.toNat → b.toNat < 0xF0 → lead.following = 2 → lead.bits = b.toNat - 0xE0 →
      (∀ s, lead.low ≤ s ∧ s ≤ lead.high ↔
        Continues s ∧ 0x20 ≤ lead.next s ∧ (lead.next s < 0x360 ∨ 0x380 ≤ lead.next s)) →
      Starts b lead
  | four : 0xF0 ≤ b.toNat → b.toNat < 0xF5 → lead.following = 3 → lead.bits = b.toNat - 0xF0 →
      (∀ s, lead.low ≤ s ∧ s ≤ lead.high ↔
        Continues s ∧ 0x10 ≤ lead.next s ∧ lead.next s < 0x110) →
      Starts b lead

theorem starts_of_lead? {lead : Lead} (h : lead? b = some lead) : Starts b lead := by
  simp only [lead?, UInt8.lt_iff_toNat_lt, ← UInt8.toNat_inj, UInt8.reduceToNat] at h
  split_ifs at h <;> obtain rfl := Option.some.inj h
  · exact .one (by omega) rfl rfl
  · refine .two (by omega) (by omega) rfl rfl fun s => ?_
    simp only [UInt8.le_iff_toNat_le, UInt8.reduceToNat]
    unfold Continues; omega
  iterate 3
    refine .three (by omega) (by omega) rfl (by dsimp only <;> omega) fun s => ?_
    simp only [UInt8.le_iff_toNat_le, UInt8.reduceToNat]
    unfold Continues Lead.next; dsimp only; omega
  iterate 3
    refine .four (by omega) (by omega) rfl (by dsimp only <;> omega) fun s => ?_
    simp only [UInt8.le_iff_toNat_le, UInt8.reduceToNat]
    unfold Continues Lead.next; dsimp only; omega

theorem exists_lead? (h : b.toNat < 0x80 ∨ 0xC2 ≤ b.toNat ∧ b.toNat < 0xF5) :
    ∃ lead, lead? b = some lead := by
  simp only [lead?, UInt8.lt_iff_toNat_lt, ← UInt8.toNat_inj, UInt8.reduceToNat]
  split_ifs <;> first
    | exact ⟨_, rfl⟩
    | omega

/-! ## Pieces and characters -/

theorem complete_succ_eq_scalar {first low high : UInt8} {owed taken bits : ℕ} :
    complete first low high (owed + 1) taken bits rest = .scalar c n ↔
      ∃ s tail, rest = s :: tail ∧ (low ≤ s ∧ s ≤ high) ∧
        complete first 0x80 0xBF owed (taken + 1) (bits * 64 + (s.toNat - 0x80)) tail =
          .scalar c n := by
  cases rest with
  | nil => simp [complete]
  | cons s tail =>
    simp only [complete, List.cons.injEq]
    constructor
    · intro h
      split_ifs at h with hs
      exact ⟨s, tail, ⟨rfl, rfl⟩, hs, h⟩
    · rintro ⟨_, _, ⟨rfl, rfl⟩, hs, h⟩
      rwa [if_pos hs]

theorem later_iff {s : UInt8} : (0x80 ≤ s ∧ s ≤ 0xBF) ↔ Continues s := by
  simp only [UInt8.le_iff_toNat_le, UInt8.reduceToNat, Continues]
  omega

theorem valid_lt {c : Char} :
    c.val.toNat < 0xD800 ∨ 0xE000 ≤ c.val.toNat ∧ c.val.toNat < 0x110000 := by
  have h : c.val.toNat < 0xD800 ∨ 0xDFFF < c.val.toNat ∧ c.val.toNat < 0x110000 := c.valid
  omega

/-- A piece that is a character is that character's encoding. -/
theorem encode_of_piece (h : piece b rest = .scalar c n) :
    ∃ tail more, rest = tail ++ more ∧ String.utf8EncodeChar c = b :: tail ∧ tail.length = n := by
  unfold piece at h
  cases hl : lead? b with
  | none => simp [hl] at h
  | some lead =>
    simp only [hl] at h
    cases starts_of_lead? hl with
    | one hb hf hbits =>
      rw [hf, complete, hbits] at h
      obtain ⟨rfl, rfl⟩ := Piece.scalar.inj h
      have hv : b.toNat.isValidChar := Or.inl (by omega)
      refine ⟨[], rest, rfl, ?_, rfl⟩
      simp only [String.utf8EncodeChar, toNat_ofNat hv]
      rw [if_pos (by omega), uint8_ofNat_eq rfl]
    | two hb hb' hf hbits hs =>
      rw [hf, complete_succ_eq_scalar] at h
      obtain ⟨s, more, rfl, hr, h⟩ := h
      obtain ⟨h₁, h₂⟩ := (hs s).mp hr
      obtain ⟨rfl, rfl⟩ := Piece.scalar.inj h
      refine ⟨[s], more, rfl, ?_, rfl⟩
      have hv : (lead.bits * 64 + (s.toNat - 0x80)).isValidChar := Or.inl (by omega)
      simp only [String.utf8EncodeChar, toNat_ofNat hv]
      rw [if_neg (by omega), if_pos (by omega), uint8_ofNat_eq (b := b) (by omega),
        uint8_ofNat_eq (b := s) (by omega)]
    | three hb hb' hf hbits hs =>
      rw [hf, complete_succ_eq_scalar] at h
      obtain ⟨s, _, rfl, hr, h⟩ := h
      obtain ⟨⟨h₁, h₂⟩, h₃, h₄⟩ := (hs s).mp hr
      obtain ⟨s', more, rfl, hr', h⟩ := complete_succ_eq_scalar.mp h
      obtain ⟨h₅, h₆⟩ := later_iff.mp hr'
      obtain ⟨rfl, rfl⟩ := Piece.scalar.inj h
      refine ⟨[s, s'], more, rfl, ?_, rfl⟩
      unfold Lead.next at h₃ h₄
      have hv : ((lead.bits * 64 + (s.toNat - 0x80)) * 64 + (s'.toNat - 0x80)).isValidChar := by
        unfold Nat.isValidChar; omega
      simp only [String.utf8EncodeChar, toNat_ofNat hv]
      rw [if_neg (by omega), if_neg (by omega), if_pos (by omega),
        uint8_ofNat_eq (b := b) (by omega), uint8_ofNat_eq (b := s) (by omega),
        uint8_ofNat_eq (b := s') (by omega)]
    | four hb hb' hf hbits hs =>
      rw [hf, complete_succ_eq_scalar] at h
      obtain ⟨s, _, rfl, hr, h⟩ := h
      obtain ⟨⟨h₁, h₂⟩, h₃, h₄⟩ := (hs s).mp hr
      obtain ⟨s', _, rfl, hr', h⟩ := complete_succ_eq_scalar.mp h
      obtain ⟨h₅, h₆⟩ := later_iff.mp hr'
      obtain ⟨s'', more, rfl, hr'', h⟩ := complete_succ_eq_scalar.mp h
      obtain ⟨h₇, h₈⟩ := later_iff.mp hr''
      obtain ⟨rfl, rfl⟩ := Piece.scalar.inj h
      refine ⟨[s, s', s''], more, rfl, ?_, rfl⟩
      unfold Lead.next at h₃ h₄
      have hv : (((lead.bits * 64 + (s.toNat - 0x80)) * 64 + (s'.toNat - 0x80)) * 64 +
          (s''.toNat - 0x80)).isValidChar := by
        unfold Nat.isValidChar; omega
      simp only [String.utf8EncodeChar, toNat_ofNat hv]
      rw [if_neg (by omega), if_neg (by omega), if_neg (by omega),
        uint8_ofNat_eq (b := b) (by omega), uint8_ofNat_eq (b := s) (by omega),
        uint8_ofNat_eq (b := s') (by omega), uint8_ofNat_eq (b := s'') (by omega)]

theorem piece_of_encode {tail : Bytes} (h : String.utf8EncodeChar c = b :: tail) (more : Bytes) :
    piece b (tail ++ more) = .scalar c tail.length := by
  have hc := @valid_lt c
  have hv : Char.ofNat c.val.toNat = c := Char.ofNat_toNat c
  unfold String.utf8EncodeChar at h
  generalize c.val.toNat = v at h hc hv
  simp only at h
  split_ifs at h
  · obtain ⟨rfl, rfl⟩ := List.cons.inj h
    have hb : (UInt8.ofNat v).toNat = v := uint8_toNat_ofNat (by omega)
    obtain ⟨lead, hl⟩ := exists_lead? (b := .ofNat v) (Or.inl (by omega))
    cases starts_of_lead? hl with
    | one _ hf hbits => simp [piece, hl, hf, hbits, complete, hb, hv]
    | two | three | four => omega
  · obtain ⟨rfl, rfl⟩ := List.cons.inj h
    have hb := uint8_toNat_ofNat (n := v / 64 % 0x20 + 0xC0) (by omega)
    have hs := uint8_toNat_ofNat (n := v % 0x40 + 0x80) (by omega)
    obtain ⟨lead, hl⟩ := exists_lead? (b := .ofNat (v / 64 % 0x20 + 0xC0)) (Or.inr (by omega))
    cases starts_of_lead? hl with
    | two _ _ hf hbits hn =>
      simp only [piece, hl, hf, complete_succ_eq_scalar]
      refine ⟨_, _, rfl, (hn _).mpr (by unfold Continues; omega), ?_⟩
      have he : (v / 64 % 0x20 + 0xC0 - 0xC0) * 64 + (v % 0x40 + 0x80 - 0x80) = v := by omega
      rw [complete, hbits, hb, hs, he, hv]
      rfl
    | one | three | four => omega
  · obtain ⟨rfl, rfl⟩ := List.cons.inj h
    have hb := uint8_toNat_ofNat (n := v / 4096 % 0x10 + 0xE0) (by omega)
    have hs := uint8_toNat_ofNat (n := v / 64 % 0x40 + 0x80) (by omega)
    have hs' := uint8_toNat_ofNat (n := v % 0x40 + 0x80) (by omega)
    obtain ⟨lead, hl⟩ := exists_lead? (b := .ofNat (v / 4096 % 0x10 + 0xE0)) (Or.inr (by omega))
    cases starts_of_lead? hl with
    | three _ _ hf hbits hn =>
      simp only [piece, hl, hf, complete_succ_eq_scalar]
      refine ⟨_, _, rfl, (hn _).mpr (by unfold Continues Lead.next; omega),
        _, _, rfl, later_iff.mpr (by unfold Continues; omega), ?_⟩
      have he : ((v / 4096 % 0x10 + 0xE0 - 0xE0) * 64 + (v / 64 % 0x40 + 0x80 - 0x80)) * 64 +
          (v % 0x40 + 0x80 - 0x80) = v := by omega
      rw [complete, hbits, hb, hs, hs', he, hv]
      rfl
    | one | two | four => omega
  · obtain ⟨rfl, rfl⟩ := List.cons.inj h
    have hb := uint8_toNat_ofNat (n := v / 262144 % 0x08 + 0xF0) (by omega)
    have hs := uint8_toNat_ofNat (n := v / 4096 % 0x40 + 0x80) (by omega)
    have hs' := uint8_toNat_ofNat (n := v / 64 % 0x40 + 0x80) (by omega)
    have hs'' := uint8_toNat_ofNat (n := v % 0x40 + 0x80) (by omega)
    obtain ⟨lead, hl⟩ := exists_lead? (b := .ofNat (v / 262144 % 0x08 + 0xF0)) (Or.inr (by omega))
    cases starts_of_lead? hl with
    | four _ _ hf hbits hn =>
      simp only [piece, hl, hf, complete_succ_eq_scalar]
      refine ⟨_, _, rfl, (hn _).mpr (by unfold Continues Lead.next; omega),
        _, _, rfl, later_iff.mpr (by unfold Continues; omega),
        _, _, rfl, later_iff.mpr (by unfold Continues; omega), ?_⟩
      have he : (((v / 262144 % 0x08 + 0xF0 - 0xF0) * 64 + (v / 4096 % 0x40 + 0x80 - 0x80)) * 64 +
          (v / 64 % 0x40 + 0x80 - 0x80)) * 64 + (v % 0x40 + 0x80 - 0x80) = v := by omega
      rw [complete, hbits, hb, hs, hs', hs'', he, hv]
      rfl
    | one | two | three => omega

/-! ## Whole texts -/

theorem pieces_encodeChar_append (c : Char) (more : Bytes) : ∃ n,
    pieces (String.utf8EncodeChar c ++ more) = .scalar c n :: pieces more := by
  obtain ⟨b, tail, h⟩ := List.exists_cons_of_ne_nil (String.utf8EncodeChar_ne_nil (c := c))
  refine ⟨tail.length, ?_⟩
  rw [h, List.cons_append, pieces, piece_of_encode h, Piece.following, List.drop_left]

theorem gather_pieces_flatMap (chars : List Char) (offset : ℕ) :
    gather offset (pieces (chars.flatMap String.utf8EncodeChar)) = .ok chars := by
  induction chars generalizing offset with
  | nil => rw [List.flatMap_nil, pieces, gather]
  | cons c chars ih =>
    obtain ⟨n, hn⟩ := pieces_encodeChar_append c (chars.flatMap String.utf8EncodeChar)
    rw [List.flatMap_cons, hn, gather, ih]
    rfl

theorem eq_flatMap_of_gather {bytes : Bytes} {offset : ℕ} {chars : List Char}
    (h : gather offset (pieces bytes) = .ok chars) :
    bytes = chars.flatMap String.utf8EncodeChar := by
  fun_induction pieces bytes generalizing offset chars with
  | case1 =>
    obtain rfl := Except.ok.inj h
    rfl
  | case2 b rest ih =>
    cases hp : piece b rest with
    | broken => simp [hp, gather] at h
    | scalar c n =>
      rw [hp] at h ih
      obtain ⟨tail, more, rfl, hc, rfl⟩ := encode_of_piece hp
      rw [gather, Piece.following, List.drop_left] at h
      rw [Piece.following, List.drop_left] at ih
      cases hg : gather (offset + tail.length + 1) (pieces more) with
      | error => simp [hg, Except.map] at h
      | ok chars' =>
        rw [hg] at h
        obtain rfl := Except.ok.inj h
        rw [List.flatMap_cons, hc, ← ih hg, List.cons_append]

/-- The strict reading accepts exactly what encodes a text. -/
theorem decode_eq_ok_iff {bytes : Bytes} {text : String} :
    decode bytes = .ok text ↔ bytes = encode text := by
  unfold decode encode
  constructor
  · intro h
    cases hg : gather 0 (pieces bytes) with
    | error => simp [hg, Except.map] at h
    | ok chars =>
      rw [hg] at h
      obtain rfl := Except.ok.inj h
      rw [String.toList_ofList]
      exact eq_flatMap_of_gather hg
  · rintro rfl
    rw [gather_pieces_flatMap, Except.map, String.ofList_toList]

theorem decode_encode (text : String) : decode (encode text) = .ok text :=
  decode_eq_ok_iff.mpr rfl

theorem toByteArray_encode (text : String) : (encode text).toByteArray = text.toUTF8 := by
  obtain ⟨chars, rfl⟩ := text.exists_eq_ofList
  rw [encode, String.toList_ofList, String.toUTF8_eq_toByteArray, String.toByteArray_ofList]
  rfl

end SourceAtlas.Utf8
