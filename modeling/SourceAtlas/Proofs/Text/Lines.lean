import SourceAtlas.Proofs.LineLookup
import SourceAtlas.Proofs.Text.Utf8

/-! # Lines of a text

No character but the newline has a newline byte in its encoding. So the lines of a text are encoded
as the lines of its bytes, also seen from an offset inside a character.
-/

namespace SourceAtlas

open LineIndex (newline)

namespace Utf8

variable {chars before line after : List Char} {c : Char}

theorem encode_ofList (chars : List Char) :
    encode (String.ofList chars) = chars.flatMap String.utf8EncodeChar := by
  rw [encode, String.toList_ofList]

theorem encode_append (first second : List Char) :
    encode (String.ofList (first ++ second)) =
      encode (String.ofList first) ++ encode (String.ofList second) := by
  rw [encode_ofList, encode_ofList, encode_ofList, List.flatMap_append]

theorem length_encode (text : String) : (encode text).length = text.utf8ByteSize := by
  have h := congrArg ByteArray.size (toByteArray_encode text)
  rwa [List.size_toByteArray] at h

theorem encode_newline : encode (String.ofList ['\n']) = [newline] := by decide

theorem newline_not_mem_encodeChar (h : c ≠ '\n') : newline ∉ String.utf8EncodeChar c := by
  have hbyte : ∀ n, n < 256 → n ≠ 10 → newline ≠ UInt8.ofNat n := by
    intro n hn hne heq
    have hnat := congrArg UInt8.toNat heq
    rw [uint8_toNat_ofNat hn] at hnat
    exact hne hnat.symm
  have hc : c.val.toNat ≠ 10 := fun heq => h (Char.ext (UInt32.toNat_inj.mp heq))
  have hv := @valid_lt c
  unfold String.utf8EncodeChar
  generalize c.val.toNat = v at hc hv
  dsimp only
  split_ifs <;> simp only [List.mem_cons, List.not_mem_nil, or_false, not_or]
  · exact hbyte v (by omega) hc
  · exact ⟨hbyte _ (by omega) (by omega), hbyte _ (by omega) (by omega)⟩
  · exact ⟨hbyte _ (by omega) (by omega), hbyte _ (by omega) (by omega),
      hbyte _ (by omega) (by omega)⟩
  · exact ⟨hbyte _ (by omega) (by omega), hbyte _ (by omega) (by omega),
      hbyte _ (by omega) (by omega), hbyte _ (by omega) (by omega)⟩

theorem newline_not_mem_encode (h : '\n' ∉ chars) : newline ∉ encode (String.ofList chars) := by
  rw [encode_ofList, List.mem_flatMap]
  rintro ⟨c, hc, hn⟩
  exact newline_not_mem_encodeChar (fun heq => h (heq ▸ hc)) hn

theorem count_encode (chars : List Char) :
    (encode (String.ofList chars)).count newline = chars.count '\n' := by
  induction chars with
  | nil => rfl
  | cons c rest ih =>
    rw [← List.singleton_append, encode_append, List.count_append, ih, List.count_append]
    congr 1
    by_cases hc : c = '\n'
    · rw [hc, encode_newline]
      rfl
    · have hn : '\n' ∉ [c] := by simpa using Ne.symm hc
      rw [List.count_eq_zero.mpr (newline_not_mem_encode hn), List.count_eq_zero.mpr hn]

/-- The characters of a text that is read leniently are its own. -/
theorem lenientLength_encode (chars : List Char) :
    lenientLength (encode (String.ofList chars)) = chars.length := by
  rw [lenientLength, encode_ofList]
  induction chars with
  | nil => rw [List.flatMap_nil, pieces, List.length_nil, List.length_nil]
  | cons c rest ih =>
    obtain ⟨n, hn⟩ := pieces_encodeChar_append c (rest.flatMap String.utf8EncodeChar)
    rw [List.flatMap_cons, hn, List.length_cons, ih, List.length_cons]

theorem isLine_encode (h : IsLine '\n' before line after) :
    IsLine newline (encode (String.ofList before)) (encode (String.ofList line))
      (encode (String.ofList after)) where
  begins := by
    rcases h.begins with rfl | ⟨others, rfl⟩
    · exact Or.inl rfl
    · exact Or.inr ⟨_, by rw [encode_append, encode_newline]⟩
  ends := by
    rcases h.ends with ⟨others, hn, rfl⟩ | ⟨hn, rfl⟩
    · exact Or.inl ⟨_, newline_not_mem_encode hn, by rw [encode_append, encode_newline]⟩
    · exact Or.inr ⟨newline_not_mem_encode hn, rfl⟩

/-- Inside a character there are as many newlines before an offset as before the character. -/
theorem exists_count_take (chars : List Char) (offset : ℕ) :
    ∃ k ≤ chars.length,
      ((encode (String.ofList chars)).take offset).count newline = (chars.take k).count '\n' := by
  rw [encode_ofList]
  induction chars generalizing offset with
  | nil => exact ⟨0, le_rfl, by simp⟩
  | cons c rest ih =>
    rw [List.flatMap_cons]
    by_cases hlt : offset < (String.utf8EncodeChar c).length
    · refine ⟨0, Nat.zero_le _, List.count_eq_zero.mpr fun hm => ?_⟩
      rw [List.take_append_of_le_length hlt.le] at hm
      by_cases hc : c = '\n'
      · subst hc
        obtain rfl : offset = 0 := Nat.lt_one_iff.mp hlt
        cases hm
      · exact newline_not_mem_encodeChar hc (List.mem_of_mem_take hm)
    · obtain ⟨k, hk, he⟩ := ih (offset - (String.utf8EncodeChar c).length)
      refine ⟨k + 1, Nat.succ_le_succ hk, ?_⟩
      have hc := count_encode [c]
      rw [encode_ofList, List.flatMap_singleton] at hc
      rw [List.take_append, List.take_of_length_le (Nat.le_of_not_lt hlt), List.count_append, he,
        hc, List.take_succ_cons, List.count_singleton, List.count_cons, Nat.add_comm]

end Utf8

namespace Text

variable {before left right after first : List Char}

/-- The index just after the last newline before a place, or zero. -/
def lineBegin (chars : List Char) : (place : ℕ) → ℕ
  | 0 => 0
  | place + 1 => if chars[place]? = some '\n' then place + 1 else lineBegin chars place

/-- The index just after the first newline that is not before a place, or the end. -/
def lineEnd (chars : List Char) (place : ℕ) : ℕ :=
  min (place + (chars.drop place).findIdx (· = '\n') + 1) chars.length

def byteOffset (chars : List Char) (place : ℕ) : ℕ :=
  (String.ofList (chars.take place)).utf8ByteSize

/-- The line of the character at an index, from one. -/
def lineNumber (chars : List Char) (place : ℕ) : ℕ :=
  (chars.take place).count '\n' + 1

/-- The column of the character at an index, from one. -/
def columnNumber (chars : List Char) (place : ℕ) : ℕ :=
  place - lineBegin chars place + 1

theorem byteOffset_append (first more : List Char) :
    byteOffset (first ++ more) first.length = (String.ofList first).utf8ByteSize := by
  rw [byteOffset, List.take_left]

theorem byteOffset_le (chars : List Char) (place : ℕ) :
    byteOffset chars place ≤ (String.ofList chars).utf8ByteSize := by
  conv_rhs => rw [← List.take_append_drop place chars, String.ofList_append,
    String.utf8ByteSize_append]
  exact Nat.le_add_right _ _

theorem lineBegin_eq (hb : before = [] ∨ ∃ others, before = others ++ ['\n']) (hn : '\n' ∉ left)
    (more : List Char) :
    lineBegin (before ++ left ++ more) (before ++ left).length = before.length := by
  induction left using List.reverseRecOn generalizing more with
  | nil =>
    rcases hb with rfl | ⟨others, rfl⟩
    · rfl
    · simp [lineBegin]
  | append_singleton left c ih =>
    obtain ⟨hleft, hc⟩ : '\n' ∉ left ∧ '\n' ≠ c := by simpa using hn
    have hat : (before ++ left ++ c :: more)[(before ++ left).length]? = some c := by simp
    have hlist : before ++ (left ++ [c]) ++ more = before ++ left ++ c :: more := by simp
    have hlength : (before ++ (left ++ [c])).length = (before ++ left).length + 1 := by
      simp [Nat.add_assoc]
    rw [hlist, hlength, lineBegin, hat, if_neg (by simpa using Ne.symm hc), ih hleft]

theorem lineEnd_eq (he : (∃ others, '\n' ∉ others ∧ right = others ++ ['\n']) ∨
      '\n' ∉ right ∧ after = []) :
    lineEnd (first ++ (right ++ after)) first.length = (first ++ right).length := by
  have hidx : ∀ {others : List Char}, '\n' ∉ others → others.findIdx (· = '\n') = others.length :=
    fun hn => List.findIdx_eq_length_of_false fun c hc => by
      simpa using fun heq : c = '\n' => hn (heq ▸ hc)
  rw [lineEnd, List.drop_left]
  rcases he with ⟨others, hn, rfl⟩ | ⟨hn, rfl⟩
  · have hfind : (others ++ ['\n'] ++ after).findIdx (· = '\n') = others.length := by
      rw [List.append_assoc, List.findIdx_append, hidx hn]
      simp [List.findIdx_cons]
    rw [hfind]
    simp
    omega
  · rw [List.append_nil, hidx hn]
    simp

/-- The numbers of a place on a line that is known. -/
theorem numbers_of_isLine (hl : IsLine '\n' before (left ++ right) after) (hn : '\n' ∉ left) :
    let chars := before ++ (left ++ right ++ after)
    let place := (before ++ left).length
    lineNumber chars place = before.count '\n' + 1 ∧ columnNumber chars place = left.length + 1 ∧
      lineBegin chars place = before.length ∧
      lineEnd chars place = (before ++ (left ++ right)).length ∧
      byteOffset chars place = (String.ofList (before ++ left)).utf8ByteSize := by
  intro chars place
  have hchars : chars = before ++ left ++ (right ++ after) := by simp [chars]
  have hbegin : lineBegin chars place = before.length := hchars ▸ lineBegin_eq hl.begins hn _
  refine ⟨?_, ?_, hbegin, ?_, ?_⟩
  · rw [lineNumber, hchars, List.take_left, List.count_append, List.count_eq_zero.mpr hn,
      Nat.add_zero]
  · have hplace : place = before.length + left.length := List.length_append
    rw [columnNumber, hbegin, hplace, Nat.add_sub_cancel_left]
  · rw [hchars, lineEnd_eq (hl.ends_right hn), List.append_assoc]
  · rw [hchars, byteOffset_append]

end Text

end SourceAtlas
