import SourceAtlas.Proofs.LineTexts
import SourceAtlas.Proofs.Text.Lenient

/-! # Columns

A column counts the characters that begin between two offsets. Inside a character it is that of the
offset just after the character, so it never goes back, and characters that begin at different
offsets have different columns.
-/

namespace SourceAtlas

open Utf8 (Continues)

namespace Text

variable {chars : List Char} {start stop : ℕ}

theorem byteOffset_eq (chars : List Char) (place : ℕ) :
    byteOffset chars place = ((chars.take place).flatMap String.utf8EncodeChar).length := by
  rw [byteOffset, ← Utf8.length_encode, Utf8.encode_ofList]

theorem byteOffset_cons (c : Char) (rest : List Char) (place : ℕ) :
    byteOffset (c :: rest) (place + 1) =
      (String.utf8EncodeChar c).length + byteOffset rest place := by
  rw [byteOffset_eq, byteOffset_eq, List.take_succ_cons, List.flatMap_cons, List.length_append]

theorem byteOffset_mono (chars : List Char) : Monotone (byteOffset chars) := by
  intro place other h
  obtain ⟨more, hm⟩ := List.take_prefix_take_left (l := chars) h
  rw [byteOffset_eq, byteOffset_eq, ← hm, List.flatMap_append, List.length_append]
  exact Nat.le_add_right _ _

/-- The number of the characters that begin at an offset or behind it, and before another. -/
def begun (chars : List Char) (start stop : ℕ) : ℕ :=
  (List.range chars.length).countP fun place =>
    start ≤ byteOffset chars place ∧ byteOffset chars place < stop

/-- No character begins inside another. -/
theorem begun_of_inside {inside : ℕ} (hb : byteOffset chars inside < stop)
    (he : stop ≤ byteOffset chars (inside + 1)) :
    begun chars start stop = begun chars start (byteOffset chars (inside + 1)) := by
  refine List.countP_congr fun place _ => ?_
  rw [decide_eq_true_iff, decide_eq_true_iff]
  refine and_congr_right fun _ => ⟨fun hp => hp.trans_le he, fun hp => ?_⟩
  have hle : place ≤ inside :=
    Nat.le_of_lt_succ ((byteOffset_mono chars).reflect_lt hp)
  exact (byteOffset_mono chars hle).trans_lt hb

theorem begun_add (h : start ≤ stop) :
    begun chars 0 stop = begun chars 0 start + begun chars start stop := by
  unfold begun
  rw [List.countP_eq_countP_filter_add _ _ fun place => decide (byteOffset chars place < start),
    List.countP_filter, List.countP_filter]
  congr 1
  · refine List.countP_congr fun place _ => ?_
    simp only [Bool.and_eq_true, decide_eq_true_iff]
    omega
  · refine List.countP_congr fun place _ => ?_
    simp only [Bool.and_eq_true, Bool.not_eq_true', decide_eq_true_iff, decide_eq_false_iff_not]
    omega

theorem begun_cons (c : Char) (rest : List Char) (stop : ℕ) :
    begun (c :: rest) 0 stop =
      (if 0 < stop then 1 else 0) + begun rest 0 (stop - (String.utf8EncodeChar c).length) := by
  have hzero : byteOffset (c :: rest) 0 = 0 := rfl
  unfold begun
  rw [List.length_cons, List.range_succ_eq_map, List.countP_cons, List.countP_map, Nat.add_comm,
    hzero]
  congr 1
  · simp
  · refine List.countP_congr fun place _ => ?_
    simp only [Function.comp_apply, byteOffset_cons, decide_eq_true_iff]
    omega

/-- Before an offset as many characters begin as there are bytes that begin one. -/
theorem countP_take_encode (chars : List Char) (stop : ℕ) :
    ((chars.flatMap String.utf8EncodeChar).take stop).countP (fun s => ¬Continues s) =
      begun chars 0 stop := by
  induction chars generalizing stop with
  | nil => rw [List.flatMap_nil, List.take_nil]; rfl
  | cons c rest ih =>
    rw [List.flatMap_cons, List.take_append, List.countP_append, Utf8.countP_take_encodeChar, ih,
      begun_cons]

theorem countP_part (chars : List Char) (h : start ≤ stop) :
    (((chars.flatMap String.utf8EncodeChar).take stop).drop start).countP
      (fun s => ¬Continues s) = begun chars start stop := by
  have hsplit := List.take_append_drop start ((chars.flatMap String.utf8EncodeChar).take stop)
  have hcount := congrArg (List.countP fun s => ¬Continues s) hsplit
  rw [List.countP_append, List.take_take, min_eq_left h, countP_take_encode, countP_take_encode,
    begun_add h] at hcount
  exact Nat.add_left_cancel hcount

end Text

namespace SourceFile

variable {file : SourceFile} {text : String} {start stop : ℕ}

open Text (byteOffset begun)

/-- A column from anywhere counts the bytes with which characters begin, and those before them. -/
theorem column_encode (text : String) (start stop : ℕ) :
    let part := (Utf8.encode text).slice start stop
    column (Utf8.encode text) start stop =
      (part.countP fun s => ¬Continues s) + (part.takeWhile fun s => Continues s).length + 1 := by
  intro part
  have hpart : part = ((Utf8.encode text).take stop).drop start := Bytes.slice_natCast _ _ _
  rw [column, Bytes.slice_natCast, hpart]
  exact congrArg (· + 1) (Utf8.lenientLength_part text.toList start stop)

theorem column_mono (text : String) (start : ℕ) :
    Monotone fun stop : ℕ => column (Utf8.encode text) start stop := by
  intro stop other h
  obtain ⟨more, hm⟩ :
      (Utf8.encode text).slice start stop <+: (Utf8.encode text).slice start other := by
    rw [Bytes.slice_natCast, Bytes.slice_natCast, List.drop_take, List.drop_take]
    exact List.take_prefix_take_left (Nat.sub_le_sub_right h _)
  dsimp only
  rw [column_encode, column_encode, ← hm, List.countP_append, List.takeWhile_append]
  split
  · next hall =>
    rw [List.length_append, hall]
    omega
  · omega

section Snapshot

variable (h : file.snapshot = .of text)
include h

theorem column_byteOffset (place : ℕ) (hs : byteOffset text.toList place ≤ stop) :
    column file.bytes (byteOffset text.toList place) stop =
      begun text.toList (byteOffset text.toList place) stop + 1 := by
  have hdrop : (text.toList.flatMap String.utf8EncodeChar).drop (byteOffset text.toList place) =
      (text.toList.drop place).flatMap String.utf8EncodeChar := by
    have hsplit := congrArg (List.flatMap String.utf8EncodeChar)
      (List.take_append_drop place text.toList)
    rw [← hsplit, List.flatMap_append, Text.byteOffset_eq, List.drop_left]
  rw [bytes_of_snapshot h, column_encode, Bytes.slice_natCast, Utf8.encode,
    Text.countP_part _ hs, List.drop_take, hdrop, Utf8.takeWhile_take_encode]
  rfl

theorem column_places {place other : ℕ} (hp : place ≤ other) (ho : other ≤ text.toList.length) :
    column file.bytes (byteOffset text.toList place) (byteOffset text.toList other) =
      other - place + 1 := by
  obtain ⟨chars, rfl⟩ := text.exists_eq_ofList
  rw [String.toList_ofList] at ho ⊢
  have htake : chars.take other = chars.take place ++ (chars.take other).drop place := by
    conv_lhs => rw [← List.take_append_drop place (chars.take other), List.take_take,
      min_eq_left hp]
  have hchars :
      chars = chars.take place ++ ((chars.take other).drop place ++ chars.drop other) := by
    rw [← List.append_assoc, ← htake, List.take_append_drop]
  have hcolumn := column_of_left (hchars ▸ h)
  rw [← htake, List.length_drop, List.length_take, min_eq_left ho] at hcolumn
  exact hcolumn

/-- Lines start where characters do, or at the end. -/
theorem exists_place_of_lineStart {line : Int} (hs : file.lineStart line = some start) :
    ∃ place ≤ text.toList.length, start = byteOffset text.toList place := by
  rw [lineStart] at hs
  obtain ⟨hnonneg, hle⟩ := (file.lines.isSome_lineStart_iff line).mp (hs ▸ rfl)
  obtain ⟨n, rfl⟩ := Int.eq_ofNat_of_zero_le hnonneg
  rcases Nat.lt_or_ge n file.lines.lineCount with hlt | hge
  · rw [lineCount_of_snapshot h] at hlt
    obtain ⟨before, line, after, hitems, rfl, hline⟩ := exists_isLine_of_lt hlt
    have hbytes : Utf8.encode text =
        Utf8.encode (String.ofList before) ++ Utf8.encode (String.ofList (line ++ after)) := by
      rw [← Utf8.encode_append, ← hitems, String.ofList_toList]
    rw [lines_of_snapshot h, hbytes, ← Utf8.count_encode,
      LineIndex.lineStart_of_begins _ (Utf8.isLine_encode hline).begins, Utf8.length_encode] at hs
    refine ⟨before.length, by rw [hitems, List.length_append]; exact Nat.le_add_right _ _, ?_⟩
    rw [hitems, Text.byteOffset_append]
    exact (Option.some.inj hs).symm
  · obtain rfl : n = file.lines.lineCount := by omega
    rw [LineIndex.lineStart_lineCount, length_lines_of_snapshot h] at hs
    refine ⟨text.toList.length, le_rfl, ?_⟩
    rw [byteOffset, List.take_length, String.ofList_toList]
    exact (Option.some.inj hs).symm

end Snapshot

/-- A column counts, from any offset on, the bytes with which characters begin and those before the
first of them, so it never goes back. Lines start where characters do or at the end, and from there
it counts the characters that begin: inside a character it is that of the offset just after it, and
different characters have different columns. -/
theorem column_of_offsets (h : file.snapshot = .of text) :
    let bytes := file.bytes
    let chars := text.toList
    (∀ start stop : ℕ, start ≤ stop → stop ≤ bytes.length →
      let part := bytes.slice start stop
      column bytes start stop =
        (part.countP fun s => ¬Continues s) + (part.takeWhile fun s => Continues s).length + 1) ∧
    (∀ start stop other : ℕ, start ≤ stop → stop ≤ other → other ≤ bytes.length →
      column bytes start stop ≤ column bytes start other) ∧
    (∀ line start, file.lineStart line = some start →
      ∃ place ≤ chars.length, start = byteOffset chars place) ∧
    ∀ place ≤ chars.length,
      let start := byteOffset chars place
      (∀ stop : ℕ, start ≤ stop → stop ≤ bytes.length →
        column bytes start stop = begun chars start stop + 1) ∧
      (∀ inside < chars.length, ∀ stop : ℕ, start ≤ stop → byteOffset chars inside < stop →
        stop < byteOffset chars (inside + 1) →
          column bytes start stop = column bytes start (byteOffset chars (inside + 1))) ∧
      ∀ first second : ℕ, place ≤ first → first ≤ chars.length → place ≤ second →
        second ≤ chars.length →
          column bytes start (byteOffset chars first) =
            column bytes start (byteOffset chars second) → first = second := by
  intro bytes chars
  have hbytes : bytes = Utf8.encode text := bytes_of_snapshot h
  refine ⟨fun start stop _ _ => ?_, fun start stop other _ hle _ => ?_,
    fun line start hs => exists_place_of_lineStart h hs, fun place hplace => ⟨fun stop hs _ => ?_,
      fun inside _ stop hs hb he => ?_, fun first second hp hf hp' hs heq => ?_⟩⟩
  · rw [hbytes]
    exact column_encode text start stop
  · rw [hbytes]
    exact column_mono text start hle
  · exact column_byteOffset h place hs
  · have hnext := hs.trans he.le
    rw [column_byteOffset h place hs, column_byteOffset h place hnext,
      Text.begun_of_inside hb he.le]
  · rw [column_places h hp hf, column_places h hp' hs] at heq
    omega

/-- From inside a character of two bytes to inside one of four, and on the line of the latter. -/
theorem column_of_brokenCharacters :
    let text := "é\n😀b"
    let bytes := (make text "" none 0 .script).bytes
    column bytes 1 5 = 4 ∧ column bytes 1 5 ≤ column bytes 1 7 ∧
      (∃ place ≤ text.toList.length, 3 = byteOffset text.toList place) ∧
      column bytes 3 5 = begun text.toList 3 5 + 1 ∧ column bytes 3 5 = column bytes 3 7 ∧
      column bytes 3 7 ≠ column bytes 3 8 := by
  intro text bytes
  have hthree : byteOffset text.toList 2 = 3 := by decide +kernel
  have hseven : byteOffset text.toList 3 = 7 := by decide +kernel
  have height : byteOffset text.toList 4 = 8 := by decide +kernel
  obtain ⟨hpart, hmono, hstart, hplace⟩ :=
    column_of_offsets (rfl : (make text "" none 0 .script).snapshot = .of text)
  obtain ⟨hbegun, hinside, hinjective⟩ := hplace 2 (by decide)
  rw [hthree] at hbegun hinside hinjective
  have hnext := hinside 2 (by decide) 5 (by decide) (by rw [hthree]; decide)
    (by rw [hseven]; decide)
  have hother := hinjective 3 4 (by decide) (by decide) (by decide) (by decide)
  rw [hseven] at hnext hother
  rw [height] at hother
  refine ⟨(hpart 1 5 (by decide) (by decide)).trans (by decide +kernel),
    hmono 1 5 7 (by decide) (by decide) (by decide), hstart 1 3 (by decide +kernel),
    hbegun 5 (by decide) (by decide), hnext, fun heq => absurd (hother heq) (by decide)⟩

end SourceFile

end SourceAtlas
