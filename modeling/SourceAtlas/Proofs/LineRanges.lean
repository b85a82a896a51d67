import SourceAtlas.Proofs.LineLookup
import SourceAtlas.Proofs.Text.Utf8

/-! # Ranges of lines

The ranges of the lines cut the bytes after every newline and nowhere else. A line starts at or
before an offset exactly if it is not behind the line of the offset, so that an offset in the bytes
is in the range of its own line only.
-/

namespace SourceAtlas

/-- Whether a line ends with a newline and has no other. -/
def IsEnded {α : Type} (newline : α) (line : List α) : Prop :=
  ∃ others, newline ∉ others ∧ line = others ++ [newline]

/-- Whether a list is cut after every newline and nowhere else. What is behind the last newline is a
line too, be it empty. -/
structure IsCut {α : Type} (newline : α) (items : List α) (ended : List (List α))
    (last : List α) : Prop where
  flatten : (ended ++ [last]).flatten = items
  ended : ∀ line ∈ ended, IsEnded newline line
  last : newline ∉ last

section Cut

variable {α β : Type} {newline : α} {items last : List α} {ended : List (List α)}

theorem IsEnded.cons {item : α} {line : List α} (h : IsEnded newline line) (hi : item ≠ newline) :
    IsEnded newline (item :: line) := by
  obtain ⟨others, hn, rfl⟩ := h
  exact ⟨item :: others, by simpa [hn] using Ne.symm hi, rfl⟩

theorem begins_flatten (h : ∀ line ∈ ended, IsEnded newline line) :
    ended.flatten = [] ∨ ∃ others, ended.flatten = others ++ [newline] := by
  rcases List.eq_nil_or_concat ended with rfl | ⟨more, line, rfl⟩
  · exact Or.inl rfl
  · obtain ⟨others, -, rfl⟩ := h line (by simp)
    exact Or.inr ⟨more.flatten ++ others, by simp⟩

variable [DecidableEq α]

theorem exists_isCut (newline : α) (items : List α) :
    ∃ ended last, IsCut newline items ended last := by
  induction items with
  | nil => exact ⟨[], [], rfl, nofun, List.not_mem_nil⟩
  | cons item rest ih =>
    obtain ⟨ended, last, rfl, hended, hlast⟩ := ih
    by_cases hi : item = newline
    · exact ⟨[item] :: ended, last, rfl,
        List.forall_mem_cons.mpr ⟨⟨[], List.not_mem_nil, by rw [hi]; rfl⟩, hended⟩, hlast⟩
    · cases ended with
      | nil => exact ⟨[], item :: last, rfl, nofun, by simpa [hlast] using Ne.symm hi⟩
      | cons first more =>
        obtain ⟨hfirst, hmore⟩ := List.forall_mem_cons.mp hended
        exact ⟨(item :: first) :: more, last, rfl,
          List.forall_mem_cons.mpr ⟨hfirst.cons hi, hmore⟩, hlast⟩

theorem count_flatten (h : ∀ line ∈ ended, IsEnded newline line) :
    ended.flatten.count newline = ended.length := by
  induction ended with
  | nil => rfl
  | cons line more ih =>
    obtain ⟨⟨others, hn, rfl⟩, hmore⟩ := List.forall_mem_cons.mp h
    rw [List.flatten_cons, List.count_append, List.count_append, List.count_eq_zero.mpr hn,
      List.count_singleton_self, ih hmore, List.length_cons, Nat.zero_add, Nat.add_comm]

namespace IsCut

variable (h : IsCut newline items ended last)
include h

theorem length_eq : (ended ++ [last]).length = items.count newline + 1 := by
  rw [← h.flatten, List.flatten_append, List.flatten_singleton, List.count_append,
    count_flatten h.ended, List.count_eq_zero.mpr h.last, List.length_append]
  rfl

/-- Where a list is cut there are lines of it, with as many newlines before each as lines. -/
theorem exists_isLine {n : ℕ} (hn : n < (ended ++ [last]).length) :
    ∃ before after, items = before ++ ((ended ++ [last])[n] ++ after) ∧ before.count newline = n ∧
      IsLine newline before (ended ++ [last])[n] after := by
  rcases Nat.lt_or_ge n ended.length with hlt | hge
  · have htake : ∀ line ∈ ended.take n, IsEnded newline line :=
      fun line hl => h.ended line (List.mem_of_mem_take hl)
    have hflatten : (ended.take n).flatten ++ (ended[n] ++ (ended.drop (n + 1)).flatten) =
        ended.flatten := by
      rw [← List.flatten_cons, ← List.flatten_append, ← List.drop_eq_getElem_cons hlt,
        List.take_append_drop]
    rw [List.getElem_append_left hlt]
    refine ⟨(ended.take n).flatten, (ended.drop (n + 1)).flatten ++ last, ?_, ?_,
      begins_flatten htake, Or.inl (h.ended _ (List.getElem_mem hlt))⟩
    · rw [← h.flatten, List.flatten_append, List.flatten_singleton, ← hflatten, List.append_assoc,
        List.append_assoc]
    · rw [count_flatten htake, List.length_take, min_eq_left hlt.le]
  · obtain rfl : n = ended.length := by
      rw [List.length_append, List.length_singleton] at hn
      omega
    rw [List.getElem_concat_length rfl]
    exact ⟨ended.flatten, [], by simpa using h.flatten.symm, count_flatten h.ended,
      begins_flatten h.ended, Or.inr ⟨h.last, rfl⟩⟩

/-- What can be said of every line can be said of all lines in their order. -/
theorem map_range {f : ℕ → β} {g : List α → β}
    (hf : ∀ before line after, items = before ++ (line ++ after) →
      IsLine newline before line after → f (before.count newline) = g line) :
    (List.range (items.count newline + 1)).map f = (ended ++ [last]).map g := by
  refine List.ext_getElem (by simp [← h.length_eq]) fun n hn hn' => ?_
  rw [List.length_map] at hn'
  obtain ⟨before, after, hitems, rfl, hline⟩ := h.exists_isLine hn'
  rw [List.getElem_map, List.getElem_map, List.getElem_range]
  exact hf _ _ _ hitems hline

end IsCut

theorem exists_isLine_of_lt {n : ℕ} (hn : n < items.count newline + 1) :
    ∃ before line after, items = before ++ (line ++ after) ∧ before.count newline = n ∧
      IsLine newline before line after := by
  obtain ⟨ended, last, hcut⟩ := exists_isCut newline items
  obtain ⟨before, after, hline⟩ := hcut.exists_isLine (hcut.length_eq.symm ▸ hn)
  exact ⟨before, _, after, hline⟩

end Cut

theorem Bytes.slice_natCast (bytes : Bytes) (start stop : ℕ) :
    bytes.slice start stop = (bytes.take stop).drop start := by
  have hstart : ¬((start : Int) < 0) := by omega
  have hstop : ¬((stop : Int) < 0) := by omega
  rw [slice]
  dsimp only
  rw [if_neg hstart, if_neg hstop, Int.toNat_natCast, Int.toNat_natCast]

theorem Bytes.slice_append (first middle last : Bytes) :
    (first ++ (middle ++ last)).slice first.length (first ++ middle).length = middle := by
  rw [slice_natCast, ← List.append_assoc, List.take_left, List.drop_left]

namespace LineIndex

variable {bytes : Bytes} {start : ℕ} {line offset : Int}

/-! ## Starts -/

theorem pairwise_startsOf (bytes : Bytes) : (startsOf bytes).Pairwise (· < ·) := by
  refine List.pairwise_cons.mpr ⟨fun start hs => (bounds_of_mem_startsFrom hs).1, ?_⟩
  rw [startsFrom_eq]
  exact (List.pairwise_lt_range.filter _).map _ fun i j hij => by omega

theorem mem_startsOf_iff :
    start ∈ startsOf bytes ↔ start = 0 ∨ ∃ i, bytes[i]? = some newline ∧ start = i + 1 := by
  rw [startsOf, startsFrom_eq, List.mem_cons, List.mem_map]
  refine or_congr_right (exists_congr fun i => ?_)
  rw [List.mem_filter, List.mem_range, decide_eq_true_iff, Nat.zero_add, eq_comm (a := start)]
  exact and_congr_left fun _ => and_iff_right_of_imp fun hi =>
    (List.getElem?_eq_some_iff.mp hi).1

/-! ## The lines that there are -/

section Index

variable (index : LineIndex)

theorem lineStart_lineCount : index.lineStart index.lineCount = some index.length := by
  rw [lineStart, if_neg (by omega), Int.toNat_natCast, if_neg (Nat.lt_irrefl _), if_pos rfl]

theorem isSome_lineStart_iff (line : Int) :
    (index.lineStart line).isSome ↔ 0 ≤ line ∧ line ≤ index.lineCount := by
  unfold lineStart
  split_ifs with hneg hlt heq
  · exact iff_of_false nofun (by omega)
  · rw [Array.getElem?_eq_getElem hlt]
    exact iff_of_true rfl (by omega)
  · exact iff_of_true rfl (by omega)
  · exact iff_of_false nofun (by omega)

theorem isSome_lineRange_iff (line : Int) :
    (index.lineRange line).isSome ↔ 0 ≤ line ∧ line < index.lineCount := by
  have hboth : (index.lineRange line).isSome ↔
      (index.lineStart line).isSome ∧ (index.lineStart (line + 1)).isSome := by
    unfold lineRange
    cases index.lineStart line <;> cases index.lineStart (line + 1) <;> simp
  rw [hboth, isSome_lineStart_iff, isSome_lineStart_iff]
  omega

end Index

/-- The starts are strictly ascending, and they are zero and what follows a newline. There are lines
from zero up to their number, and their ranges cut the bytes after every newline and nowhere else. A
line starts there and, one past the last, at the end. A text is indexed as its bytes are. -/
theorem ranges_of_bytes (bytes : Bytes) :
    let index := ofBytes bytes
    (index.starts.toList.Pairwise (· < ·) ∧
      ∀ start, start ∈ index.starts ↔ start = 0 ∨ ∃ i, bytes[i]? = some 0x0A ∧ start = i + 1) ∧
    (∀ line : Int, (index.lineRange line).isSome ↔ 0 ≤ line ∧ line < index.lineCount) ∧
    (∃ ended last, IsCut 0x0A bytes ended last ∧
      (List.range index.lineCount).map (fun n : ℕ =>
          (index.lineRange n).map fun range => bytes.slice range.start range.stop) =
        (ended ++ [last]).map some) ∧
    (∀ line : Int, (index.lineStart line).isSome ↔ 0 ≤ line ∧ line ≤ index.lineCount) ∧
    index.lineStart index.lineCount = some bytes.length ∧
    ∀ text : String,
      ofText text = ofBytes text.toUTF8.data.toList ∧
        startsOf (Utf8.encode text) = (ofBytes text.toUTF8.data.toList).starts.toList := by
  intro index
  refine ⟨⟨pairwise_startsOf bytes, fun start => ?_⟩, index.isSome_lineRange_iff, ?_,
    index.isSome_lineStart_iff, index.lineStart_lineCount, fun text => ?_⟩
  · rw [Array.mem_def]
    exact mem_startsOf_iff
  · obtain ⟨ended, last, hcut⟩ := exists_isCut newline bytes
    refine ⟨ended, last, hcut, ?_⟩
    rw [lineCount_ofBytes]
    refine hcut.map_range fun before line after hb hl => ?_
    subst hb
    rw [lineRange_of_isLine hl, Option.map_some, Bytes.slice_append]
  · have hbytes : text.toUTF8.data.toList = Utf8.encode text := by
      rw [← Utf8.toByteArray_encode, List.data_toByteArray, List.toList_toArray]
    rw [hbytes]
    exact ⟨rfl, rfl⟩

example : (ofBytes [0x0A, 0x61, 0xC3, 0x0A]).starts = #[0, 1, 4] := by decide +kernel

/-! ## Lines of offsets -/

theorem lineStart_le_iff {n : ℕ} (hn : n < (ofBytes bytes).lineCount)
    (hs : (ofBytes bytes).lineStart n = some start) :
    (start : Int) ≤ offset ↔ n ≤ (ofBytes bytes).lineAt offset := by
  rw [lineStart_natCast _ hn] at hs
  obtain ⟨hi, rfl⟩ := Array.getElem?_eq_some_iff.mp hs
  rcases Int.lt_or_le offset 0 with hneg | hnonneg
  · rw [lineAt_of_neg hneg]
    exact iff_of_false (by omega) (by omega)
  · rw [lineAt_eq hnonneg, Nat.cast_le, ← start_le_iff hi]
    omega

theorem lineAt_lt_lineCount (bytes : Bytes) (offset : Int) :
    (ofBytes bytes).lineAt offset < (ofBytes bytes).lineCount := by
  rcases Int.lt_or_le offset 0 with hneg | hnonneg
  · rw [lineAt_of_neg hneg]
    omega
  · rw [lineAt_eq hnonneg, lineCount_ofBytes, Nat.cast_lt]
    exact Nat.lt_succ_of_le ((List.take_sublist _ _).count_le _)

theorem lineAt_eq_neg_one_iff : (ofBytes bytes).lineAt offset = -1 ↔ offset < 0 := by
  refine ⟨fun h => ?_, lineAt_of_neg⟩
  by_contra hnonneg
  rw [lineAt_eq (Int.not_lt.mp hnonneg)] at h
  omega

theorem lineAt_of_length_le (h : (bytes.length : Int) ≤ offset) :
    (ofBytes bytes).lineAt offset = (ofBytes bytes).lineCount - 1 := by
  rw [lineAt_eq (by omega), List.take_of_length_le (by omega), lineCount_ofBytes]
  omega

theorem neg_one_le_lineAt (index : LineIndex) (offset : Int) : -1 ≤ index.lineAt offset := by
  rw [lineAt]
  omega

theorem lineAt_mono (bytes : Bytes) : Monotone (ofBytes bytes).lineAt := by
  intro offset other h
  rcases Int.lt_or_le offset 0 with hneg | hnonneg
  · rw [lineAt_of_neg hneg]
    exact neg_one_le_lineAt _ _
  · rw [lineAt_eq hnonneg, lineAt_eq (hnonneg.trans h), Nat.cast_le]
    exact (List.take_sublist_take_left (Int.toNat_le_toNat h)).count_le _

/-- A line ends behind an offset in the bytes exactly if the line of the offset is not behind it. -/
theorem lt_lineStart_succ_iff {n stop : ℕ} (hn : n < (ofBytes bytes).lineCount)
    (ht : (ofBytes bytes).lineStart (n + 1) = some stop) (ho : offset < bytes.length) :
    offset < stop ↔ (ofBytes bytes).lineAt offset ≤ n := by
  rcases Nat.lt_or_ge (n + 1) (ofBytes bytes).lineCount with hlt | hge
  · rw [← not_le, lineStart_le_iff hlt (by exact_mod_cast ht)]
    omega
  · have hlast : ((n : Int) + 1) = (ofBytes bytes).lineCount := by omega
    rw [hlast, lineStart_lineCount] at ht
    obtain rfl := Option.some.inj ht
    have hline := lineAt_lt_lineCount bytes offset
    exact iff_of_true ho (by omega)

theorem mem_lineRange_iff {range : Range} (hr : (ofBytes bytes).lineRange line = some range)
    (ho : offset < bytes.length) :
    (range.start ≤ offset ∧ offset < range.stop) ↔ line = (ofBytes bytes).lineAt offset := by
  obtain ⟨hnonneg, hlt⟩ := ((ofBytes bytes).isSome_lineRange_iff line).mp (hr ▸ rfl)
  obtain ⟨n, rfl⟩ := Int.eq_ofNat_of_zero_le hnonneg
  obtain ⟨hs, ht⟩ := (lineRange_eq_some_iff _).mp hr
  rw [lineStart_le_iff (by omega) hs, lt_lineStart_succ_iff (by omega) ht ho]
  exact le_antisymm_iff.symm

/-- A line starts at or before an offset exactly if it is not behind the line of the offset. So that
line is -1 before the bytes, the last one past them, and in them the only line whose range has the
offset; and it never goes back while the offset goes on. -/
theorem lineAt_of_offset (bytes : Bytes) (offset : Int) :
    let index := ofBytes bytes
    (∀ line : Int, 0 ≤ line → line < index.lineCount →
      ∃ start, index.lineStart line = some start ∧
        ((start : Int) ≤ offset ↔ line ≤ index.lineAt offset)) ∧
    (index.lineAt offset = -1 ↔ offset < 0) ∧
    (0 ≤ offset → offset < bytes.length → ∀ line, line = index.lineAt offset ↔
      ∃ range, index.lineRange line = some range ∧ range.start ≤ offset ∧ offset < range.stop) ∧
    (bytes.length ≤ offset → index.lineAt offset = index.lineCount - 1) ∧
    ∀ other, offset ≤ other → index.lineAt offset ≤ index.lineAt other := by
  intro index
  refine ⟨fun line hnonneg hlt => ?_, lineAt_eq_neg_one_iff, fun hnonneg ho line => ?_,
    lineAt_of_length_le, fun other h => lineAt_mono bytes h⟩
  · obtain ⟨start, hs⟩ := Option.isSome_iff_exists.mp
      ((index.isSome_lineStart_iff line).mpr ⟨hnonneg, hlt.le⟩)
    obtain ⟨n, rfl⟩ := Int.eq_ofNat_of_zero_le hnonneg
    exact ⟨start, hs, lineStart_le_iff (Int.ofNat_lt.mp hlt) hs⟩
  · constructor
    · rintro rfl
      have hline : 0 ≤ index.lineAt offset := by
        rw [lineAt_eq hnonneg]
        omega
      obtain ⟨range, hr⟩ := Option.isSome_iff_exists.mp
        ((index.isSome_lineRange_iff _).mpr ⟨hline, lineAt_lt_lineCount bytes offset⟩)
      exact ⟨range, hr, (mem_lineRange_iff hr ho).mpr rfl⟩
    · rintro ⟨range, hr, hrange⟩
      exact (mem_lineRange_iff hr ho).mp hrange

theorem lineAt_of_emptyLine :
    let index := ofBytes [0x61, 0x0A, 0x0A, 0x62]
    (∃ start, index.lineStart 2 = some start ∧ ((start : Int) ≤ 2 ↔ 2 ≤ index.lineAt 2)) ∧
      (∃ range, index.lineRange 1 = some range ∧ range.start ≤ 2 ∧ 2 < range.stop) ∧
      index.lineAt 4 = index.lineCount - 1 ∧ index.lineAt 2 ≤ index.lineAt 4 := by
  intro index
  have hline : 1 = index.lineAt 2 := by decide +kernel
  obtain ⟨hstart, -, hrange, -, hmono⟩ := lineAt_of_offset [0x61, 0x0A, 0x0A, 0x62] 2
  obtain ⟨-, -, -, hend, -⟩ := lineAt_of_offset [0x61, 0x0A, 0x0A, 0x62] 4
  have hlast := hstart 2 (by decide) (by decide +kernel)
  have hsecond := (hrange (by decide) (by decide) 1).mp hline
  exact ⟨hlast, by exact_mod_cast hsecond, hend (by decide), hmono 4 (by decide)⟩

end LineIndex

end SourceAtlas
