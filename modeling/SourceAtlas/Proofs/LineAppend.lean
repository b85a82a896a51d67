import SourceAtlas.Proofs.LineRanges

/-! # Lines of appended bytes

The scan of appended bytes is that of the first part, followed by that of the second one moved up by
the length of the first. The start at zero is found once only. What is appended moves no line that
starts before it, so that every offset up to the seam stays on its line.
-/

namespace SourceAtlas.LineIndex

variable {first second : Bytes} {line offset : Int}

theorem startsFrom_eq_map (offset : ℕ) (bytes : Bytes) :
    startsFrom offset bytes = (startsFrom 0 bytes).map (offset + ·) := by
  rw [startsFrom_eq, startsFrom_eq, List.map_map]
  refine List.map_congr_left fun i _ => ?_
  simp only [Function.comp_apply]
  omega

/-- No start but the first is zero. -/
theorem filter_startsOf (bytes : Bytes) : (startsOf bytes).filter (· ≠ 0) = startsFrom 0 bytes := by
  have hpos : ∀ start ∈ startsFrom 0 bytes, start ≠ 0 :=
    fun start hs => (bounds_of_mem_startsFrom hs).1.ne'
  simpa [startsOf] using hpos

theorem startsOf_append (first second : Bytes) : startsOf (first ++ second) =
    startsOf first ++ ((startsOf second).filter (· ≠ 0)).map (first.length + ·) := by
  rw [filter_startsOf, startsOf, startsFrom_append, startsFrom_eq_map (0 + first.length),
    Nat.zero_add]
  rfl

theorem lineCount_append (first second : Bytes) :
    (ofBytes (first ++ second)).lineCount + 1 =
      (ofBytes first).lineCount + (ofBytes second).lineCount := by
  simp only [lineCount_ofBytes, List.count_append]
  omega

theorem lineStart_append (h : line < (ofBytes first).lineCount) :
    (ofBytes (first ++ second)).lineStart line = (ofBytes first).lineStart line := by
  rcases Int.lt_or_le line 0 with hneg | hnonneg
  · rw [lineStart, lineStart, if_pos hneg, if_pos hneg]
  · obtain ⟨n, rfl⟩ := Int.eq_ofNat_of_zero_le hnonneg
    have hlt : n < (ofBytes first).lineCount := Int.ofNat_lt.mp h
    have hpos : 1 ≤ (ofBytes second).lineCount := by
      rw [lineCount_ofBytes]
      omega
    have hcount := lineCount_append first second
    rw [lineStart_natCast _ hlt, lineStart_natCast _ (by omega)]
    simp only [ofBytes, List.getElem?_toArray, startsOf_append]
    exact List.getElem?_append_left hlt

theorem lineAt_append (h : offset ≤ first.length) :
    (ofBytes (first ++ second)).lineAt offset = (ofBytes first).lineAt offset := by
  rcases Int.lt_or_le offset 0 with hneg | hnonneg
  · rw [lineAt_of_neg hneg, lineAt_of_neg hneg]
  · rw [lineAt_eq hnonneg, lineAt_eq hnonneg, List.take_append_of_le_length (by omega)]

/-- The starts of appended bytes are those of the first part and, moved up by its length, those of
the second that are not zero; so one line of the two is lost. Every offset up to the seam has its
line in the first part, and the lines of the first part start where they did, whatever is
appended. -/
theorem lines_of_append (first second : Bytes) :
    let index := ofBytes first
    let other := ofBytes second
    let joined := ofBytes (first ++ second)
    joined.starts.toList =
      index.starts.toList ++ (other.starts.toList.filter (· ≠ 0)).map (first.length + ·) ∧
    joined.lineCount + 1 = index.lineCount + other.lineCount ∧
    (∀ offset : Int, offset ≤ first.length → joined.lineAt offset = index.lineAt offset) ∧
    ∀ line : Int, line < index.lineCount → joined.lineStart line = index.lineStart line :=
  ⟨startsOf_append first second, lineCount_append first second, fun _ => lineAt_append,
    fun _ => lineStart_append⟩

/-- Newlines on both sides of the seam, which is where the last line of the first part begins. -/
theorem lines_of_newlineSeam :
    let index := ofBytes [0x61, 0x0A]
    let joined := ofBytes ([0x61, 0x0A] ++ [0x0A, 0x62])
    joined.starts.toList = [0, 2] ++ [1].map (2 + ·) ∧ joined.lineAt 2 = index.lineAt 2 ∧
      joined.lineStart 1 = index.lineStart 1 := by
  obtain ⟨hstarts, -, hline, hstart⟩ := lines_of_append [0x61, 0x0A] [0x0A, 0x62]
  exact ⟨hstarts.trans (by decide +kernel), hline 2 (by decide), hstart 1 (by decide +kernel)⟩

end SourceAtlas.LineIndex
