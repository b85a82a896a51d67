import SourceAtlas.Proofs.LineStarts

/-! # Lines and offsets

The binary search counts the starts up to an offset, and these are one more than the newlines before
it. So the line of an offset is the number of newlines before it, and the range of a line is what
lies between the newlines on either side, the later one included.
-/

namespace SourceAtlas

/-- Whether a part of a list is a line of it: it begins where the list does or after a newline, and
ends with its first newline or where the list does. -/
structure IsLine {α : Type} (newline : α) (before line after : List α) : Prop where
  begins : before = [] ∨ ∃ others, before = others ++ [newline]
  ends : (∃ others, newline ∉ others ∧ line = others ++ [newline]) ∨ newline ∉ line ∧ after = []

/-- What is left of a line after a part without newlines ends as the line does. -/
theorem IsLine.ends_right {α : Type} {newline : α} {before left right after : List α}
    (h : IsLine newline before (left ++ right) after) (hn : newline ∉ left) :
    (∃ others, newline ∉ others ∧ right = others ++ [newline]) ∨ newline ∉ right ∧ after = [] := by
  refine h.ends.imp ?_ fun ⟨hnot, ha⟩ => ⟨fun hm => hnot (List.mem_append_right _ hm), ha⟩
  rintro ⟨others, hnot, he⟩
  rcases List.eq_nil_or_concat right with rfl | ⟨rest, last, rfl⟩
  · rw [List.append_nil] at he
    exact absurd (he ▸ List.mem_append_right _ (List.mem_singleton_self _)) hn
  · rw [List.concat_eq_append, ← List.append_assoc] at he
    obtain ⟨rfl, hlast⟩ := List.append_inj' he rfl
    obtain rfl := List.singleton_inj.mp hlast
    exact ⟨rest, fun hm => hnot (List.mem_append_right _ hm), List.concat_eq_append⟩

section Split

variable {α : Type} [DecidableEq α] (newline : α)

theorem exists_begins (first : List α) :
    ∃ before left, first = before ++ left ∧ newline ∉ left ∧
      (before = [] ∨ ∃ others, before = others ++ [newline]) := by
  induction first using List.reverseRecOn with
  | nil => exact ⟨[], [], rfl, List.not_mem_nil, Or.inl rfl⟩
  | append_singleton others item ih =>
    by_cases hi : item = newline
    · subst hi
      exact ⟨others ++ [item], [], (List.append_nil _).symm, List.not_mem_nil,
        Or.inr ⟨others, rfl⟩⟩
    · obtain ⟨before, left, rfl, hn, hb⟩ := ih
      refine ⟨before, left ++ [item], List.append_assoc _ _ _, ?_, hb⟩
      simpa [hn] using Ne.symm hi

theorem exists_ends (second : List α) :
    ∃ right after, second = right ++ after ∧
      ((∃ others, newline ∉ others ∧ right = others ++ [newline]) ∨
        newline ∉ right ∧ after = []) := by
  induction second with
  | nil => exact ⟨[], [], rfl, Or.inr ⟨List.not_mem_nil, rfl⟩⟩
  | cons item rest ih =>
    by_cases hi : item = newline
    · subst hi
      exact ⟨[item], rest, rfl, Or.inl ⟨[], List.not_mem_nil, rfl⟩⟩
    · obtain ⟨right, after, rfl, he⟩ := ih
      refine ⟨item :: right, after, rfl, he.imp ?_ ?_⟩
      · rintro ⟨others, hn, rfl⟩
        exact ⟨item :: others, by simpa [hn] using Ne.symm hi, rfl⟩
      · rintro ⟨hn, rfl⟩
        exact ⟨by simpa [hn] using Ne.symm hi, rfl⟩

/-- Every place in a list is on a line. -/
theorem exists_isLine_at {items : List α} {place : ℕ} (h : place ≤ items.length) :
    ∃ before left right after, items = before ++ (left ++ right ++ after) ∧
      place = (before ++ left).length ∧ newline ∉ left ∧
      IsLine newline before (left ++ right) after := by
  obtain ⟨before, left, hfirst, hn, hb⟩ := exists_begins newline (items.take place)
  obtain ⟨right, after, hsecond, he⟩ := exists_ends newline (items.drop place)
  refine ⟨before, left, right, after, ?_, ?_, hn, hb, he.imp ?_ ?_⟩
  · rw [← List.take_append_drop place items, hfirst, hsecond]
    simp
  · rw [← hfirst, List.length_take, min_eq_left h]
  · rintro ⟨others, hothers, rfl⟩
    exact ⟨left ++ others, by simp [hn, hothers], (List.append_assoc _ _ _).symm⟩
  · rintro ⟨hright, rfl⟩
    exact ⟨by simp [hn, hright], rfl⟩

end Split

namespace LineIndex

variable {bytes before line after : Bytes} {offset : Int}

/-! ## The search -/

/-- The search finds where the starts pass an offset, wherever that is. -/
theorem countUpTo_eq {starts : Array ℕ} {low high count : ℕ} (bound : high ≤ starts.size)
    (hl : low ≤ count) (hh : count ≤ high)
    (hle : ∀ (i : ℕ) (hi : i < starts.size), i < count → (starts[i] : Int) ≤ offset)
    (hgt : ∀ (i : ℕ) (hi : i < starts.size), count ≤ i → offset < starts[i]) :
    countUpTo starts offset low high bound = count := by
  fun_induction countUpTo starts offset low high bound with
  | case1 low high bound below hlt ih =>
    refine ih hl ?_
    by_contra hc
    exact absurd (hle ((low + high) / 2) (by omega) (by omega)) (not_le.mpr hlt)
  | case2 low high bound below hge ih =>
    refine ih ?_ hh
    by_contra hc
    exact hge (hgt ((low + high) / 2) (by omega) (by omega))
  | case3 low high bound hnot => omega

theorem length_startsFrom (offset : ℕ) (bytes : Bytes) :
    (startsFrom offset bytes).length = bytes.count newline := by
  induction bytes generalizing offset with
  | nil => simp
  | cons b rest ih =>
    rw [startsFrom_cons, List.length_append, ih, List.count_cons]
    by_cases hb : b = newline <;> simp [hb, Nat.add_comm]

theorem bounds_of_mem_startsFrom {start offset : ℕ} (h : start ∈ startsFrom offset bytes) :
    offset < start ∧ start ≤ offset + bytes.length := by
  rw [startsFrom_eq] at h
  obtain ⟨i, hi, rfl⟩ := List.mem_map.mp h
  have hi := List.mem_range.mp (List.mem_filter.mp hi).1
  omega

theorem lineCount_ofBytes (bytes : Bytes) :
    (ofBytes bytes).lineCount = bytes.count newline + 1 := by
  rw [lineCount, ofBytes, List.size_toArray, startsOf, List.length_cons, length_startsFrom]

/-- Before the first line there is only what has a negative offset. -/
theorem lineAt_of_neg (h : offset < 0) : (ofBytes bytes).lineAt offset = -1 := by
  rw [lineAt, countUpTo_eq _ (Nat.le_refl 0) (Nat.zero_le _) nofun (by omega)]
  rfl

/-- A line starts at or before a place exactly if as many newlines as lines before it, or more, are
before the place. -/
theorem start_le_iff {i place : ℕ} (hi : i < (ofBytes bytes).starts.size) :
    (ofBytes bytes).starts[i] ≤ place ↔ i ≤ (bytes.take place).count newline := by
  -- The starts split where the bytes do.
  have hstarts : startsOf bytes = (0 :: startsFrom 0 (bytes.take place)) ++
      startsFrom (bytes.take place).length (bytes.drop place) := by
    conv_lhs => rw [← List.take_append_drop place bytes]
    rw [startsOf, startsFrom_append, Nat.zero_add, List.cons_append]
  have hlength : (0 :: startsFrom 0 (bytes.take place)).length =
      (bytes.take place).count newline + 1 := by
    rw [List.length_cons, length_startsFrom]
  rcases Nat.lt_or_ge i ((bytes.take place).count newline + 1) with hlt | hge
  · refine iff_of_true ?_ (Nat.le_of_lt_succ hlt)
    have hmem : (ofBytes bytes).starts[i] ∈ 0 :: startsFrom 0 (bytes.take place) := by
      simp only [ofBytes, List.getElem_toArray, hstarts]
      rw [List.getElem_append_left (hlength ▸ hlt)]
      exact List.getElem_mem _
    rcases List.mem_cons.mp hmem with hz | hm
    · exact hz ▸ Nat.zero_le _
    · exact (bounds_of_mem_startsFrom hm).2.trans (by simp)
  · refine iff_of_false ?_ (Nat.not_le_of_gt hge)
    have hmem : (ofBytes bytes).starts[i] ∈
        startsFrom (bytes.take place).length (bytes.drop place) := by
      simp only [ofBytes, List.getElem_toArray, hstarts]
      rw [List.getElem_append_right (hlength ▸ hge)]
      exact List.getElem_mem _
    have hlt := (bounds_of_mem_startsFrom hmem).1
    have hne : bytes.drop place ≠ [] := by
      intro hnil
      rw [hnil, startsFrom_nil] at hmem
      cases hmem
    have hshort := List.length_lt_of_drop_ne_nil hne
    rw [List.length_take] at hlt
    omega

/-- The line of an offset is the number of newlines before it. -/
theorem lineAt_eq (h : 0 ≤ offset) :
    (ofBytes bytes).lineAt offset = (bytes.take offset.toNat).count newline := by
  have hcount : countUpTo (ofBytes bytes).starts offset 0 (ofBytes bytes).starts.size
      (Nat.le_refl _) = (bytes.take offset.toNat).count newline + 1 := by
    refine countUpTo_eq _ (Nat.zero_le _) ?_ (fun i hi hlt => ?_) (fun i hi hle => ?_)
    · rw [← lineCount, lineCount_ofBytes]
      exact Nat.succ_le_succ ((List.take_sublist _ _).count_le _)
    · have hle := (start_le_iff hi).mpr (Nat.le_of_lt_succ hlt)
      omega
    · have hlt := mt (start_le_iff hi).mp (Nat.not_le_of_gt hle)
      omega
  rw [lineAt, hcount, Nat.cast_add, Nat.cast_one, add_sub_cancel_right]

/-! ## Ranges -/

theorem lineStart_natCast (index : LineIndex) {n : ℕ} (h : n < index.lineCount) :
    index.lineStart n = index.starts[n]? := by
  rw [lineStart, if_neg (by omega), Int.toNat_natCast, if_pos h]

theorem exists_lineStart (h : 0 ≤ offset) :
    ∃ start, (ofBytes bytes).lineStart ((ofBytes bytes).lineAt offset) = some start := by
  have hlt : (bytes.take offset.toNat).count newline < (ofBytes bytes).lineCount := by
    rw [lineCount_ofBytes]
    exact Nat.lt_succ_of_le ((List.take_sublist _ _).count_le _)
  rw [lineAt_eq h, lineStart_natCast _ hlt]
  exact ⟨_, Array.getElem?_eq_getElem hlt⟩

/-- The number of a line that begins somewhere is that of the newlines before it. -/
theorem lineStart_of_begins (more : Bytes)
    (h : before = [] ∨ ∃ others, before = others ++ [newline]) :
    (ofBytes (before ++ more)).lineStart (before.count newline) = some before.length := by
  have hlt : before.count newline < (ofBytes (before ++ more)).lineCount := by
    rw [lineCount_ofBytes, List.count_append]
    omega
  rw [lineStart_natCast _ hlt]
  rcases h with rfl | ⟨others, rfl⟩
  · simp [ofBytes, startsOf]
  · have hstarts : startsOf (others ++ [newline] ++ more) =
        (0 :: startsFrom 0 others) ++ (others ++ [newline]).length ::
          startsFrom (others ++ [newline]).length more := by
      simp [startsOf, startsFrom_append, startsFrom_cons]
    have hcount : (others ++ [newline]).count newline = (0 :: startsFrom 0 others).length := by
      rw [List.count_append, List.length_cons, length_startsFrom, List.count_singleton_self]
    rw [ofBytes, hstarts, hcount, List.getElem?_toArray, List.getElem?_append_right (Nat.le_refl _),
      Nat.sub_self]
    rfl

theorem lineRange_eq_some_iff (index : LineIndex) {number : Int} {range : Range} :
    index.lineRange number = some range ↔
      index.lineStart number = some range.start ∧
        index.lineStart (number + 1) = some range.stop := by
  unfold lineRange
  constructor
  · intro h
    split at h
    · next start stop hs ht =>
      obtain rfl := Option.some.inj h
      exact ⟨hs, ht⟩
    · cases h
  · rintro ⟨hs, ht⟩
    rw [hs, ht]

theorem lineRange_of_isLine (h : IsLine newline before line after) :
    (ofBytes (before ++ (line ++ after))).lineRange (before.count newline) =
      some ⟨before.length, (before ++ line).length⟩ := by
  have hstop : (ofBytes (before ++ (line ++ after))).lineStart (before.count newline + 1) =
      some (before ++ line).length := by
    rcases h.ends with ⟨others, hn, rfl⟩ | ⟨hn, rfl⟩
    · have hc : (before ++ (others ++ [newline])).count newline = before.count newline + 1 := by
        rw [List.count_append, List.count_append, List.count_eq_zero.mpr hn,
          List.count_singleton_self]
      have hs := lineStart_of_begins after
        (Or.inr ⟨before ++ others, (List.append_assoc _ _ _).symm⟩ :
          before ++ (others ++ [newline]) = [] ∨ _)
      rw [hc, List.append_assoc before] at hs
      exact_mod_cast hs
    · have hc : (ofBytes (before ++ (line ++ []))).lineCount = before.count newline + 1 := by
        rw [lineCount_ofBytes, List.append_nil, List.count_append, List.count_eq_zero.mpr hn]
      rw [lineStart, if_neg (by omega), if_neg (by omega), if_pos (by omega), List.append_nil]
      rfl
  exact (lineRange_eq_some_iff _).mpr ⟨lineStart_of_begins _ h.begins, hstop⟩

end LineIndex

end SourceAtlas
