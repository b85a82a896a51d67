import SourceAtlas.Text.Items
import SourceAtlas.Proofs.Text.Trimming

/-! # Items of a text

The items of a text are what its pieces between commas leave when they are trimmed. A text that
lists items with blanks around them, and with empty pieces anywhere, has just these items. A comma
between two texts parts their items, so that a list of items is read back from its join.
-/

namespace SourceAtlas.Text

/-! ## Pieces -/

section Pieces

variable {α : Type*} [DecidableEq α] {separator a : α} {text : List α}

/-- What stands in the pieces of a text is all of it but its separators. -/
theorem exists_mem_splitOn_iff :
    (∃ piece ∈ text.splitOn separator, a ∈ piece) ↔ a ∈ text ∧ a ≠ separator := by
  induction text with
  | nil => simp
  | cons b rest ih =>
    rw [List.splitOn_cons_eq_if_modifyHead]
    split_ifs with hb
    · obtain rfl := eq_of_beq hb
      rw [List.exists_mem_cons_iff, ih, List.mem_cons]
      simp only [List.not_mem_nil, false_or]
      exact ⟨fun h => ⟨Or.inr h.1, h.2⟩, fun h => ⟨h.1.resolve_left h.2, h.2⟩⟩
    · have hne : b ≠ separator := fun h => hb (beq_iff_eq.mpr h)
      obtain ⟨first, more, hs⟩ := List.exists_cons_of_ne_nil (rest.splitOn_ne_nil separator)
      rw [hs, List.exists_mem_cons_iff] at ih
      rw [hs, List.modifyHead_cons, List.exists_mem_cons_iff, List.mem_cons, or_assoc, ih,
        List.mem_cons]
      constructor
      · rintro (rfl | h)
        · exact ⟨Or.inl rfl, hne⟩
        · exact ⟨Or.inr h.1, h.2⟩
      · rintro ⟨rfl | h, hs⟩
        · exact Or.inl rfl
        · exact Or.inr ⟨h, hs⟩

end Pieces

/-! ## Items -/

variable {raw name : String} {names : List String} {text padded item : List Char}
  {pieces : List (List Char)}

/-- Whether a text can be an item: it is not empty, and has no comma and no blank at its ends. -/
structure IsItem (item : List Char) : Prop where
  ne_nil : item ≠ []
  comma : ',' ∉ item
  trimmed : IsTrimmed isBlank item

instance : DecidablePred IsItem := fun item =>
  decidable_of_iff (item ≠ [] ∧ ',' ∉ item ∧ IsTrimmed isBlank item)
    ⟨fun ⟨hn, hc, ht⟩ => ⟨hn, hc, ht⟩, fun ⟨hn, hc, ht⟩ => ⟨hn, hc, ht⟩⟩

theorem isItem_of_mem_itemsOf (h : item ∈ itemsOf text) : IsItem item := by
  simp only [itemsOf, List.mem_filter, List.mem_map] at h
  obtain ⟨⟨piece, hp, rfl⟩, hne⟩ := h
  constructor
  case ne_nil => simpa using hne
  case comma =>
    intro hc
    have hmem : ',' ∈ piece := (trim_sublist isBlank piece).subset hc
    exact (exists_mem_splitOn_iff.mp ⟨piece, hp, hmem⟩).2 rfl
  case trimmed => exact isTrimmed_trim isBlank piece

/-- A comma parts the items before it from those after it. -/
theorem itemsOf_append (first second : List Char) :
    itemsOf (first ++ ',' :: second) = itemsOf first ++ itemsOf second := by
  simp [itemsOf, List.splitOn_append_cons_self]

theorem itemsOf_intercalate (h : ∀ piece ∈ pieces, ',' ∉ piece) :
    itemsOf ([','].intercalate pieces) = (pieces.map (trim isBlank)).filter (!·.isEmpty) := by
  rcases eq_or_ne pieces [] with rfl | hne
  · rfl
  · rw [itemsOf, List.splitOn_intercalate ',' h hne]

theorem itemsOf_eq_nil_iff : itemsOf text = [] ↔ ∀ c ∈ text, c = ',' ∨ isBlank c := by
  have hpieces : itemsOf text = [] ↔ ∀ piece ∈ text.splitOn ',', ∀ c ∈ piece, isBlank c := by
    simp only [← @trim_eq_nil_iff isBlank, itemsOf, List.filter_eq_nil_iff,
      List.forall_mem_map, Bool.not_eq_true', Bool.not_eq_false, List.isEmpty_iff]
  rw [hpieces]
  constructor
  · intro h c hc
    by_cases hcomma : c = ','
    · exact Or.inl hcomma
    · obtain ⟨piece, hp, hcp⟩ := exists_mem_splitOn_iff.mpr ⟨hc, hcomma⟩
      exact Or.inr (h piece hp c hcp)
  · intro h piece hp c hc
    obtain ⟨hmem, hcomma⟩ := exists_mem_splitOn_iff.mp ⟨piece, hp, hc⟩
    exact (h c hmem).resolve_left hcomma

def IsVacant (raw : String) : Prop :=
  ∀ c ∈ raw.toList, c = ',' ∨ isBlank c

theorem items_eq_nil_iff : items raw = [] ↔ IsVacant raw := by
  rw [items, List.map_eq_nil_iff, itemsOf_eq_nil_iff, IsVacant]

/-! ## Written items -/

/-- Whether a text is another one with blanks around it. -/
def IsPadded (text padded : List Char) : Prop :=
  ∃ before after, (∀ c ∈ before, isBlank c) ∧ (∀ c ∈ after, isBlank c) ∧
    padded = before ++ text ++ after

/-- Whether a text lists items: there are commas between its pieces, each of which is blank or a
form of an item with blanks around it, and every item has a piece. -/
def Lists (forms : String → List String) (items : List String) (raw : String) : Prop :=
  ∃ pieces : List (List Char), raw.toList = [','].intercalate pieces ∧
    (∀ piece ∈ pieces, (∀ c ∈ piece, isBlank c) ∨
      ∃ item ∈ items, ∃ form ∈ forms item, IsPadded form.toList piece) ∧
    ∀ item ∈ items, ∃ piece ∈ pieces, ∃ form ∈ forms item, IsPadded form.toList piece

theorem isPadded_trim (text : List Char) : IsPadded (trim isBlank text) text := by
  refine ⟨text.takeWhile isBlank, (text.dropWhile isBlank).rtakeWhile isBlank,
    fun _ => List.mem_takeWhile_imp, fun _ => List.mem_rtakeWhile_imp, ?_⟩
  rw [trim_eq_rdropWhile, List.append_assoc, List.rdropWhile_append_rtakeWhile,
    List.takeWhile_append_dropWhile]

theorem lists_of_trim {forms : String → List String} (pieces : List (List Char))
    (hraw : raw.toList = [','].intercalate pieces)
    (hpieces : ∀ piece ∈ pieces, trim isBlank piece = [] ∨
      ∃ name ∈ names, ∃ form ∈ forms name, trim isBlank piece = form.toList)
    (hnames : ∀ name ∈ names, ∃ piece ∈ pieces, ∃ form ∈ forms name,
      trim isBlank piece = form.toList) : Lists forms names raw := by
  refine ⟨pieces, hraw, fun piece hp => ?_, fun name hn => ?_⟩
  · rcases hpieces piece hp with hb | ⟨name, hn, form, hf, ht⟩
    · exact Or.inl (trim_eq_nil_iff.mp hb)
    · exact Or.inr ⟨name, hn, form, hf, ht ▸ isPadded_trim piece⟩
  · obtain ⟨piece, hp, form, hf, ht⟩ := hnames name hn
    exact ⟨piece, hp, form, hf, ht ▸ isPadded_trim piece⟩

theorem IsPadded.trim_eq (h : IsPadded text padded) : trim isBlank padded = trim isBlank text := by
  obtain ⟨before, after, hb, ha, rfl⟩ := h
  exact trim_append hb ha

theorem IsPadded.mem {c : Char} (h : IsPadded text padded) (hc : c ∈ padded) :
    c ∈ text ∨ isBlank c := by
  obtain ⟨before, after, hb, ha, rfl⟩ := h
  rw [List.mem_append, List.mem_append] at hc
  rcases hc with (hc | hc) | hc
  · exact Or.inr (hb c hc)
  · exact Or.inl hc
  · exact Or.inr (ha c hc)

theorem IsPadded.trim_eq_item (h : IsPadded item padded) (hitem : IsItem item) :
    trim isBlank padded = item := by
  rw [h.trim_eq, trim_eq_self_iff.mpr hitem.trimmed]

theorem IsPadded.comma_not_mem (h : IsPadded item padded) (hitem : IsItem item) :
    ',' ∉ padded := by
  intro hc
  rcases h.mem hc with hc | hb
  · exact hitem.comma hc
  · exact absurd hb (by decide)

/-- The items of a text that lists some are forms of these, at least one of each. -/
theorem Lists.mem_map_iff {forms : String → List String} {read : String → String}
    (h : Lists forms names raw)
    (hitem : ∀ item ∈ names, ∀ form ∈ forms item, IsItem form.toList)
    (hread : ∀ item ∈ names, ∀ form ∈ forms item, read form = item) :
    name ∈ (items raw).map read ↔ name ∈ names := by
  obtain ⟨pieces, hraw, hpieces, hall⟩ := h
  have hcomma : ∀ piece ∈ pieces, ',' ∉ piece := by
    intro piece hp hc
    rcases hpieces piece hp with hb | ⟨item, hi, form, hf, hpad⟩
    · exact absurd (hb _ hc) (by decide)
    · exact hpad.comma_not_mem (hitem item hi form hf) hc
  have hitems : items raw =
      ((pieces.map (trim isBlank)).filter (!·.isEmpty)).map String.ofList := by
    rw [items, hraw, itemsOf_intercalate hcomma]
  simp only [hitems, List.mem_map, List.mem_filter, Bool.not_eq_true', List.isEmpty_eq_false_iff]
  constructor
  · rintro ⟨_, ⟨_, ⟨⟨piece, hp, rfl⟩, hne⟩, rfl⟩, rfl⟩
    rcases hpieces piece hp with hb | ⟨item, hi, form, hf, hpad⟩
    · exact absurd (trim_eq_nil_iff.mpr hb) hne
    · rwa [hpad.trim_eq_item (hitem item hi form hf), String.ofList_toList, hread item hi form hf]
  · intro hn
    obtain ⟨piece, hp, form, hf, hpad⟩ := hall name hn
    have ht := hpad.trim_eq_item (hitem name hn form hf)
    refine ⟨form, ⟨form.toList, ⟨⟨piece, hp, ht⟩, ?_⟩, String.ofList_toList⟩, hread name hn form hf⟩
    exact (hitem name hn form hf).ne_nil

/-! ## Joined items -/

theorem isItem_of_mem_items (h : name ∈ items raw) : IsItem name.toList := by
  obtain ⟨item, hi, rfl⟩ := List.mem_map.mp h
  simpa using isItem_of_mem_itemsOf hi

theorem items_append (first second : String) :
    items (first ++ "," ++ second) = items first ++ items second := by
  have hchars : (first ++ "," ++ second).toList = first.toList ++ ',' :: second.toList := by simp
  simp only [items, hchars, itemsOf_append, List.map_append]

theorem items_of_isPadded (hitem : IsItem name.toList) (h : IsPadded name.toList raw.toList) :
    items raw = [name] := by
  have hcomma : ',' ∉ raw.toList := h.comma_not_mem hitem
  have htrim : trim isBlank raw.toList = name.toList := h.trim_eq_item hitem
  simp [items, itemsOf, List.splitOn_eq_singleton hcomma, htrim, hitem.ne_nil]

theorem items_intercalate (h : ∀ name ∈ names, IsItem name.toList) :
    items (",".intercalate names) = names := by
  induction names with
  | nil => rfl
  | cons name rest ih =>
    obtain ⟨hname, hrest⟩ := List.forall_mem_cons.mp h
    have hself : items name = [name] := items_of_isPadded hname
      ⟨[], [], List.forall_mem_nil _, List.forall_mem_nil _, (List.append_nil _).symm⟩
    rcases eq_or_ne rest [] with rfl | hne
    · simpa using hself
    · rw [String.intercalate_cons_of_ne_nil hne, items_append, hself, ih hrest,
        List.singleton_append]

/-- What a text is split into are items, and their join is split into them again, as is the join of
any list of items. A comma parts the items before it from those after it. A text without a comma
gives nothing if it is blank, and else the item that it is with blanks around it. -/
theorem items_of_joins :
    (∀ raw : String, (∀ item ∈ items raw, IsItem item.toList) ∧
      items (",".intercalate (items raw)) = items raw) ∧
    (∀ names : List String, (∀ item ∈ names, IsItem item.toList) →
      items (",".intercalate names) = names) ∧
    (∀ first second : String,
      items (first ++ "," ++ second) = items first ++ items second) ∧
    ∀ raw : String, ((∀ c ∈ raw.toList, isBlank c) → items raw = []) ∧
      ∀ item : String, IsItem item.toList → IsPadded item.toList raw.toList →
        items raw = [item] := by
  refine ⟨fun raw => ⟨?items, ?again⟩, ?joined, items_append, fun raw => ⟨?blank, ?lone⟩⟩
  case items => exact fun item => isItem_of_mem_items
  case again => exact items_intercalate fun item => isItem_of_mem_items
  case joined => exact fun names => items_intercalate
  case blank => exact fun hb => items_eq_nil_iff.mpr fun c hc => Or.inr (hb c hc)
  case lone => exact fun item => items_of_isPadded

/-- Blank and empty pieces at both ends and in a row, and blanks of more than one kind. -/
theorem items_of_raggedText :
    let ragged := " ,a b\u00A0,,\u3000c\u2003\x1C,\t"
    (IsItem "a b".toList ∧ items (",".intercalate (items ragged)) = ["a b", "c"]) ∧
      items "a b,c" = ["a b", "c"] ∧
      items (ragged ++ "," ++ ragged) = ["a b", "c", "a b", "c"] ∧
      items "\u3000\u2003" = [] ∧ items "\u3000c\u2003\x1C" = ["c"] := by
  intro ragged
  obtain ⟨hitems, hjoined, happend, hpiece⟩ := items_of_joins
  have hragged : items ragged = ["a b", "c"] := by decide
  have hnames : ∀ item ∈ ["a b", "c"], IsItem item.toList := by decide
  have hpadded : IsPadded "c".toList "\u3000c\u2003\x1C".toList := isPadded_trim _
  refine ⟨⟨?item, ?again⟩, hjoined _ hnames, ?parted, ?blank, ?lone⟩
  case item => exact (hitems ragged).1 "a b" (hragged ▸ by decide)
  case again => exact (hitems ragged).2.trans hragged
  case parted => rw [happend, hragged, List.cons_append, List.singleton_append]
  case blank => exact (hpiece _).1 (trim_eq_nil_iff.mp (by decide))
  case lone => exact (hpiece _).2 "c" (by decide) hpadded

end SourceAtlas.Text
