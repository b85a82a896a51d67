import Mathlib
import SourceAtlas.Console.Markup
import SourceAtlas.Proofs.Console.Codes

/-! # Texts that show themselves

Where markup is read, a text without tags in which no backslash precedes an opening bracket stands
for itself, but for its short codes. Of the texts without colons no other does: whatever is a tag, or
makes one to be text, is not seen.
-/

namespace SourceAtlas.Markup

open Console (Codes)

variable {codes : Codes} {slash : Bool} {position slashes : ℕ} {chars rest content after pending : List Char}
  {opened : List OpenTag} {marked : Marked} {text : String}

/-- Whether no opening bracket begins a tag or follows a backslash; `slash` tells whether a
backslash precedes the text. -/
def isLiteral (slash : Bool) : List Char → Bool
  | [] => true
  | c :: rest =>
    if c = '[' then !slash && (tag? rest).isNone && isLiteral false rest
    else isLiteral (c = '\\') rest

def Literal (text : String) : Prop :=
  isLiteral false text.toList

instance (text : String) : Decidable (Literal text) :=
  inferInstanceAs (Decidable (_ = true))

theorem isLiteral_bracket_iff :
    isLiteral slash ('[' :: rest) ↔ ¬slash ∧ tag? rest = none ∧ isLiteral false rest := by
  simp [isLiteral, and_assoc]

@[simp] theorem isLiteral_slash : isLiteral slash ('\\' :: rest) = isLiteral true rest := rfl

theorem isLiteral_cons {c : Char} (hb : c ≠ '[') (hs : c ≠ '\\') :
    isLiteral slash (c :: rest) = isLiteral false rest := by
  rw [isLiteral, if_neg hb, decide_eq_false hs]

def Bare (chars : List Char) : Prop :=
  ∀ c ∈ chars, c ≠ '[' ∧ c ≠ '\\' ∧ c ≠ ']'

instance (chars : List Char) : Decidable (Bare chars) :=
  decidable_of_iff (chars.all fun c => c ≠ '[' && c ≠ '\\' && c ≠ ']') (by simp [Bare, and_assoc])

theorem bare_append_iff : Bare (chars ++ rest) ↔ Bare chars ∧ Bare rest :=
  List.forall_mem_append

/-- A bare text makes no difference to what comes after it. -/
theorem isLiteral_bare_append (h : Bare chars) :
    isLiteral false (chars ++ rest) = isLiteral false rest := by
  induction chars with
  | nil => rfl
  | cons c chars ih =>
    obtain ⟨⟨hb, hs, -⟩, hrest⟩ := List.forall_mem_cons.mp h
    rw [List.cons_append, isLiteral_cons hb hs]
    exact ih hrest

theorem isLiteral_of_bare (h : Bare chars) : isLiteral slash chars := by
  cases chars with
  | nil => rfl
  | cons c chars =>
    obtain ⟨⟨hb, hs, -⟩, hrest⟩ := List.forall_mem_cons.mp h
    rw [isLiteral_cons hb hs, ← List.append_nil chars, isLiteral_bare_append hrest]
    rfl

/-! ## Tags that are not closed -/

def endsNoTag (chars : List Char) : Prop :=
  (chars.dropWhile fun c => c ≠ ']' && c ≠ '[').head? ≠ some ']'

theorem tag?_eq_none_iff {c : Char} :
    tag? (c :: rest) = none ↔ (beginsTag c → endsNoTag rest) := by
  by_cases hb : beginsTag c
  · simp only [tag?, hb, if_true, forall_const, endsNoTag]
    rcases rest.dropWhile fun c => c ≠ ']' && c ≠ '[' with _ | ⟨d, tail⟩
    · simp
    · by_cases hd : d = ']'
      · simp [hd]
      · simp [hd]
  · simp [tag?, hb]

theorem tag?_eq_none_of_endsNoTag (h : endsNoTag chars) : tag? chars = none := by
  cases chars with
  | nil => rfl
  | cons c rest =>
    refine tag?_eq_none_iff.mpr fun hb => ?_
    have hne : c ≠ ']' ∧ c ≠ '[' := by
      constructor <;> rintro rfl <;> revert hb <;> decide
    rwa [endsNoTag, List.dropWhile_cons_of_pos (by simp [hne])] at h

theorem endsNoTag_of_bare (h : Bare chars) : endsNoTag chars := by
  intro hh
  have hm := List.mem_of_mem_head? hh
  exact (h ']' ((List.dropWhile_sublist _).subset hm)).2.2 rfl

theorem endsNoTag_append (h : endsNoTag chars) (hr : endsNoTag rest) : endsNoTag (chars ++ rest) := by
  unfold endsNoTag at h hr ⊢
  rw [List.dropWhile_append]
  split_ifs with he
  · exact hr
  · rwa [List.head?_append_of_ne_nil _ (by simpa using he)]

theorem tag?_append (h : tag? chars = none) (hr : endsNoTag rest) : tag? (chars ++ rest) = none := by
  cases chars with
  | nil => exact tag?_eq_none_of_endsNoTag hr
  | cons c chars =>
    exact tag?_eq_none_iff.mpr fun hb => endsNoTag_append (tag?_eq_none_iff.mp h hb) hr

/-- A literal text stays one with a bare text after it. -/
theorem isLiteral_append_bare (h : isLiteral slash chars) (hr : Bare rest) :
    isLiteral slash (chars ++ rest) := by
  induction chars generalizing slash with
  | nil => exact isLiteral_of_bare hr
  | cons c chars ih =>
    rw [List.cons_append]
    by_cases hb : c = '['
    · subst hb
      obtain ⟨hs, ht, hl⟩ := isLiteral_bracket_iff.mp h
      exact isLiteral_bracket_iff.mpr ⟨hs, tag?_append ht (endsNoTag_of_bare hr), ih hl⟩
    · rw [isLiteral, if_neg hb] at h ⊢
      exact ih h

/-! ## Tokens -/

theorem tokens_slash : tokens position slashes pending ('\\' :: rest) =
    tokens (position + 1) (slashes + 1) pending rest := by
  rw [tokens]

theorem tokens_bracket (h : tag? rest = none) :
    tokens position slashes pending ('[' :: rest) =
      tokens (position + 1) 0 ('[' :: List.replicate slashes '\\' ++ pending) rest := by
  rw [tokens]
  split
  · next heq => simp [h] at heq
  · rfl

theorem tokens_tag (h : tag? rest = some (content, after)) :
    tokens position slashes pending ('[' :: rest) =
      .text pending.reverse :: slashed (position - slashes) slashes content ++
        tokens (position + content.length + 2) 0 [] after := by
  rw [tokens]
  split
  · next heq =>
    obtain ⟨rfl, rfl⟩ := Prod.mk.inj (Option.some.inj (h.symm.trans heq))
    rfl
  · next heq => simp [h] at heq

theorem tokens_cons {c : Char} (hb : c ≠ '[') (hs : c ≠ '\\') :
    tokens position slashes pending (c :: rest) =
      tokens (position + 1) 0 (c :: List.replicate slashes '\\' ++ pending) rest := by
  rw [tokens]
  · exact fun h => hs h
  · exact fun h => hb h

/-- What is read of a literal text is kept, whatever follows it. -/
theorem exists_tokens_append (position slashes : ℕ) (pending : List Char)
    (h : isLiteral (0 < slashes) chars) (hr : endsNoTag rest) :
    ∃ slashes' pending',
      pending'.reverse ++ List.replicate slashes' '\\' =
        pending.reverse ++ List.replicate slashes '\\' ++ chars ∧
      tokens position slashes pending (chars ++ rest) =
        tokens (position + chars.length) slashes' pending' rest := by
  induction chars generalizing position slashes pending with
  | nil => exact ⟨slashes, pending, by simp, rfl⟩
  | cons c chars ih =>
    have hp : position + (c :: chars).length = position + 1 + chars.length := by
      rw [List.length_cons]
      omega
    rw [List.cons_append, hp]
    by_cases hb : c = '['
    · subst hb
      -- The bracket begins no tag, and none with what follows either, and no backslash is pending.
      obtain ⟨hs, ht, hl⟩ := isLiteral_bracket_iff.mp h
      rw [tokens_bracket (tag?_append ht hr)]
      obtain ⟨slashes', pending', heq, htokens⟩ := ih (position + 1) 0
        ('[' :: List.replicate slashes '\\' ++ pending) hl
      exact ⟨slashes', pending', by simpa using heq, htokens⟩
    by_cases hs : c = '\\'
    · subst hs
      rw [tokens_slash]
      obtain ⟨slashes', pending', heq, htokens⟩ := ih (position + 1) (slashes + 1) pending
        (by simpa using h)
      exact ⟨slashes', pending', by simpa [List.replicate_succ'] using heq, htokens⟩
    · rw [tokens_cons hb hs]
      rw [isLiteral_cons hb hs] at h
      obtain ⟨slashes', pending', heq, htokens⟩ := ih (position + 1) 0
        (c :: List.replicate slashes '\\' ++ pending) h
      exact ⟨slashes', pending', by simpa using heq, htokens⟩

theorem tokens_of_literal (h : isLiteral false chars) :
    tokens position 0 [] chars = [.text chars] := by
  have hr : endsNoTag [] := by simp [endsNoTag]
  obtain ⟨slashes, pending, heq, htokens⟩ := exists_tokens_append position 0 [] h hr
  rw [List.append_nil] at htokens
  rw [htokens, tokens, heq]
  rfl

/-- A literal text that does not end in a backslash is one token before a tag. -/
theorem tokens_append_tag (h : isLiteral false chars) (hlast : chars.getLast? ≠ some '\\')
    (ht : tag? rest = some (content, after)) :
    tokens position 0 [] (chars ++ '[' :: rest) =
      [.text chars, .text [], .tag (position + chars.length) content] ++
        tokens (position + chars.length + content.length + 2) 0 [] after := by
  have hr : endsNoTag ('[' :: rest) := by simp [endsNoTag]
  obtain ⟨slashes, pending, heq, htokens⟩ := exists_tokens_append position 0 [] h hr
  simp only [List.reverse_nil, List.replicate_zero, List.nil_append] at heq
  obtain rfl : slashes = 0 := by
    cases slashes with
    | zero => rfl
    | succ slashes =>
      rw [List.replicate_succ', ← List.append_assoc] at heq
      rw [← heq, List.getLast?_concat] at hlast
      exact absurd rfl hlast
  rw [List.replicate_zero, List.append_nil] at heq
  rw [htokens, tokens_tag ht, heq]
  rfl

/-! ## What literal texts stand for -/

theorem unescape_of_literal (h : isLiteral slash chars) : unescape chars = chars := by
  induction chars generalizing slash with
  | nil => rfl
  | cons c rest ih =>
    by_cases hb : c = '['
    · subst hb
      rw [unescape, ih (isLiteral_bracket_iff.mp h).2.2]
      nofun
    · rw [isLiteral, if_neg hb] at h
      rw [unescape, ih h]
      rintro tail rfl rfl
      exact (isLiteral_bracket_iff.mp h).1 rfl

theorem read_of_literal (h : Literal text) :
    read codes text = .ok ⟨[codes.replace text.toList], []⟩ := by
  rw [read, tokens_of_literal h, plain, unescape_of_literal h, plain]
  simp [Except.map, Marked.prepend]

theorem render_of_literal (h : Literal text) : render codes text = .ok (codes.shownFor text) := by
  rw [render, read_of_literal h]
  simp [Except.bind, Except.map, Marked.shown, pure, Except.pure, Codes.shownFor]

/-- A literal text without colons stands for itself. -/
theorem render_of_plain (h : Literal text) (hc : ':' ∉ text.toList) :
    render codes text = .ok text := by
  rw [render_of_literal h, Codes.shownFor_of_not_mem hc]

/-! ## What other texts stand for -/

theorem unescape_append_slash (chars rest : List Char) :
    unescape (chars ++ '\\' :: rest) = unescape chars ++ unescape ('\\' :: rest) := by
  fun_induction unescape chars with
  | case1 chars ih => rw [List.cons_append, List.cons_append, unescape, ih, List.cons_append]
  | case2 c chars hne ih =>
    rw [List.cons_append, unescape, ih, List.cons_append]
    intro tail hc htail
    cases chars with
    | nil => simp at htail
    | cons d chars => exact hne chars hc (by rw [(List.cons.inj htail).1])
  | case3 => rfl

theorem length_unescape_cons_le (c : Char) (chars : List Char) :
    (unescape (c :: chars)).length ≤ (unescape chars).length + 1 := by
  conv_lhs => rw [unescape.eq_def]
  split
  · next rest heq =>
    obtain ⟨-, rfl⟩ := List.cons.inj heq
    rw [unescape, List.length_cons]
    · omega
    · nofun
  · next heq =>
    cases heq
    exact Nat.le_refl _
  · next heq => cases heq

theorem unescape_sublist (chars : List Char) : (unescape chars).Sublist chars := by
  fun_induction unescape chars with
  | case1 rest ih => exact (ih.cons_cons _).cons _
  | case2 c rest _ ih => exact ih.cons_cons c
  | case3 => exact .refl _

theorem length_unescape_le (chars : List Char) : (unescape chars).length ≤ chars.length :=
  (unescape_sublist chars).length_le

theorem length_unescape_append_le (chars rest : List Char) :
    (unescape (chars ++ rest)).length ≤ (unescape chars).length + rest.length := by
  fun_induction unescape chars with
  | case1 chars ih =>
    rw [List.cons_append, List.cons_append, unescape, List.length_cons, List.length_cons]
    omega
  | case2 c chars hne ih =>
    have hle := length_unescape_cons_le c (chars ++ rest)
    rw [List.cons_append, List.length_cons]
    omega
  | case3 => simpa using length_unescape_le rest

def seen : List Token → ℕ
  | [] => 0
  | .text chars :: rest => (unescape chars).length + seen rest
  | .tag _ _ :: rest => seen rest

theorem length_prepend (chars : List Char) (marked : Marked) :
    (marked.prepend chars).parts.flatten.length = chars.length + marked.parts.flatten.length := by
  unfold Marked.prepend
  split
  · next hp => simp [hp]
  · next hp => simp [hp]

theorem exists_of_map_ok {f : Marked → Marked} {result : Except MarkupError Marked}
    (h : result.map f = .ok marked) : ∃ inner, result = .ok inner ∧ f inner = marked := by
  cases result with
  | error e => cases h
  | ok inner => exact ⟨inner, rfl, Except.ok.inj h⟩

/-- Whether none of the texts among tokens has a colon. -/
def Colonless (tokens : List Token) : Prop :=
  ∀ chars, .text chars ∈ tokens → ':' ∉ chars

theorem colonless_append_iff {tokens more : List Token} :
    Colonless (tokens ++ more) ↔ Colonless tokens ∧ Colonless more := by
  simp only [Colonless, List.mem_append, or_imp, forall_and]

theorem colonless_text_iff {tokens : List Token} :
    Colonless (.text chars :: tokens) ↔ ':' ∉ chars ∧ Colonless tokens := by
  simp [Colonless]

theorem colonless_tag_iff {tokens : List Token} :
    Colonless (.tag position content :: tokens) ↔ Colonless tokens := by
  simp [Colonless]

theorem colonless_slashed (h : ':' ∉ content) : Colonless (slashed position slashes content) := by
  have hslashes : ':' ∉ List.replicate (slashes / 2) '\\' :=
    fun hm => absurd (List.eq_of_mem_replicate hm) (by decide)
  have htag : ':' ∉ '[' :: content ++ [']'] := by simp [h]
  unfold slashed
  split_ifs
  · exact colonless_text_iff.mpr ⟨hslashes, colonless_text_iff.mpr ⟨htag, nofun⟩⟩
  · exact colonless_text_iff.mpr ⟨hslashes, colonless_tag_iff.mpr nofun⟩

theorem eq_of_tag? (h : tag? chars = some (content, after)) : chars = content ++ ']' :: after := by
  cases chars with
  | nil => simp [tag?] at h
  | cons c rest =>
    simp only [tag?] at h
    split_ifs at h
    split at h
    · next heq =>
      obtain ⟨rfl, rfl⟩ := Prod.mk.inj (Option.some.inj h)
      rw [List.cons_append, ← heq, List.takeWhile_append_dropWhile]
    · cases h

theorem colonless_tokens (position slashes : ℕ) (hp : ':' ∉ pending) (hc : ':' ∉ chars) :
    Colonless (tokens position slashes pending chars) := by
  have hread : ∀ {slashes : ℕ} {pending : List Char} {c : Char}, ':' ∉ pending → c ≠ ':' →
      ':' ∉ c :: List.replicate slashes '\\' ++ pending := by
    intro slashes pending c hp hc
    simp [hp, hc.symm, List.mem_replicate]
  fun_induction tokens position slashes pending chars with
  | case1 position slashes pending =>
    exact colonless_text_iff.mpr ⟨by simp [hp, List.mem_replicate], nofun⟩
  | case2 position slashes pending rest ih => exact ih hp (mt (List.mem_cons_of_mem _) hc)
  | case3 position slashes pending rest content after ht _ ih =>
    obtain ⟨hcontent, hafter⟩ : ':' ∉ content ∧ ':' ∉ after := by
      simpa [eq_of_tag? ht] using hc
    rw [List.cons_append, colonless_text_iff, colonless_append_iff, List.mem_reverse]
    exact ⟨hp, colonless_slashed hcontent, ih List.not_mem_nil hafter⟩
  | case4 position slashes pending rest ht ih =>
    exact ih (hread hp (by decide)) (mt (List.mem_cons_of_mem _) hc)
  | case5 position slashes pending c rest hs hb ih =>
    rw [List.mem_cons, not_or] at hc
    exact ih (hread hp (Ne.symm hc.1)) hc.2

theorem length_parts {tokens : List Token} (h : plain codes opened tokens = .ok marked)
    (hc : Colonless tokens) : marked.parts.flatten.length = seen tokens := by
  fun_induction plain codes opened tokens generalizing marked
  case case1 => cases h; rfl
  case case2 ih =>
    obtain ⟨hchars, hrest⟩ := colonless_text_iff.mp hc
    obtain ⟨inner, hi, rfl⟩ := exists_of_map_ok h
    rw [length_prepend, ih hi hrest, seen,
      Codes.replace_of_not_mem fun hm => hchars ((unescape_sublist _).subset hm)]
  case case5 ih | case7 ih =>
    obtain ⟨inner, hi, rfl⟩ := exists_of_map_ok h
    rw [seen, ← ih hi (colonless_tag_iff.mp hc)]
    rfl
  case case3 | case4 | case6 => cases h

theorem seen_slashed_lt (position slashes : ℕ) (content : List Char) (rest : List Token) :
    seen (slashed position slashes content ++ rest) < slashes + content.length + 2 + seen rest := by
  have hslashes := length_unescape_le (List.replicate (slashes / 2) '\\')
  have htag := length_unescape_le ('[' :: content ++ [']'])
  rw [List.length_replicate] at hslashes
  simp only [List.length_append, List.length_cons, List.length_nil] at htag
  unfold slashed
  split_ifs with hodd
  · simp only [List.cons_append, List.nil_append, seen] at htag ⊢
    omega
  · simp only [List.cons_append, List.nil_append, seen]
    omega

theorem length_unescape_pending_le (pending : List Char) (slashes : ℕ) (c : Char) :
    (unescape (c :: List.replicate slashes '\\' ++ pending).reverse).length ≤
      (unescape pending.reverse).length + slashes + 1 := by
  have hle := length_unescape_append_le pending.reverse (List.replicate slashes '\\' ++ [c])
  simpa [← Nat.add_assoc] using hle

/-- A backslash before an opening bracket is not seen. -/
theorem length_unescape_pending_lt (pending : List Char) (slashes : ℕ) :
    (unescape ('[' :: List.replicate (slashes + 1) '\\' ++ pending).reverse).length <
      (unescape pending.reverse).length + (slashes + 1) + 1 := by
  have hle := length_unescape_append_le pending.reverse (List.replicate slashes '\\')
  have heq : ('[' :: List.replicate (slashes + 1) '\\' ++ pending).reverse =
      pending.reverse ++ List.replicate slashes '\\' ++ ['\\', '['] := by
    simp only [List.replicate_succ, List.cons_append, List.reverse_cons, List.reverse_append,
      List.reverse_replicate, List.append_assoc, List.nil_append]
  rw [heq, unescape_append_slash, List.length_append]
  rw [List.length_replicate] at hle
  simp only [unescape, List.length_cons, List.length_nil]
  omega

/-- No more is seen than was read, and less if what was read is not literal. -/
theorem seen_tokens_le (position slashes : ℕ) (pending chars : List Char) :
    seen (tokens position slashes pending chars) ≤
        (unescape pending.reverse).length + slashes + chars.length ∧
      (¬isLiteral (0 < slashes) chars → seen (tokens position slashes pending chars) <
        (unescape pending.reverse).length + slashes + chars.length) := by
  fun_induction tokens position slashes pending chars with
  | case1 position slashes pending =>
    have hle := length_unescape_append_le pending.reverse (List.replicate slashes '\\')
    exact ⟨by simpa [seen] using hle, fun hl => absurd rfl hl⟩
  | case2 position slashes pending rest ih =>
    have hs : decide (0 < slashes + 1) = true := by simp
    rw [hs] at ih
    rw [isLiteral_slash, List.length_cons]
    exact ⟨by omega, fun hl => (ih.2 hl).trans_le (by omega)⟩
  | case3 position slashes pending rest content after ht _ ih =>
    -- A tag is not seen; if an odd backslash makes it text, half of the backslashes are not.
    have hlength : rest.length = content.length + 1 + after.length := by
      rw [eq_of_tag? ht, List.length_append, List.length_cons]
      omega
    have hslashed := seen_slashed_lt (position - slashes) slashes content
      (tokens (position + content.length + 2) 0 [] after)
    have hle : (unescape [].reverse).length + 0 + after.length = after.length := by
      simp [unescape]
    have hlt : seen (.text pending.reverse :: slashed (position - slashes) slashes content ++
        tokens (position + content.length + 2) 0 [] after) <
        (unescape pending.reverse).length + slashes + ('[' :: rest).length := by
      rw [List.cons_append, seen, List.length_cons]
      omega
    exact ⟨hlt.le, fun _ => hlt⟩
  | case4 position slashes pending rest ht ih =>
    -- A bracket that begins no tag is text, but a backslash before it is dropped with the token.
    obtain ⟨hle, hlt⟩ := ih
    rw [List.length_cons]
    refine ⟨?_, fun hl => ?_⟩
    · have hpending := length_unescape_pending_le pending slashes '['
      omega
    · cases slashes with
      | zero =>
        have hpending := length_unescape_pending_le pending 0 '['
        have hrest := hlt fun hr => hl (isLiteral_bracket_iff.mpr ⟨by simp, ht, hr⟩)
        omega
      | succ slashes =>
        have hpending := length_unescape_pending_lt pending slashes
        omega
  | case5 position slashes pending c rest hs hb ih =>
    obtain ⟨hle, hlt⟩ := ih
    have hpending := length_unescape_pending_le pending slashes c
    rw [List.length_cons, isLiteral_cons hb hs]
    exact ⟨by omega, fun hl => (hlt hl).trans_le (by omega)⟩

/-- Markup without colons stands for itself only if it is literal. -/
theorem render_eq_self_iff (hc : ':' ∉ text.toList) :
    render codes text = .ok text ↔ Literal text := by
  refine ⟨fun h => ?_, fun hl => render_of_plain hl hc⟩
  by_contra hl
  have hlt := (seen_tokens_le 0 0 [] text.toList).2 hl
  unfold render read at h
  cases hp : plain codes [] (tokens 0 0 [] text.toList) with
  | error e =>
    rw [hp] at h
    cases h
  | ok marked =>
    rw [← length_parts hp (colonless_tokens 0 0 List.not_mem_nil hc)] at hlt
    have hparts : String.ofList marked.parts.flatten = text := by
      rw [hp, Except.bind, Marked.shown] at h
      cases hd : marked.definitions.mapM checkStyle with
      | error e =>
        rw [hd] at h
        cases h
      | ok =>
        rw [hd] at h
        exact Except.ok.inj h
    rw [← hparts, String.toList_ofList] at hlt
    simp [unescape] at hlt

end SourceAtlas.Markup
