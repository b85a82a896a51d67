import Mathlib
import SourceAtlas.Proofs.Console.Literal

/-! # Texts in a style

A literal text between the tags that open and close a style is shown without the tags, and so is a
literal text after it. Short codes are replaced in each of the two.
-/

namespace SourceAtlas.Markup

open Console (Codes)

variable {codes : Codes} {content : List Char} {opened : List OpenTag} {text style : String} {body tail : List Char}

theorem tag?_closed {c : Char} (hb : beginsTag c) (h : ∀ d ∈ content, d ≠ ']' ∧ d ≠ '[')
    (rest : List Char) : tag? (c :: content ++ ']' :: rest) = some (c :: content, rest) := by
  have hp : ∀ d ∈ content, (decide (d ≠ ']') && decide (d ≠ '[')) = true := fun d hd => by
    simpa using h d hd
  rw [List.cons_append, tag?, if_pos hb, List.dropWhile_append_of_pos hp,
    List.takeWhile_append_of_pos hp]
  simp

theorem closed_style (hs : style = "red" ∨ style = "green") (position : ℕ) :
    closed [⟨style, none⟩] position ('/' :: style.toList) style.toList = .ok (⟨style, none⟩, []) := by
  have htrim : Text.trim Text.isBlank style.toList = style.toList := by
    rcases hs with rfl | rfl <;> decide +kernel
  have hname : nameOf style.toList = .ok style := by
    rcases hs with rfl | rfl <;> decide +kernel
  have hne : style.toList.isEmpty = false := by
    rcases hs with rfl | rfl <;> rfl
  rw [closed]
  simp [htrim, hname, hne, Except.bind]

theorem plain_open {name : List Char} (position : ℕ) (tokens : List Token)
    (hc : nameAndParameters content = (name, none)) (hslash : name.head? ≠ some '/')
    (hn : nameOf name = .ok style) :
    plain codes opened (.tag position content :: tokens) =
      (plain codes (⟨style, none⟩ :: opened) tokens).map Marked.afterTag := by
  rw [plain, hc]
  split
  · next heq =>
    rw [(Prod.mk.inj heq).1] at hslash
    exact absurd rfl hslash
  · next heq =>
    obtain ⟨rfl, rfl⟩ := Prod.mk.inj heq
    simp only [hn]

theorem plain_close {name : List Char} {tag : OpenTag} {others : List OpenTag}
    {definitions : List (List Char)} (position : ℕ) (tokens : List Token)
    (hc : nameAndParameters content = ('/' :: name, none))
    (ht : closed opened position content name = .ok (tag, others))
    (hd : tag.close = .ok definitions) :
    plain codes opened (.tag position content :: tokens) =
      (plain codes others tokens).map fun marked => (marked.withStyles definitions).afterTag := by
  rw [plain, hc]
  simp only [ht, hd]

theorem plain_styled (codes : Codes) (hs : style = "red" ∨ style = "green") (position place : ℕ)
    (body tail : List Char) :
    plain codes [] [.text [], .text [], .tag position style.toList, .text body, .text [],
      .tag place ('/' :: style.toList), .text tail] =
      .ok ⟨[[], codes.replace (unescape body), codes.replace (unescape tail)],
        [style.toList]⟩ := by
  have hname : nameOf style.toList = .ok style := by
    rcases hs with rfl | rfl <;> decide +kernel
  have hopen : nameAndParameters style.toList = (style.toList, none) := by
    rcases hs with rfl | rfl <;> decide +kernel
  have hslash : style.toList.head? ≠ some '/' := by
    rcases hs with rfl | rfl <;> decide +kernel
  have hclose : nameAndParameters ('/' :: style.toList) = ('/' :: style.toList, none) := by
    rcases hs with rfl | rfl <;> decide +kernel
  have hstyle : (⟨style, none⟩ : OpenTag).close = .ok [style.toList] := by
    rcases hs with rfl | rfl <;> decide +kernel
  rw [plain, plain, plain_open position _ hopen hslash hname, plain, plain,
    plain_close place _ hclose (closed_style hs place) hstyle, plain, plain]
  simp [Except.map, Marked.prepend, Marked.afterTag, Marked.withStyles, unescape, Codes.replace,
    Codes.replaceAfter]

theorem tag?_style (hs : style = "red" ∨ style = "green") (rest : List Char) :
    tag? (style.toList ++ ']' :: rest) = some (style.toList, rest) ∧
      tag? ('/' :: style.toList ++ ']' :: rest) = some ('/' :: style.toList, rest) := by
  obtain ⟨first, name, heq, hfirst, hname⟩ : ∃ first name, style.toList = first :: name ∧
      beginsTag first ∧ ∀ d ∈ first :: name, d ≠ ']' ∧ d ≠ '[' := by
    rcases hs with rfl | rfl
    · exact ⟨'r', ['e', 'd'], by decide, by decide, by simp⟩
    · exact ⟨'g', ['r', 'e', 'e', 'n'], by decide, by decide, by simp⟩
  rw [heq]
  exact ⟨tag?_closed hfirst (List.forall_mem_cons.mp hname).2 rest,
    tag?_closed (by decide) hname rest⟩

/-- A text in a style, and text after it, are shown without the tags. -/
theorem render_styled (hs : style = "red" ∨ style = "green") (hb : isLiteral false body)
    (hlast : body.getLast? ≠ some '\\') (ht : isLiteral false tail)
    (h : text.toList =
      '[' :: style.toList ++ ']' :: body ++ '[' :: '/' :: style.toList ++ ']' :: tail) :
    render codes text = .ok (String.ofList (codes.replace body ++ codes.replace tail)) := by
  have hstyle : checkStyle style.toList = .ok () := by
    rcases hs with rfl | rfl <;> decide +kernel
  have htext : text.toList =
      '[' :: (style.toList ++ ']' :: (body ++ '[' :: ('/' :: style.toList ++ ']' :: tail))) := by
    simpa using h
  rw [render, read, htext, tokens_tag (tag?_style hs _).1,
    tokens_append_tag hb hlast (tag?_style hs _).2, tokens_of_literal ht]
  have hplain := plain_styled codes hs 0 (0 + style.toList.length + 2 + body.length) body tail
  rw [unescape_of_literal hb, unescape_of_literal ht] at hplain
  have hslashed : slashed (0 - 0) 0 style.toList = [.text [], .tag 0 style.toList] := rfl
  simp only [hslashed, List.reverse_nil, List.cons_append, List.nil_append, hplain]
  simp [Except.bind, Marked.shown, hstyle, Except.map, pure, Except.pure, bind]

end SourceAtlas.Markup
