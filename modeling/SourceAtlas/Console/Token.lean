/-! # Tags in texts

A tag stands in brackets. It begins with a lower-case letter, `#`, `/` or `@`, and holds no opening
bracket; other brackets are text. Backslashes before a tag are halved, and an odd one among them
turns the tag into text; a text is escaped by adding such backslashes.
-/

namespace SourceAtlas.Markup

inductive Token where
  | text (chars : List Char)
  | tag (position : Nat) (content : List Char)
deriving DecidableEq, Repr

def beginsTag (c : Char) : Bool :=
  ('a' ≤ c && c ≤ 'z') || c == '#' || c == '/' || c == '@'

/-- The content of a tag after its opening bracket, and what follows the tag. -/
def tag? : List Char → Option (List Char × List Char)
  | [] => none
  | c :: rest =>
    if beginsTag c then
      match rest.dropWhile (fun c => c ≠ ']' && c ≠ '[') with
      | ']' :: after => some (c :: rest.takeWhile (fun c => c ≠ ']' && c ≠ '['), after)
      | _ => none
    else none

theorem length_of_tag? {chars content after : List Char} (h : tag? chars = some (content, after)) :
    after.length < chars.length := by
  unfold tag? at h
  split at h
  · simp at h
  · rename_i c rest
    split at h
    · split at h
      · rename_i tail heq
        have := (List.dropWhile_sublist (l := rest) (fun c => c ≠ ']' && c ≠ '[')).length_le
        simp only [heq, List.length_cons] at this ⊢
        simp only [Option.some.injEq, Prod.mk.injEq] at h
        obtain ⟨_, rfl⟩ := h
        omega
      · simp at h
    · simp at h

/-- Backslashes before a tag at a position: half of them are text, and a last odd one makes the tag
text too. -/
def slashed (position slashes : Nat) (content : List Char) : List Token :=
  .text (List.replicate (slashes / 2) '\\') ::
    [if slashes % 2 = 1 then .text ('[' :: content ++ [']'])
      else .tag (position + slashes) content]

/-- Cuts a text into tokens; `pending` is the text read since the last one, backwards, without the
backslashes that directly precede the rest, of which there are `slashes`. -/
def tokens (position slashes : Nat) (pending : List Char) (chars : List Char) : List Token :=
  match chars with
  | [] => [.text (pending.reverse ++ List.replicate slashes '\\')]
  | '\\' :: rest => tokens (position + 1) (slashes + 1) pending rest
  | '[' :: rest =>
    match h : tag? rest with
    | some (content, after) =>
      have := length_of_tag? h
      .text pending.reverse :: slashed (position - slashes) slashes content ++
        tokens (position + content.length + 2) 0 [] after
    | none => tokens (position + 1) 0 ('[' :: List.replicate slashes '\\' ++ pending) rest
  | c :: rest => tokens (position + 1) 0 (c :: List.replicate slashes '\\' ++ pending) rest
termination_by chars.length
decreasing_by
  all_goals simp only [List.length_cons]
  all_goals omega

/-- In a text without tags a backslash before an opening bracket is dropped. -/
def unescape : List Char → List Char
  | '\\' :: '[' :: rest => '[' :: unescape rest
  | c :: rest => c :: unescape rest
  | [] => []

/-! ## Escaping -/

/-- Doubles the backslashes before each tag and adds one, so that the tag is text. -/
def escapeTags (slashes : Nat) (chars : List Char) : List Char :=
  match chars with
  | [] => List.replicate slashes '\\'
  | '\\' :: rest => escapeTags (slashes + 1) rest
  | '[' :: rest =>
    match h : tag? rest with
    | some (content, after) =>
      have := length_of_tag? h
      List.replicate (2 * slashes + 1) '\\' ++ '[' :: content ++ ']' :: escapeTags 0 after
    | none => List.replicate slashes '\\' ++ '[' :: escapeTags 0 rest
  | c :: rest => List.replicate slashes '\\' ++ c :: escapeTags 0 rest
termination_by chars.length
decreasing_by
  all_goals simp only [List.length_cons]
  all_goals omega

def escapeEnd (chars : List Char) : List Char :=
  match chars.reverse with
  | '\\' :: '\\' :: _ => chars
  | '\\' :: _ => chars ++ ['\\']
  | _ => chars

def escape (text : String) : String :=
  String.ofList (escapeEnd (escapeTags 0 text.toList))

end SourceAtlas.Markup
