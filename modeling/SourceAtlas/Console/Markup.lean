import SourceAtlas.Console.Codes
import SourceAtlas.Console.Parameters
import SourceAtlas.Console.Style
import SourceAtlas.Console.Token
import SourceAtlas.Text.Quoted

/-! # Markup

A tag opens a style, or an event if it begins with `@`, until a closing tag of the same name or the
end of the text. What is left of a text are its parts between the tags, with short codes replaced in
each.
-/

namespace SourceAtlas.Markup

open Console (Codes)

inductive MarkupError where
  | unmatched (tag : String) (position : Nat)
  | nothingOpen (position : Nat)
  | badParameters (parameters : String) (expression : String) (error : ExpressionError)
  | emptyPart
deriving DecidableEq, Repr

def MarkupError.message : MarkupError → String
  | unmatched tag position =>
    "closing tag '[" ++ tag ++ "]' at position " ++ toString position ++
      " doesn't match any open tag"
  | nothingOpen position =>
    "closing tag '[/]' at position " ++ toString position ++ " has nothing to close"
  | badParameters parameters expression error =>
    "error parsing " ++ Text.quoted expression ++ " in " ++ Text.quoted parameters ++ "; " ++
      error.message
  | emptyPart => "invalid literal for int() with base 10: ''"

/-- The name that tags are matched by. -/
def nameOf (name : List Char) : Except MarkupError String :=
  match Style.nameOf name with
  | .ok name => .ok name
  | .error _ => .error .emptyPart

/-- A tag that is open; its parameters follow an equals sign. -/
structure OpenTag where
  name : String
  parameters : Option (List Char)
deriving DecidableEq, Repr

namespace OpenTag

def definition (tag : OpenTag) : List Char :=
  match tag.parameters with
  | none => tag.name.toList
  | some parameters => tag.name.toList ++ ' ' :: parameters

/-- The definition of the style that a tag has when it is closed; an event has none, and its
parameters, if there are any, have to be in order. -/
def close (tag : OpenTag) : Except MarkupError (List (List Char)) :=
  if tag.name.startsWith "@" then
    match tag.parameters with
    | none | some [] => .ok []
    | some parameters =>
      let expression := Expression.ofParameters parameters
      match Expression.fault expression with
      | none => .ok []
      | some e => .error (.badParameters (String.ofList parameters) (String.ofList expression) e)
  else .ok [tag.definition]

end OpenTag

structure Marked where
  parts : List (List Char)
  definitions : List (List Char)
deriving DecidableEq, Repr

namespace Marked

def prepend (chars : List Char) (marked : Marked) : Marked :=
  match marked.parts with
  | [] => { marked with parts := [chars] }
  | part :: rest => { marked with parts := (chars ++ part) :: rest }

def afterTag (marked : Marked) : Marked :=
  { marked with parts := [] :: marked.parts }

def withStyles (definitions : List (List Char)) (marked : Marked) : Marked :=
  { marked with definitions := definitions ++ marked.definitions }

end Marked

def nameAndParameters (content : List Char) : List Char × Option (List Char) :=
  let name := content.takeWhile (· ≠ '=')
  (name, match content.dropWhile (· ≠ '=') with
    | [] => none
    | _ :: parameters => some parameters)

/-- The tag that a closing tag closes, and the others that are open; the innermost tag comes
first. -/
def closed (opened : List OpenTag) (position : Nat) (content name : List Char) :
    Except MarkupError (OpenTag × List OpenTag) :=
  let name := Text.trim Text.isBlank name
  if name.isEmpty then
    match opened with
    | [] => .error (.nothingOpen position)
    | tag :: others => .ok (tag, others)
  else
    (nameOf name).bind fun name =>
      match opened.find? (·.name = name) with
      | some tag => .ok (tag, opened.eraseP (·.name = name))
      | none => .error (.unmatched (String.ofList content) position)

/-- What is left of tokens; the innermost open tag comes first. -/
def plain (codes : Codes) (opened : List OpenTag) : List Token → Except MarkupError Marked
  | [] => .ok ⟨[[]], opened.map (·.definition)⟩
  | .text chars :: rest =>
    (plain codes opened rest).map (·.prepend (codes.replace (unescape chars)))
  | .tag position content :: rest =>
    match nameAndParameters content with
    | ('/' :: name, _) =>
      match closed opened position content name with
      | .error e => .error e
      | .ok (tag, others) =>
        match tag.close with
        | .error e => .error e
        | .ok definitions =>
          (plain codes others rest).map fun marked => (marked.withStyles definitions).afterTag
    | (name, parameters) =>
      match nameOf name with
      | .error e => .error e
      | .ok name => (plain codes (⟨name, parameters⟩ :: opened) rest).map Marked.afterTag

def read (codes : Codes) (markup : String) : Except MarkupError Marked :=
  plain codes [] (tokens 0 0 [] markup.toList)

/-- Looks up a style. What defines none is passed over, but for a colour with an empty part. -/
def checkStyle (definition : List Char) : Except MarkupError Unit :=
  match Style.read definition with
  | .error .emptyPart => .error .emptyPart
  | _ => .ok ()

def Marked.shown (marked : Marked) : Except MarkupError (List (List Char)) :=
  (marked.definitions.mapM checkStyle).map fun _ => marked.parts

def render (codes : Codes) (markup : String) : Except MarkupError String :=
  ((read codes markup).bind Marked.shown).map fun parts => String.ofList parts.flatten

end SourceAtlas.Markup
