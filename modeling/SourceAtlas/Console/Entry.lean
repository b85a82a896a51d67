import SourceAtlas.Console.Table

/-! # Console output

What a command prints: literal texts, texts with markup, and tables. A text is broken into the lines
of the console, unless it is one whose lines are to stay whole. Short codes are replaced in all of
them, in literal texts too.
-/

namespace SourceAtlas.Console

open Markup (MarkupError)

inductive Entry where
  | literal (text : String)
  | whole (markup : String)
  | marked (markup : String)
  | table (header : List String) (rows : List (List String))
deriving DecidableEq, Repr

def Entry.render (terminal : Terminal) : Entry → Except MarkupError String
  | literal text => .ok (shown (terminal.codes.shownFor text) ++ "\n")
  | whole markup => (Markup.render terminal.codes markup).map fun text => shown text ++ "\n"
  | marked markup =>
    (Markup.render terminal.codes markup).map fun text => shownFolded terminal.width text ++ "\n"
  | table header rows => renderTable terminal header rows

/-- The text of entries up to the first that cannot be rendered. -/
def renderAll (terminal : Terminal) : List Entry → String × Option MarkupError
  | [] => ("", none)
  | entry :: rest =>
    match entry.render terminal with
    | .error e => ("", some e)
    | .ok text =>
      let (more, error) := renderAll terminal rest
      (text ++ more, error)

end SourceAtlas.Console
