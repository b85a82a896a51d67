import SourceAtlas.Number.Numeral
import SourceAtlas.Text.Lowercase

/-! # Styles

A style is defined by words: attributes, which may be negated, a colour, a colour after `on` for the
background, and the target of a link. Of two words for the same part the later one counts. All
definitions of a style come down to one text.
-/

namespace SourceAtlas

inductive Attribute where
  | bold
  | dim
  | italic
  | underline
  | blink
  | blink2
  | reverse
  | conceal
  | strike
  | underline2
  | frame
  | encircle
  | overline
deriving DecidableEq, Repr

namespace Attribute

def all : List Attribute :=
  [bold, dim, italic, underline, blink, blink2, reverse, conceal, strike, underline2, frame,
    encircle, overline]

def name : Attribute → String
  | bold => "bold"
  | dim => "dim"
  | italic => "italic"
  | underline => "underline"
  | blink => "blink"
  | blink2 => "blink2"
  | reverse => "reverse"
  | conceal => "conceal"
  | strike => "strike"
  | underline2 => "underline2"
  | frame => "frame"
  | encircle => "encircle"
  | overline => "overline"

def shortName? : Attribute → Option String
  | bold => "b"
  | dim => "d"
  | italic => "i"
  | underline => "u"
  | reverse => "r"
  | conceal => "c"
  | strike => "s"
  | underline2 => "uu"
  | overline => "o"
  | blink | blink2 | frame | encircle => none

def ofWord? (word : String) : Option Attribute :=
  all.find? fun a => a.name = word ∨ a.shortName? = some word

end Attribute

/-- Why a text defines no style: it has a word that is none of a style, or a colour by its parts of
which one is empty. -/
inductive StyleError where
  | unknown
  | emptyPart
deriving DecidableEq, Repr

namespace Colour

def names : List String := [
  "black", "red", "green", "yellow", "blue", "magenta", "cyan", "white", "bright_black",
  "bright_red", "bright_green", "bright_yellow", "bright_blue", "bright_magenta", "bright_cyan",
  "bright_white", "grey0", "gray0", "navy_blue", "dark_blue", "blue3", "blue1", "dark_green",
  "deep_sky_blue4", "dodger_blue3", "dodger_blue2", "green4", "spring_green4", "turquoise4",
  "deep_sky_blue3", "dodger_blue1", "green3", "spring_green3", "dark_cyan", "light_sea_green",
  "deep_sky_blue2", "deep_sky_blue1", "spring_green2", "cyan3", "dark_turquoise", "turquoise2",
  "green1", "spring_green1", "medium_spring_green", "cyan2", "cyan1", "dark_red", "deep_pink4",
  "purple4", "purple3", "blue_violet", "orange4", "grey37", "gray37", "medium_purple4",
  "slate_blue3", "royal_blue1", "chartreuse4", "dark_sea_green4", "pale_turquoise4", "steel_blue",
  "steel_blue3", "cornflower_blue", "chartreuse3", "cadet_blue", "sky_blue3", "steel_blue1",
  "pale_green3", "sea_green3", "aquamarine3", "medium_turquoise", "chartreuse2", "sea_green2",
  "sea_green1", "aquamarine1", "dark_slate_gray2", "dark_magenta", "dark_violet", "purple",
  "light_pink4", "plum4", "medium_purple3", "slate_blue1", "yellow4", "wheat4", "grey53", "gray53",
  "light_slate_grey", "light_slate_gray", "medium_purple", "light_slate_blue", "dark_olive_green3",
  "dark_sea_green", "light_sky_blue3", "sky_blue2", "dark_sea_green3", "dark_slate_gray3",
  "sky_blue1", "chartreuse1", "light_green", "pale_green1", "dark_slate_gray1", "red3",
  "medium_violet_red", "magenta3", "dark_orange3", "indian_red", "hot_pink3", "medium_orchid3",
  "medium_orchid", "medium_purple2", "dark_goldenrod", "light_salmon3", "rosy_brown", "grey63",
  "gray63", "medium_purple1", "gold3", "dark_khaki", "navajo_white3", "grey69", "gray69",
  "light_steel_blue3", "light_steel_blue", "yellow3", "dark_sea_green2", "light_cyan3",
  "light_sky_blue1", "green_yellow", "dark_olive_green2", "dark_sea_green1", "pale_turquoise1",
  "deep_pink3", "magenta2", "hot_pink2", "orchid", "medium_orchid1", "orange3", "light_pink3",
  "pink3", "plum3", "violet", "light_goldenrod3", "tan", "misty_rose3", "thistle3", "plum2",
  "khaki3", "light_goldenrod2", "light_yellow3", "grey84", "gray84", "light_steel_blue1", "yellow2",
  "dark_olive_green1", "honeydew2", "light_cyan1", "red1", "deep_pink2", "deep_pink1", "magenta1",
  "orange_red1", "indian_red1", "hot_pink", "dark_orange", "salmon1", "light_coral",
  "pale_violet_red1", "orchid2", "orchid1", "orange1", "sandy_brown", "light_salmon1",
  "light_pink1", "pink1", "plum1", "gold1", "navajo_white1", "misty_rose1", "thistle1", "yellow1",
  "light_goldenrod1", "khaki1", "wheat1", "cornsilk1", "grey100", "gray100", "grey3", "gray3",
  "grey7", "gray7", "grey11", "gray11", "grey15", "gray15", "grey19", "gray19", "grey23", "gray23",
  "grey27", "gray27", "grey30", "gray30", "grey35", "gray35", "grey39", "gray39", "grey42",
  "gray42", "grey46", "gray46", "grey50", "gray50", "grey54", "gray54", "grey58", "gray58",
  "grey62", "gray62", "grey66", "gray66", "grey70", "gray70", "grey74", "gray74", "grey78",
  "gray78", "grey82", "gray82", "grey85", "gray85", "grey89", "gray89", "grey93", "gray93"]

def isHexDigit (c : Char) : Bool :=
  Numeral.isDigit c || 'a' ≤ c && c ≤ 'f'

def argument? (name : String) (word : List Char) : Option (List Char) :=
  let opening := name.toList ++ ['(']
  if opening.isPrefixOf word ∧ word.getLast? = some ')' then
    some (word.drop opening.length).dropLast
  else none

def isByte (digits : List Char) : Bool :=
  Numeral.valueOf digits ≤ 255

/-- Reads a colour by its number, of at most three digits. -/
def readNumber (digits : List Char) : Except StyleError Unit :=
  if digits ≠ [] ∧ digits.length ≤ 3 ∧ digits.all Numeral.isDigit ∧ isByte digits then .ok ()
  else .error .unknown

/-- Reads a colour by its parts, which are three numbers with commas between them. -/
def readParts (text : List Char) : Except StyleError Unit :=
  let parts := text.splitOn ','
  if !parts.all (·.all Numeral.isDigit) ∨ text.isEmpty ∨ parts.length ≠ 3 then .error .unknown
  else if parts.any List.isEmpty then .error .emptyPart
  else if parts.all isByte then .ok ()
  else .error .unknown

def readLower (word : List Char) : Except StyleError Unit :=
  if word = "default".toList ∨ names.contains (String.ofList word) then .ok ()
  else match word, argument? "color" word, argument? "rgb" word with
    | '#' :: digits, _, _ =>
      if digits.length = 6 ∧ digits.all isHexDigit then .ok () else .error .unknown
    | _, some digits, _ => readNumber digits
    | _, _, some text => readParts text
    | _, _, _ => .error .unknown

/-- The name of the colour that a word stands for. -/
def read (word : String) : Except StyleError String :=
  let lower := Text.lower word.toList
  (readLower lower).map fun _ => String.ofList lower

end Colour

structure Style where
  attributes : List (Attribute × Bool) := []
  colour : Option String := none
  background : Option String := none
  link : Option String := none
deriving DecidableEq, Repr

namespace Style

/-- An attribute as it is in a style, if the style says anything about it. -/
def attributeText? (style : Style) (a : Attribute) : Option String :=
  (List.lookup a style.attributes).map fun isOn => if isOn then a.name else "not " ++ a.name

/-- The text that all definitions of a style come down to. -/
def text (style : Style) : String :=
  let words := Attribute.all.filterMap style.attributeText? ++ style.colour.toList ++
    (style.background.map ("on " ++ ·)).toList ++ (style.link.map ("link " ++ ·)).toList
  if words.isEmpty then "none" else " ".intercalate words

def readWords (style : Style) : List String → Except StyleError Style
  | [] => .ok style
  | original :: rest =>
    match String.ofList (Text.lower original.toList), rest with
    | "on", word :: rest =>
      match Colour.read word with
      | .ok colour => readWords { style with background := some colour } rest
      | .error e => .error e
    | "not", word :: rest =>
      match Attribute.ofWord? word with
      | some a => readWords { style with attributes := (a, false) :: style.attributes } rest
      | none => .error .unknown
    | "link", word :: rest => readWords { style with link := some word } rest
    | word, rest =>
      match Attribute.ofWord? word with
      | some a => readWords { style with attributes := (a, true) :: style.attributes } rest
      | none =>
        match Colour.read word with
        | .ok colour => readWords { style with colour := some colour } rest
        | .error e => .error e
termination_by words => words.length

/-- The style that a text defines; a text of blanks and the word `none` define the plain one. -/
def read (definition : List Char) : Except StyleError Style :=
  let words := (definition.splitOnP Text.isBlank).filter (!·.isEmpty)
  if words = ["none".toList] then .ok {} else readWords {} (words.map String.ofList)

/-- The name of a style: the text that its definition comes down to, or what was meant to be one in
lower case. -/
def nameOf (definition : List Char) : Except StyleError String :=
  match read definition with
  | .ok style => .ok style.text
  | .error .unknown => .ok (String.ofList (Text.lower (Text.trim Text.isBlank definition)))
  | .error .emptyPart => .error .emptyPart

end Style

end SourceAtlas
