import SourceAtlas.Number.Numeral

/-! # Parameters of events

An event tag has parameters after its equals sign: an expression, or a handler's name with an
expression in parentheses. They are checked when the tag is closed: brackets have to match, and
between operands there have to be operators or commas.
-/

namespace SourceAtlas

inductive ExpressionError where
  | openText
  | unmatched (closing : Char)
  | mismatched (closing opening : Char)
  | neverClosed (opening : Char)
  | badNumber
  | missingComma
  | invalid
deriving DecidableEq, Repr

def ExpressionError.message : ExpressionError → String
  | openText => "unterminated string literal (detected at line 1)"
  | unmatched closing => "unmatched '" ++ closing.toString ++ "'"
  | mismatched closing opening =>
    "closing parenthesis '" ++ closing.toString ++ "' does not match opening parenthesis '" ++
      opening.toString ++ "'"
  | neverClosed opening => "'" ++ opening.toString ++ "' was never closed"
  | badNumber => "invalid decimal literal"
  | missingComma => "invalid syntax. Perhaps you forgot a comma?"
  | invalid => "invalid syntax"

namespace Expression

inductive Lexeme where
  | word
  | quoted
  | mark (c : Char)
deriving DecidableEq, Repr

/-- Where in an expression a character is: in a text, after a backslash or not, in a word, which may
be a number, or between lexemes. -/
inductive Context where
  | between
  | inWord (isNumber : Bool)
  | inText (quote : Char) (isEscaped : Bool)
deriving DecidableEq, Repr

def isWordChar (c : Char) : Bool :=
  c.isAlphanum || c == '_' || c == '.' || 0x80 ≤ c.toNat

/-- The characters that a decimal number may have next to its digits. -/
def isNumberMark (c : Char) : Bool :=
  "._eEjJ".toList.contains c

/-- The letters of a base, after which other letters may be digits. -/
def isBaseLetter (c : Char) : Bool :=
  "bBoOxX".toList.contains c

def closingOf (opening : Char) : Char :=
  if opening = '(' then ')' else '\x7d'

def isOpening (c : Char) : Bool :=
  c == '(' || c == '\x7b'

def isClosing (c : Char) : Bool :=
  c == ')' || c == '\x7d'

/-- The open brackets after a character, the innermost first. -/
def bracketsAfter (opened : List Char) (c : Char) : Except ExpressionError (List Char) :=
  if isOpening c then .ok (c :: opened)
  else if isClosing c then
    match opened with
    | [] => .error (.unmatched c)
    | opening :: outer =>
      if closingOf opening = c then .ok outer else .error (.mismatched c opening)
  else .ok opened

/-- The lexemes of an expression, the brackets of which match as far as they are closed. -/
def lexemes (context : Context) (opened : List Char) :
    List Char → Except ExpressionError (List Lexeme)
  | [] =>
    match context with
    | .inText _ _ => .error .openText
    | _ => .ok []
  | c :: rest =>
    match context with
    | .inText quote isEscaped =>
      if isEscaped then lexemes (.inText quote false) opened rest
      else if c = '\\' then lexemes (.inText quote true) opened rest
      else if c = quote then lexemes .between opened rest
      else lexemes context opened rest
    | .between | .inWord _ =>
      if isWordChar c then
        match context with
        | .inWord isNumber =>
          if !isNumber ∨ Numeral.isDigit c ∨ isNumberMark c then lexemes context opened rest
          else if isBaseLetter c then lexemes (.inWord false) opened rest
          else .error .badNumber
        | _ => (lexemes (.inWord (Numeral.isDigit c)) opened rest).map (.word :: ·)
      else if c = '\'' ∨ c = '"' then
        (lexemes (.inText c false) opened rest).map (.quoted :: ·)
      else if c = ' ' ∨ c = '\t' then lexemes .between opened rest
      else
        match bracketsAfter opened c with
        | .error e => .error e
        | .ok opened => (lexemes .between opened rest).map (.mark c :: ·)

/-- What comes before a place in an expression: an operator, which needs an operand after it, an
opening bracket, a comma, a text, or another operand. -/
inductive Before where
  | operator
  | opening
  | comma
  | text
  | operand
deriving DecidableEq, Repr

/-- The characters that join two operands; the signs also stand before a single one. -/
def isOperator (c : Char) : Bool :=
  "*/%|&^<>".toList.contains c

def adjacent (opened : List Char) (bracket : Option Char) (rest : List Lexeme) : ExpressionError :=
  match rest, bracket.toList ++ opened, opened with
  | [], opening :: _, _ => .neverClosed opening
  | _, _, _ :: _ => .missingComma
  | _, _, [] => .invalid

def faultAfter (opened : List Char) (before : Before) : List Lexeme → Option ExpressionError
  | [] =>
    match opened with
    | opening :: _ => some (.neverClosed opening)
    | [] => if before = .operator ∨ before = .opening then some .invalid else none
  | lexeme :: rest =>
    let isComplete := before = .operand ∨ before = .text
    match lexeme with
    | .word =>
      if isComplete then some (adjacent opened none rest) else faultAfter opened .operand rest
    | .quoted =>
      if before = .operand then some (adjacent opened none rest)
      else faultAfter opened .text rest
    | .mark c =>
      if isOpening c then
        if isComplete ∧ c ≠ '(' then some (adjacent opened (some c) rest)
        else faultAfter (c :: opened) .opening rest
      else if isClosing c then
        if before = .operator then some .invalid else faultAfter opened.tail .operand rest
      else if c = ',' then
        if isComplete then faultAfter opened .comma rest else some .invalid
      else if c = '+' ∨ c = '-' then faultAfter opened .operator rest
      else if isComplete ∧ (isOperator c ∨ c = ':' ∧ opened.head? = some '\x7b') then
        faultAfter opened .operator rest
      else some .invalid

def fault (text : List Char) : Option ExpressionError :=
  match lexemes .between [] text with
  | .error e => some e
  | .ok lexemes => faultAfter [] .operator lexemes

/-- The expression among parameters; a handler's name alone goes with an empty pair of
parentheses. -/
def ofParameters (parameters : List Char) : List Char :=
  let trimmed := Text.trim Text.isBlank parameters
  match trimmed.dropWhile isWordChar with
  | [] => ['(', ')']
  | '(' :: rest =>
    if rest.getLast? = some ')' ∧ !rest.contains '\n' then '(' :: rest else trimmed
  | _ => trimmed

end Expression

end SourceAtlas
