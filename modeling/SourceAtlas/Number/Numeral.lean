import SourceAtlas.Text.Blank

/-! # Numerals

Integers in decimal notation. A numeral is read as it is if it is a bare one; otherwise what adorns
it is taken off first: white space around it, a plus sign, zeros in front, zeros after a point, and
single underscores.
-/

namespace SourceAtlas

inductive NumeralError where
  | malformed
  | tooLong
deriving DecidableEq, Repr

namespace Numeral

def isDigit (c : Char) : Bool :=
  '0' ≤ c && c ≤ '9'

def valueOf (digits : List Char) : Nat :=
  digits.foldl (fun n c => n * 10 + (c.toNat - '0'.toNat)) 0

def maxDigits : Nat := 4300

/-- The value of a bare numeral: decimal digits, of which the first is a zero only if there is no
other, with a minus sign in front of them if it is negative. -/
def bare (text : List Char) : Except NumeralError Int :=
  let (negative, digits) := match text with
    | '-' :: rest => (true, rest)
    | _ => (false, text)
  match digits.takeWhile isDigit with
  | [] => .error .malformed
  | ['0'] => if digits = ['0'] then .ok 0 else .error .malformed
  | '0' :: _ => .error .malformed
  | run =>
    if maxDigits < run.length then .error .tooLong
    else if run.length < digits.length then .error .malformed
    else .ok (if negative then -(valueOf run : Int) else valueOf run)

/-- What follows the zeros and underscores at the start of a text: a digit or a minus sign, or the
last of them where a point or nothing follows. -/
def afterZeros (last : Char) : List Char → Option (List Char)
  | [] => some [last]
  | c :: rest =>
    if c = '0' ∨ c = '_' then afterZeros c rest
    else if isDigit c ∨ c = '-' then some (c :: rest)
    else if c = '.' then some (last :: c :: rest)
    else none

def withoutZeros : List Char → Option (List Char)
  | [] => none
  | '0' :: rest => afterZeros '0' rest
  | c :: rest => if isDigit c then some (c :: rest) else none

def withoutFraction (text : List Char) : Option (List Char) :=
  match text.dropWhile (· ≠ '.') with
  | [] => some text
  | _ :: zeros =>
    if !zeros.isEmpty && zeros.all (· == '0') then some (text.takeWhile (· ≠ '.')) else none

/-- A text without its underscores, if each of them is between two other characters. -/
def withoutUnderscores (text : List Char) : List Char :=
  let groups := text.splitOn '_'
  if groups.all (!·.isEmpty) then groups.flatten else text

def unadorned (text : List Char) : Option (List Char) :=
  (withoutZeros text).bind fun text => (withoutFraction text).map withoutUnderscores

def simplified (text : List Char) : Option (List Char) :=
  match Text.trim Text.isWhiteSpace text with
  | '+' :: rest => unadorned rest
  | '-' :: rest => (unadorned rest).map ('-' :: ·)
  | trimmed => unadorned trimmed

/-- The value of a numeral; only of a bare one it is told that it is too long. -/
def read (text : String) : Except NumeralError Int :=
  match bare text.toList with
  | .ok n => .ok n
  | .error .tooLong => .error .tooLong
  | .error _ =>
    match (simplified text.toList).map bare with
    | some (.ok n) => .ok n
    | _ => .error .malformed

end Numeral

end SourceAtlas
