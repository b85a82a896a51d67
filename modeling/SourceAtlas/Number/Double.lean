/-! # Double-precision numbers

A double is kept as sign, significand and binary exponent. A decimal numeral is rounded to the
nearest double, ties to the even significand; a double is written with the fewest digits that are
rounded back to it, and among those the nearest.
-/

namespace SourceAtlas

/-- A finite double has the value `±significand · 2 ^ exponent`; `nan` is what is no number. -/
inductive Double where
  | finite (negative : Bool) (significand : Nat) (exponent : Int)
  | infinite (negative : Bool)
  | nan
deriving DecidableEq, Repr

namespace Double

/-- The exponent of the subnormal numbers, the least that a double has. -/
def leastExponent : Int := -1074

def greatestExponent : Int := 971

/-- The least significand of a normal number, which has 53 binary digits. -/
def leastNormal : Nat := 0x10000000000000

def tenTo (power : Nat) : Nat :=
  Nat.pow 10 power

/-- A quotient rounded to the nearest natural number, ties to the even one. -/
def roundDiv (num den : Nat) : Nat :=
  let quotient := num / den
  let rest := num % den
  if 2 * rest < den then quotient
  else if den < 2 * rest then quotient + 1
  else quotient + quotient % 2

def scale (num den : Nat) (exponent : Int) : Nat × Nat :=
  if exponent < 0 then (num <<< (-exponent).toNat, den) else (num, den <<< exponent.toNat)

def ofFraction (negative : Bool) (num den : Nat) : Double :=
  let guess : Int := (Nat.log2 num : Int) - Nat.log2 den - 52
  let (n, d) := scale num den guess
  let normal := if n < d * leastNormal then guess - 1 else guess
  let exponent := max normal leastExponent
  let (n, d) := scale num den exponent
  let significand := roundDiv n d
  let (significand, exponent) :=
    if significand = 2 * leastNormal then (leastNormal, exponent + 1) else (significand, exponent)
  if greatestExponent < exponent then .infinite negative
  else .finite negative significand exponent

def ofDecimal (negative : Bool) (digits : Nat) (power : Int) : Double :=
  if digits = 0 then .finite negative 0 leastExponent
  else
    let magnitude := (Nat.log2 digits : Int) / 4 + power
    if 400 < magnitude then .infinite negative
    else if (Nat.log2 digits : Int) + power < -400 then .finite negative 0 leastExponent
    else if power < 0 then ofFraction negative digits (tenTo (-power).toNat)
    else ofFraction negative (digits * tenTo power.toNat) 1

/-- The integer that a double is equal to, if there is one. -/
def toInt? : Double → Option Int
  | .infinite _ | .nan => none
  | .finite negative significand exponent =>
    let signed (n : Nat) : Int := if negative then -n else n
    if 0 ≤ exponent then some (signed (significand <<< exponent.toNat))
    else
      let whole := significand >>> (-exponent).toNat
      if whole <<< (-exponent).toNat = significand then some (signed whole) else none

/-- The numbers that are rounded to a positive double, as bounds in units of a quarter of its last
place; the bounds themselves belong to it if its significand is even. -/
def bounds (significand : Nat) (exponent : Int) : Nat × Nat :=
  if significand = leastNormal ∧ leastExponent < exponent then
    (4 * significand - 1, 4 * significand + 2)
  else (4 * significand - 2, 4 * significand + 2)

def readsBack (significand : Nat) (exponent : Int) (digits : Nat) (power : Int) : Bool :=
  let (low, high) := bounds significand exponent
  let (n, d) := scale 1 1 (exponent - 2)
  let (n, d) := if power < 0 then (digits * n, tenTo (-power).toNat * d)
    else (digits * tenTo power.toNat * n, d)
  if significand % 2 = 0 then low * d ≤ n && n ≤ high * d else low * d < n && n < high * d

/-- The number of digits before the point of a positive fraction; zero or less if it is below
one tenth, one, … of one. -/
def pointOf (num den : Nat) : Int :=
  if den ≤ num then (Nat.toDigits 10 (num / den)).length
  else 1 - (((List.range 400).find? fun k => den ≤ num * tenTo (k + 1)).getD 0 + 1 : Int)

/-- The shortest digits that are rounded back to a positive double, with the place of the point
relative to their start. -/
def shortest (significand : Nat) (exponent : Int) : Nat × Int :=
  let (num, den) := scale significand 1 (-exponent)
  let point := pointOf num den
  let attempt (count : Nat) : Option (Nat × Int) :=
    let power := point - count
    let (n, d) := if power < 0 then (num * tenTo (-power).toNat, den)
      else (num, den * tenTo power.toNat)
    let nearest := roundDiv n d
    let candidates := [nearest, n / d, n / d + 1]
    (candidates.find? (readsBack significand exponent · power)).map (·, power)
  ((List.range 18).findSome? attempt).getD (0, 0)

/-- The text of a double: positional with at least one digit after the point when its value is at
least 10⁻⁴ and below 10¹⁶, else with an exponent of at least two digits. -/
def text : Double → String
  | .infinite negative => if negative then "-inf" else "inf"
  | .nan => "nan"
  | .finite negative significand exponent =>
    let sign := if negative then "-" else ""
    if significand = 0 then sign ++ "0.0"
    else
      let (digits, power) := shortest significand exponent
      let written := Nat.toDigits 10 digits
      let kept := (written.reverse.dropWhile (· = '0')).reverse
      let point : Int := written.length + power
      let body : List Char :=
        if -4 < point ∧ point ≤ 0 then
          '0' :: '.' :: List.replicate (-point).toNat '0' ++ kept
        else if 0 < point ∧ point ≤ 16 then
          let whole := kept.take point.toNat
          let tail := kept.drop point.toNat
          whole ++ List.replicate (point.toNat - whole.length) '0' ++ '.' ::
            (if tail = [] then ['0'] else tail)
        else
          let shift := point - 1
          let magnitude := Nat.toDigits 10 shift.natAbs
          let mantissa := match kept with
            | [] => []
            | [d] => [d]
            | d :: rest => d :: '.' :: rest
          mantissa ++ 'e' :: (if shift < 0 then '-' else '+') ::
            (if magnitude.length < 2 then '0' :: magnitude else magnitude)
      sign ++ String.ofList body

end Double

end SourceAtlas
