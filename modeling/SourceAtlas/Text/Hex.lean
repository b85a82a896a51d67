import SourceAtlas.Text.Utf8

/-! # Hexadecimal bytes

Bytes are written with two lower-case digits each; capital digits are read too.
-/

namespace SourceAtlas

def Hex.digit? (c : Char) : Option Nat :=
  if '0' ≤ c ∧ c ≤ '9' then some (c.toNat - '0'.toNat)
  else if 'a' ≤ c ∧ c ≤ 'f' then some (c.toNat - 'a'.toNat + 10)
  else if 'A' ≤ c ∧ c ≤ 'F' then some (c.toNat - 'A'.toNat + 10)
  else none

namespace Bytes

def toHex (bytes : Bytes) : String :=
  String.join (bytes.map Utf8.hex)

def ofDigits? : List Char → Option Bytes
  | [] => some []
  | [_] => none
  | high :: low :: rest =>
    match Hex.digit? high, Hex.digit? low, ofDigits? rest with
    | some high, some low, some bytes => some (UInt8.ofNat (16 * high + low) :: bytes)
    | _, _, _ => none

def ofHex? (text : String) : Option Bytes :=
  ofDigits? text.toList

end Bytes

end SourceAtlas
