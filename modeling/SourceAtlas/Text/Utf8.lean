/-! # UTF-8

Bytes are read as a run of pieces. A piece is one encoded character or one maximal ill-formed
part: the longest start of a character that the next byte rules out, or a single byte that can
start none. A strict reading stops at the first broken piece and says where it lies; a lenient
reading counts every piece as one character.
-/

namespace SourceAtlas

abbrev Bytes := List UInt8

/-- The bytes from one offset up to another; an offset below zero counts from the end, and one
that is out of reach is moved to the nearer end. -/
def Bytes.slice (bytes : Bytes) (start stop : Int) : Bytes :=
  let bound (i : Int) : Nat := if i < 0 then (i + bytes.length).toNat else i.toNat
  (bytes.take (bound stop)).drop (bound start)

namespace Utf8

def encode (text : String) : Bytes :=
  text.toList.flatMap String.utf8EncodeChar

inductive Fault where
  | startByte
  | continuationByte
  | endOfData
deriving DecidableEq, Repr

/-- A character or an ill-formed part, with the number of bytes after its first. -/
inductive Piece where
  | scalar (char : Char) (following : Nat)
  | broken (first : UInt8) (fault : Fault) (following : Nat)
deriving DecidableEq, Repr

/-- What the first byte of a character promises: the number of bytes that follow, the range of
the second byte, and its own share of the code point. -/
structure Lead where
  following : Nat
  low : UInt8
  high : UInt8
  bits : Nat
deriving DecidableEq, Repr

/-- The ranges of the second byte leave out overlong forms, surrogates and code points above
U+10FFFF. -/
def lead? (b : UInt8) : Option Lead :=
  if b < 0x80 then some ⟨0, 0x80, 0xBF, b.toNat⟩
  else if b < 0xC2 then none
  else if b < 0xE0 then some ⟨1, 0x80, 0xBF, b.toNat - 0xC0⟩
  else if b = 0xE0 then some ⟨2, 0xA0, 0xBF, 0⟩
  else if b = 0xED then some ⟨2, 0x80, 0x9F, 13⟩
  else if b < 0xF0 then some ⟨2, 0x80, 0xBF, b.toNat - 0xE0⟩
  else if b = 0xF0 then some ⟨3, 0x90, 0xBF, 0⟩
  else if b < 0xF4 then some ⟨3, 0x80, 0xBF, b.toNat - 0xF0⟩
  else if b = 0xF4 then some ⟨3, 0x80, 0x8F, 4⟩
  else none

/-- Reads the bytes that a started character still owes, the next one between `low` and
`high`; `taken` of them are read and `bits` is the code point so far. -/
def complete (first low high : UInt8) : (owed taken bits : Nat) → Bytes → Piece
  | 0, taken, bits, _ => .scalar (Char.ofNat bits) taken
  | _ + 1, taken, _, [] => .broken first .endOfData taken
  | owed + 1, taken, bits, b :: rest =>
    if low ≤ b ∧ b ≤ high then
      complete first 0x80 0xBF owed (taken + 1) (bits * 64 + (b.toNat - 0x80)) rest
    else .broken first .continuationByte taken

def piece (b : UInt8) (rest : Bytes) : Piece :=
  match lead? b with
  | none => .broken b .startByte 0
  | some lead => complete b lead.low lead.high lead.following 0 lead.bits rest

namespace Piece

def following : Piece → Nat
  | scalar _ n => n
  | broken _ _ n => n

def size (p : Piece) : Nat :=
  p.following + 1

end Piece

def pieces : Bytes → List Piece
  | [] => []
  | b :: rest => piece b rest :: pieces (rest.drop (piece b rest).following)
termination_by bytes => bytes.length

structure Malformed where
  offset : Nat
  first : UInt8
  size : Nat
  fault : Fault
deriving DecidableEq, Repr

/-- The characters of a run of pieces that starts at `offset`, if none is broken. -/
def gather (offset : Nat) : List Piece → Except Malformed (List Char)
  | [] => .ok []
  | .scalar c n :: rest => (gather (offset + n + 1) rest).map (c :: ·)
  | .broken b fault n :: _ => .error ⟨offset, b, n + 1, fault⟩

def decode (bytes : Bytes) : Except Malformed String :=
  (gather 0 (pieces bytes)).map String.ofList

/-- The number of characters of a lenient reading, a replacement character for each ill-formed
part. -/
def lenientLength (bytes : Bytes) : Nat :=
  (pieces bytes).length

def Fault.message : Fault → String
  | .startByte => "invalid start byte"
  | .continuationByte => "invalid continuation byte"
  | .endOfData => "unexpected end of data"

def hex (b : UInt8) : String :=
  String.ofList [Nat.digitChar (b.toNat / 16), Nat.digitChar (b.toNat % 16)]

/-- A part of one byte is named by its value, a longer one by the positions it covers. -/
def Malformed.message (m : Malformed) : String :=
  let place :=
    if m.size = 1 then "byte 0x" ++ hex m.first ++ " in position " ++ toString m.offset
    else "bytes in position " ++ toString m.offset ++ "-" ++ toString (m.offset + m.size - 1)
  "'utf-8' codec can't decode " ++ place ++ ": " ++ m.fault.message

end Utf8

end SourceAtlas
