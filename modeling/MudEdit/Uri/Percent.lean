import MudEdit.Text.Repaired

/-!
# Percent encoding

Bytes written as a percent sign and two hexadecimal digits. What is not ASCII is always
written so, and of ASCII what a set names. Reading takes any such triple for its byte
and everything else as it stands.
-/

namespace MudEdit.Percent

def hexDigits : List Char := "0123456789ABCDEF".toList

/-- A byte in percent encoding. -/
def triple (b : UInt8) : List Char :=
  ['%', hexDigits.getD (b.toNat / 16) '0', hexDigits.getD (b.toNat % 16) '0']

/-- A character in percent encoding, each of its bytes on its own. -/
def encodeChar (c : Char) : List Char := (String.utf8EncodeChar c).flatMap triple

/-- The text with what is not ASCII or in the set in percent encoding. -/
def encode (set : Char → Bool) (cs : List Char) : List Char :=
  cs.flatMap fun c => if 0x7F < c.toNat || set c then encodeChar c else [c]

def hexValue? (c : Char) : Option Nat :=
  if c.isDigit then some (c.toNat - '0'.toNat)
  else if 'a' ≤ c ∧ c ≤ 'f' then some (c.toNat - 'a'.toNat + 10)
  else if 'A' ≤ c ∧ c ≤ 'F' then some (c.toNat - 'A'.toNat + 10)
  else none

/-- The byte that two characters after a percent sign stand for. -/
def byte? (high low : Char) : Option UInt8 := do
  return ((← hexValue? high) * 16 + (← hexValue? low)).toUInt8

/-- The bytes that a text in percent encoding stands for. -/
def decodeBytes : List Char → List UInt8
  | '%' :: high :: low :: rest =>
    match byte? high low with
    | some b => b :: decodeBytes rest
    | none => String.utf8EncodeChar '%' ++ decodeBytes (high :: low :: rest)
  | c :: rest => String.utf8EncodeChar c ++ decodeBytes rest
  | [] => []

/-- The text that a text in percent encoding stands for. -/
def decode (cs : List Char) : List Char := Text.repaired (decodeBytes cs)

/-! ## Sets of characters -/

/-- What is a control character. -/
def controls (c : Char) : Bool := c.toNat < 0x20 || c.toNat = 0x7F

/-- What cannot stand in a fragment. -/
def inFragment (c : Char) : Bool := controls c || " \"<>\x60".toList.contains c

/-- What cannot stand in a path. -/
def inPath (c : Char) : Bool := inFragment c || "#?\x7b\x7d".toList.contains c

/-- What cannot stand in a query. -/
def inQuery (c : Char) : Bool := controls c || " \"<>#".toList.contains c

/-- What cannot stand in the query of a scheme with a host. -/
def inHostedQuery (c : Char) : Bool := inQuery c || c == '\''

end MudEdit.Percent
