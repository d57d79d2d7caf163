import MudEdit.Uri.Percent

/-!
# Tables of code points

What is known of the characters of names, as text. An entry is a code point, or a range
`first-last` of them; `first-last/2` has every second one of a range. What differs from
entry to entry follows after a colon. All numbers are hexadecimal, and blanks and line
ends stand between the entries.
-/

namespace MudEdit.Domain

/-- A range of code points, with what is said about it. -/
structure Entry where
  first : Nat
  last : Nat
  /-- The distance between the code points of the range that count. -/
  stride : Nat
  value : List Char

/-- The value of hexadecimal digits. -/
def hex (digits : List Char) : Nat :=
  digits.foldl (fun n c => n * 16 + (Percent.hexValue? c).getD 0) 0

/-- What stands before and after the first place of a mark. -/
def cut (mark : Char) (cs : List Char) : List Char × List Char :=
  (cs.takeWhile (· != mark), (cs.dropWhile (· != mark)).drop 1)

def Entry.ofText (text : List Char) : Entry :=
  let (place, value) := cut ':' text
  let (range, stride) := cut '/' place
  let (first, last) := cut '-' range
  ⟨hex first, if last.isEmpty then hex first else hex last,
    if stride.isEmpty then 1 else hex stride, value⟩

/-- The entries of a table. -/
def entries (table : String) : List Entry :=
  ((table.toList.splitOnP Char.isWhitespace).filter (!·.isEmpty)).map Entry.ofText

def Entry.covers (e : Entry) (code : Nat) : Bool :=
  e.first ≤ code && code ≤ e.last && (code - e.first) % e.stride == 0

/-- The entry of a character. -/
def entryOf (table : List Entry) (c : Char) : Option Entry := table.find? (·.covers c.toNat)

/-- Whether a character is in a table. -/
def isIn (table : List Entry) (c : Char) : Bool := (entryOf table c).isSome

/-- The numbers in a value, with dots between them. -/
def numbers (value : List Char) : List Nat := (value.splitOnP (· == '.')).map hex

end MudEdit.Domain
