import MudEdit.Text.Stream

/-!
# Lines and columns

Messages count lines and columns from one and columns in characters. Editors count
from zero and columns in UTF-16 units, of which a character beyond the basic plane
takes two. A text is cut into its lines once; an offset then belongs to the last line
that starts at or before it, and what is past the end of a line belongs to its end.
-/

namespace MudEdit.Text

/-- UTF-16 units of a character. -/
def units (c : Char) : Nat := if c.toNat < 0x10000 then 1 else 2

/-- UTF-16 units of a text. -/
def unitCount (cs : List Char) : Nat := cs.foldr (fun c n => units c + n) 0

/-- A line of a text, without its newline. -/
structure Line where
  start : Nat
  chars : List Char
  deriving Inhabited

/-- The lines of a text: the first one, and those after its newline. -/
structure Lines where
  first : Line
  rest : List Line

namespace Lines

/-- The lines of a text that starts at an offset. -/
def cut (start : Nat) : List Char → Lines
  | [] => ⟨⟨start, []⟩, []⟩
  | c :: cs =>
    let ⟨first, rest⟩ := cut (start + c.utf8Size) cs
    if c = '\n' then ⟨⟨start, []⟩, first :: rest⟩ else ⟨⟨start, c :: first.chars⟩, rest⟩

def ofString (text : String) : Lines := cut 0 text.toList

def all (l : Lines) : List Line := l.first :: l.rest

/-- The line that an offset belongs to and its number, from a line and those after it. -/
def seek (offset number : Nat) (line : Line) : List Line → Nat × Line
  | [] => (number, line)
  | next :: rest =>
    if next.start ≤ offset then seek offset (number + 1) next rest else (number, line)

/-- The line that an offset belongs to, and its number from zero. -/
def lineAt (l : Lines) (offset : Nat) : Nat × Line := seek offset 0 l.first l.rest

/-- The part of a line before an offset. -/
def Line.upTo (line : Line) (offset : Nat) : List Char :=
  line.chars.take (charsWithin (offset - line.start) line.chars)

/-- Where a line ends, before its newline. -/
def Line.stop (line : Line) : Nat := line.start + byteSize line.chars

/-- Line and column from one, in characters. -/
def position (l : Lines) (offset : Nat) : Nat × Nat :=
  let (number, line) := l.lineAt offset
  (number + 1, (Line.upTo line offset).length + 1)

/-- Line and column from zero, in UTF-16 units. -/
def unitPosition (l : Lines) (offset : Nat) : Nat × Nat :=
  let (number, line) := l.lineAt offset
  (number, unitCount (Line.upTo line offset))

/-- The bytes of the fewest characters that have so many UTF-16 units, or of all. -/
def bytesForUnits : Nat → List Char → Nat
  | 0, _ => 0
  | _, [] => 0
  | n, c :: cs => c.utf8Size + bytesForUnits (n - units c) cs

/-- Bytes in the whole text. -/
def size (l : Lines) : Nat :=
  let last := l.rest.getLast?.getD l.first
  last.start + byteSize last.chars

/--
The offset of a line and a column in UTF-16 units, both from zero. A column inside a
character is after it, one beyond the line is its end, and a line beyond the text is
the end of the text.
-/
def offsetAt (l : Lines) (number column : Nat) : Nat :=
  match l.all[number]? with
  | some line => line.start + bytesForUnits column line.chars
  | none => l.size

/-- Where the line ends that an offset belongs to. -/
def lineEnd (l : Lines) (offset : Nat) : Nat := Line.stop (l.lineAt offset).2

end Lines

/-- A stretch of text from one line and column to another, from zero and in UTF-16 units. -/
structure Range where
  start : Nat × Nat
  stop : Nat × Nat
  deriving DecidableEq, Repr, Inhabited

/-- The stretch from one offset to another. -/
def Lines.range (l : Lines) (begin stop : Nat) : Range :=
  ⟨l.unitPosition begin, l.unitPosition stop⟩

/-- A stretch of text within a line, in UTF-16 units. -/
structure Piece where
  line : Nat
  start : Nat
  length : Nat
  deriving DecidableEq, Repr, Inhabited

namespace Lines

/-- What is in a line of the text from one offset to another, with the number of the line. -/
def pieceOf (begin stop : Nat) (line : Line) (number : Nat) : Piece :=
  let start := unitCount (Line.upTo line begin)
  ⟨number, start, unitCount (Line.upTo line stop) - start⟩

/--
The lines with something between two offsets and their numbers, from a line and those
after it.
-/
def between (begin stop number : Nat) (line : Line) : List Line → List (Nat × Line)
  | [] => if line.start < stop then [(number, line)] else []
  | next :: rest =>
    if next.start ≤ begin then between begin stop (number + 1) next rest
    else if line.start < stop then (number, line) :: between begin stop (number + 1) next rest
    else []

/-- The text from one offset to another, line by line and without empty pieces. -/
def pieces (l : Lines) (begin stop : Nat) : List Piece :=
  ((between begin stop 0 l.first l.rest).map fun (number, line) =>
    pieceOf begin stop line number).filter (0 < ·.length)

end Lines

end MudEdit.Text
