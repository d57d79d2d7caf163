/-!
# Source text read from left to right

Offsets into source text are byte offsets into its UTF-8 form, while reading
goes character by character. A `Stream` keeps the two in step: it is a cursor
between the characters already read and those still ahead, together with its
byte offset. The offset is tied to the characters by a proof field, so a cursor
is always on a character boundary and never beyond the text.
-/

namespace MudEdit.Text

/-- Bytes that the characters take in UTF-8. -/
def byteSize : List Char → Nat
  | [] => 0
  | c :: cs => c.utf8Size + byteSize cs

@[simp] theorem byteSize_nil : byteSize [] = 0 := rfl

@[simp] theorem byteSize_cons (c : Char) (cs : List Char) :
    byteSize (c :: cs) = c.utf8Size + byteSize cs := rfl

@[simp] theorem byteSize_append (a b : List Char) :
    byteSize (a ++ b) = byteSize a + byteSize b := by
  induction a with
  | nil => simp
  | cons c cs ih => simp [ih, Nat.add_assoc]

@[simp] theorem byteSize_reverse (a : List Char) : byteSize a.reverse = byteSize a := by
  induction a with
  | nil => rfl
  | cons c cs ih => simp [ih, Nat.add_comm]

/-- The leading characters that fit into `n` bytes. -/
def charsWithin : Nat → List Char → Nat
  | _, [] => 0
  | n, c :: cs => if c.utf8Size ≤ n then charsWithin (n - c.utf8Size) cs + 1 else 0

/-- The text cut after `n` bytes, if that is a character boundary. -/
def splitBytes? : Nat → List Char → Option (List Char × List Char)
  | 0, cs => some ([], cs)
  | _ + 1, [] => none
  | n + 1, c :: cs =>
    if c.utf8Size ≤ n + 1 then
      (splitBytes? (n + 1 - c.utf8Size) cs).map fun (head, tail) => (c :: head, tail)
    else none

/-- The text between two byte offsets, if both are character boundaries in order. -/
def slice? (cs : List Char) (begin stop : Nat) : Option (List Char) := do
  let (upTo, _) ← splitBytes? stop cs
  let (_, cut) ← splitBytes? begin upTo
  return cut

/-- Where `literal` first occurs, counted in characters. -/
def occurrence? (literal : List Char) : List Char → Option Nat
  | [] => if literal.isEmpty then some 0 else none
  | c :: cs =>
    if literal.isPrefixOf (c :: cs) then some 0 else (occurrence? literal cs).map (· + 1)

/-- A cursor in source text: what lies behind it (nearest first) and what lies ahead. -/
structure Stream where
  before : List Char
  after : List Char
  position : Nat
  position_eq : position = byteSize before

namespace Stream

/-- A cursor at the start of the text. -/
def ofList (cs : List Char) : Stream := ⟨[], cs, 0, rfl⟩

/-- A cursor at the start of the text. -/
def ofString (text : String) : Stream := ofList text.toList

/-- The whole text, whatever the cursor. -/
def chars (s : Stream) : List Char := s.before.reverse ++ s.after

/-- Bytes in the whole text. -/
def size (s : Stream) : Nat := s.position + byteSize s.after

def isEmpty (s : Stream) : Bool := s.before.isEmpty && s.after.isEmpty

def atEnd (s : Stream) : Bool := s.after.isEmpty

def peek (s : Stream) : Option Char := s.after.head?

/-- The character `n` places ahead; `0` is the next one. -/
def peekNth (s : Stream) (n : Nat) : Option Char := s.after[n]?

def startsWith (s : Stream) (literal : List Char) : Bool := literal.isPrefixOf s.after

/-- Past one character, or where it was at the end of the text. -/
def skip (s : Stream) : Stream :=
  match s.after with
  | [] => s
  | c :: cs => ⟨c :: s.before, cs, s.position + c.utf8Size, by simp [s.position_eq, Nat.add_comm]⟩

/-- Past `n` characters, or as many as there are. -/
def forward : Nat → Stream → Stream
  | 0, s => s
  | n + 1, s => if s.atEnd then s else forward n s.skip

/-- The next character, and the cursor past it. -/
def advance (s : Stream) : Option Char × Stream := (s.peek, s.skip)

/-- Past up to `count` characters; also says how many there were. -/
def advanceBy (s : Stream) (count : Nat) : Nat × Stream :=
  (min count s.after.length, s.forward count)

/-- Past the longest run of characters with the property; also gives the run. -/
def advanceWhile (s : Stream) (p : Char → Bool) : List Char × Stream :=
  let run := s.after.takeWhile p
  (run, s.forward run.length)

/-- To the end of the text. -/
def toEnd (s : Stream) : Stream := s.forward s.after.length

/-- Past the next occurrence of `literal`; to the end of the text if there is none. -/
def skipPast (s : Stream) (literal : List Char) : Bool × Stream :=
  match occurrence? literal s.after with
  | some n => (true, s.forward (n + literal.length))
  | none => (false, s.toEnd)

/-- To the greatest character boundary not above `offset`. -/
def reset (s : Stream) (offset : Nat) : Stream :=
  (ofList s.chars).forward (charsWithin offset s.chars)

/--
The text between two byte offsets, both clamped to the text and the first to the
second. Nothing, when one of them is inside a character.
-/
def slice (s : Stream) (begin stop : Nat) : List Char :=
  let stop := min stop s.size
  (slice? s.chars (min begin stop) stop).getD []

end Stream

end MudEdit.Text
