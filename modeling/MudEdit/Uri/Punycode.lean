import MudEdit.Uri.Percent

/-!
# Punycode

Text in ASCII letters, digits and hyphens that stands for any text: the ASCII characters
of that text, a hyphen if there are any, and then the other characters as numbers, from
the least to the greatest. A number says how far to go on from the last character that
was put in, where one goes through all places of the text for each code point. It is
written in base 36 with the least digit first, and ends at the first digit below a
threshold; what the thresholds are, depends on the numbers before.
-/

namespace MudEdit.Punycode

/-- Numbers from here on are too large. -/
def limit : Nat := Nat.pow 2 32

/-- The digits from here on go on, in the given place of a number. -/
def threshold (place bias : Nat) : Nat := min 26 (max 1 (36 * (place + 1) - bias))

theorem threshold_pos (place bias : Nat) : 1 ≤ threshold place bias := by
  unfold threshold; omega

/-- The bias that suits numbers of about this size. -/
def biasOf (size : Nat) : Nat :=
  if 455 < size then 36 + biasOf (size / 35) else 36 * size / (size + 38)
termination_by size
decreasing_by exact Nat.div_lt_self (by omega) (by omega)

/-- The bias after a number by which a text grew to the given length. -/
def adapt (number length : Nat) (isFirst : Bool) : Nat :=
  let size := if isFirst then number / 700 else number / 2
  biasOf (size + size / length)

/-! ## Reading -/

/-- What was read of a text. -/
structure Decoding where
  text : List Char
  /-- The code point of the last character that was put in. -/
  code : Nat
  /-- The place after it. -/
  place : Nat
  bias : Nat
  /-- How many digits of the next number were read, and their value with its next weight. -/
  digits : Nat
  number : Nat
  weight : Nat

/-- The reading when only the ASCII characters are there. -/
def Decoding.start (ascii : List Char) : Decoding := ⟨ascii, 128, 0, 72, 0, 0, 1⟩

/-- Puts in the character that a number stands for. -/
def Decoding.insert? (r : Decoding) (number : Nat) : Option Decoding :=
  let length := r.text.length + 1
  let code := r.code + (r.place + number) / length
  let place := (r.place + number) % length
  if code.isValidChar then
    some ⟨r.text.insertIdx place (Char.ofNat code), code, place + 1,
      adapt number length (r.place == 0), 0, 0, 1⟩
  else none

/-- Reads a digit. -/
def Decoding.next? (r : Decoding) (digit : Nat) : Option Decoding :=
  let number := r.number + digit * r.weight
  let least := threshold r.digits r.bias
  let weight := r.weight * (36 - least)
  if limit ≤ r.place + number then none
  else if digit < least then r.insert? number
  else if limit ≤ weight then none
  else some { r with digits := r.digits + 1, number, weight }

def digit? (c : Char) : Option Nat :=
  if c.isDigit then some (c.toNat - '0'.toNat + 26)
  else if c.isAlpha then some (c.toLower.toNat - 'a'.toNat)
  else none

/-- The text that a text stands for. -/
def decode? (cs : List Char) : Option (List Char) := do
  let coded := (cs.reverse.takeWhile (· != '-')).reverse
  let ascii := cs.take (cs.length - coded.length - 1)
  if ascii.isEmpty && cs.contains '-' then none
  let digits ← coded.mapM digit?
  let r ← digits.foldlM Decoding.next? (.start ascii)
  if r.digits = 0 then some r.text else none

/-! ## Writing -/

def digit (n : Nat) : Char := Char.ofNat (if n < 26 then 'a'.toNat + n else '0'.toNat + n - 26)

/-- The digits of a number from a place on. -/
def digits (bias place number : Nat) : List Char :=
  let least := threshold place bias
  if number < least then [digit number]
  else
    digit (least + (number - least) % (36 - least)) ::
      digits bias (place + 1) ((number - least) / (36 - least))
termination_by number
decreasing_by
  have pos := threshold_pos place bias
  exact Nat.lt_of_le_of_lt (Nat.div_le_self _ _) (by omega)

/-- What was written of a text: how many of its characters, and what one goes on by. -/
structure Encoding where
  text : List Char
  written : Nat
  bias : Nat
  number : Nat

/-- Passes by a character of the text while the characters of one code point are written. -/
def Encoding.pass (ascii code : Nat) (w : Encoding) (c : Char) : Encoding :=
  if c.toNat < code then { w with number := w.number + 1 }
  else if c.toNat = code then
    ⟨w.text ++ digits w.bias 0 w.number, w.written + 1,
      adapt w.number (w.written + 1) (w.written == ascii), 0⟩
  else w

/-- Writes the characters of the code points, which are in order, after one before them. -/
def Encoding.go (cs : List Char) (ascii : Nat) (w : Encoding) (before : Nat) : List Nat → Encoding
  | [] => w
  | code :: codes =>
    let gone := { w with number := w.number + (code - before) * (w.written + 1) }
    let passed := cs.foldl (Encoding.pass ascii code) gone
    Encoding.go cs ascii { passed with number := passed.number + 1 } (code + 1) codes

/-- A text that stands for the given one. -/
def encode (cs : List Char) : List Char :=
  let ascii := cs.filter (·.toNat < 128)
  let codes := ((cs.map Char.toNat).filter (128 ≤ ·)).mergeSort.eraseDups
  let start := if ascii.isEmpty then [] else ascii ++ ['-']
  (Encoding.go cs ascii.length ⟨start, ascii.length, 72, 0⟩ 128 codes).text

end MudEdit.Punycode
