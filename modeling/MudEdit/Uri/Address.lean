import MudEdit.Uri.Percent

/-!
# Numeric addresses

A host may be given by its number. An address of 32 bits is one to four numbers with
dots between them, each for one byte except that the last stands for all bytes that are
left; it is shown as four decimal numbers. An address of 128 bits is eight pieces of 16
bits in hexadecimal with colons between them, of which the last two may be an address of
32 bits, and where a run of zeros may be left out between two colons; it is shown with
the longest run left out.
-/

namespace MudEdit.Address

/-- The value of digits in a base up to 16. -/
def value? (base : Nat) (digits : List Char) : Option Nat :=
  digits.foldlM (fun n c => ((Percent.hexValue? c).filter (· < base)).map (n * base + ·)) 0

/-! ## Addresses of 32 bits -/

/-- A number as an address has it: hexadecimal after `0x`, and octal after another `0`. -/
def number? (cs : List Char) : Option Nat :=
  match cs with
  | [] => none
  | '0' :: mark :: digits =>
    if mark == 'x' || mark == 'X' then value? 16 digits else value? 8 (mark :: digits)
  | digits => value? 10 digits

/-- What stands between the dots of a name, which may have another one at its end. -/
def parts (name : List Char) : List (List Char) :=
  let all := name.splitOnP (· == '.')
  if 1 < all.length && all.getLast? == some [] then all.dropLast else all

/-- Whether a name ends like an address of 32 bits, and so has to be one. -/
def endsInNumber (name : List Char) : Bool :=
  (parts name).getLast?.any fun last =>
    (number? last).isSome || (!last.isEmpty && last.all Char.isDigit)

/-- The address of 32 bits that is written as the name. -/
def short? (name : List Char) : Option Nat := do
  let numbers ← (parts name).mapM number?
  let last ← numbers.getLast?
  let bytes := numbers.dropLast
  let room := Nat.pow 256 (4 - bytes.length)
  if bytes.length < 4 && bytes.all (· < 256) && last < room then
    some (bytes.foldl (· * 256 + ·) 0 * room + last)
  else none

/-- An address of 32 bits in its normal form. -/
def shortText (address : Nat) : String :=
  String.intercalate "." ([3, 2, 1, 0].map fun i => toString (address / Nat.pow 256 i % 256))

/-! ## Addresses of 128 bits -/

def piece? (cs : List Char) : Option Nat :=
  if cs.isEmpty || 4 < cs.length then none else value? 16 cs

/-- A byte in decimal, without zeros in front. -/
def byte? (cs : List Char) : Option Nat :=
  if cs.isEmpty || (1 < cs.length && cs.head? == some '0') then none
  else (value? 10 cs).filter (· < 256)

/-- The two pieces that four bytes with dots between them are. -/
def dotted? (cs : List Char) : Option (List Nat) := do
  match ← (cs.splitOnP (· == '.')).mapM byte? with
  | [a, b, c, d] => some [a * 256 + b, c * 256 + d]
  | _ => none

/-- The pieces of a part; the last ones may have dots. -/
def pieces? (mayHaveDots : Bool) : List (List Char) → Option (List Nat)
  | [] => some []
  | [last] =>
    if mayHaveDots && last.contains '.' then dotted? last else (piece? last).map ([·])
  | piece :: rest => do return (← piece? piece) :: (← pieces? mayHaveDots rest)

/-- What stands before and after the first two colons in a row. -/
def splitGap? : List Char → Option (List Char × List Char)
  | ':' :: ':' :: after => some ([], after)
  | c :: rest => (splitGap? rest).map fun (before, after) => (c :: before, after)
  | [] => none

/-- What stands between the colons of a part. -/
def groups (cs : List Char) : List (List Char) :=
  if cs.isEmpty then [] else cs.splitOnP (· == ':')

/-- The pieces of the address of 128 bits that is written in brackets. -/
def long? (cs : List Char) : Option (List Nat) := do
  match splitGap? cs with
  | some (before, after) =>
    let high ← pieces? false (groups before)
    let low ← pieces? true (groups after)
    let given := high.length + low.length
    if given < 8 then some (high ++ List.replicate (8 - given) 0 ++ low) else none
  | none =>
    let all ← pieces? true (groups cs)
    if all.length = 8 then some all else none

/-- How many zeros there are in a row, from a piece on. -/
def zerosFrom (pieces : List Nat) (i : Nat) : Nat := ((pieces.drop i).takeWhile (· == 0)).length

/-- Where the longest run of zeros starts; of equally long ones, the first. -/
def longestZeros (pieces : List Nat) : Nat :=
  (List.range pieces.length).foldl
    (fun best i => if zerosFrom pieces best < zerosFrom pieces i then i else best) 0

/-- An address of 128 bits in its normal form. A single zero is not left out. -/
def longText (pieces : List Nat) : String :=
  let joined (ps : List Nat) : String :=
    String.intercalate ":" (ps.map fun p => String.ofList (Nat.toDigits 16 p))
  let start := longestZeros pieces
  let zeros := zerosFrom pieces start
  if zeros < 2 then joined pieces
  else joined (pieces.take start) ++ "::" ++ joined (pieces.drop (start + zeros))

end MudEdit.Address
