import MudEdit.Number.Binary64

/-!
# The shortest decimal of a binary64 number

A number is written with the fewest digits that read back as the same number, and
with the nearest such digits. The search goes through the decimal grids from coarse
to fine: on each, only the two neighbours of the number can be nearest, and the
first grid on which one of them reads back has the fewest digits.

Two layouts of those digits are used. Plain text is always positional and drops the
point of a whole number. JSON keeps `.0` and turns to an exponent for very large and
very small numbers. Halfway between two neighbours, plain text takes the greater, and
JSON the one that ends in an even digit.
-/

namespace MudEdit.Number

/-- The decimal `digits · 10 ^ exponent`. -/
structure Decimal where
  digits : Nat
  exponent : Int
  deriving DecidableEq, Repr, Inhabited

namespace Decimal

/-- Which of two neighbours stands for what is halfway between them. -/
inductive Halfway where
  | greater
  | even
  deriving DecidableEq, Repr, Inhabited

/-- A value between two others, over one common denominator, ends included or not. -/
structure Window where
  low : Nat
  value : Nat
  high : Nat
  denominator : Nat
  closed : Bool

/-- The reals that round to `significand · 2 ^ exponent`, ends included for even ones. -/
def Window.of (significand : Nat) (exponent : Int) : Window :=
  let below :=
    if significand = Nat.pow 2 52 && Binary64.leastExponent < exponent then 1 else 2
  let scale := Nat.pow 2 (exponent - 2).toNat
  { low := (4 * significand - below) * scale
    value := 4 * significand * scale
    high := (4 * significand + 2) * scale
    denominator := Nat.pow 2 (2 - exponent).toNat
    closed := significand % 2 == 0 }

/-- The window with its values divided by `10 ^ p`. -/
def Window.inUnitsOf (w : Window) (p : Int) : Window :=
  let up := Nat.pow 10 (-p).toNat
  { w with
    low := w.low * up
    value := w.value * up
    high := w.high * up
    denominator := w.denominator * Nat.pow 10 p.toNat }

/-- Whether the natural number `k` is in the window. -/
def Window.admits (w : Window) (k : Nat) : Bool :=
  let x := k * w.denominator
  if w.closed then w.low ≤ x && x ≤ w.high else w.low < x && x < w.high

/-- Whether the lower of two neighbours is taken for what lies `rest` above it. -/
def Halfway.takesLower (halfway : Halfway) (lower rest gap : Nat) : Bool :=
  2 * rest < gap || halfway == .even && 2 * rest == gap && lower % 2 == 0

/-- The natural number nearest to the value in the window. -/
def Window.nearest? (w : Window) (halfway : Halfway) : Option Nat :=
  let k := w.value / w.denominator
  let rest := w.value - k * w.denominator
  match w.admits k, w.admits (k + 1) with
  | true, true => some (if halfway.takesLower k rest w.denominator then k else k + 1)
  | true, false => some k
  | false, true => some (k + 1)
  | false, false => none

/-- The first hit on the grids `10 ^ p`, `10 ^ (p - 1)`, …, of which `steps` are tried. -/
def search (w : Window) (halfway : Halfway) : (steps : Nat) → (p : Int) → Decimal
  | 0, p => ⟨(w.inUnitsOf p).value / (w.inUnitsOf p).denominator, p⟩
  | steps + 1, p =>
    match (w.inUnitsOf p).nearest? halfway with
    | some k => ⟨k, p⟩
    | none => search w halfway steps (p - 1)

/-- The shortest decimal that reads back as the number with this significand and exponent. -/
def shortest (halfway : Halfway) (significand : Nat) (exponent : Int) : Decimal :=
  if significand = 0 then ⟨0, 0⟩ else
  let top := ((significand.log2 : Int) + exponent + 1) * 30103 / 100000 + 1
  search (Window.of significand exponent) halfway 24 top

/-- Digits and where the decimal point stands: after that many of them. -/
def layout (d : Decimal) : List Char × Int :=
  let digits := Nat.toDigits 10 d.digits
  (digits, (digits.length : Int) + d.exponent)

/-- Positional text; `whole` ends the text of a whole number. -/
def positional (d : Decimal) (whole : String) : String :=
  let (digits, point) := d.layout
  let zeros (n : Nat) := List.replicate n '0'
  if point ≤ 0 then String.ofList ('0' :: '.' :: zeros (-point).toNat ++ digits)
  else if (digits.length : Int) ≤ point then
    String.ofList (digits ++ zeros (point.toNat - digits.length)) ++ whole
  else String.ofList (digits.take point.toNat ++ '.' :: digits.drop point.toNat)

/-- One digit before the point, and the exponent with its sign. -/
def scientific (d : Decimal) : String :=
  let (digits, point) := d.layout
  let fraction := digits.drop 1
  let exponent := point - 1
  String.ofList (digits.take 1 ++ if fraction.isEmpty then [] else '.' :: fraction) ++ "e" ++
    (if exponent < 0 then "-" else "+") ++ toString exponent.natAbs

/-- JSON text: positional from `10⁻⁵` up to below `10¹⁶`. -/
def json (d : Decimal) : String :=
  let exponent := d.layout.2 - 1
  if -5 ≤ exponent && exponent ≤ 15 then d.positional ".0" else d.scientific

end Decimal

namespace Binary64

/-- Plain text: the shortest digits, always positional. -/
def text : Binary64 → String
  | .infinite => "inf"
  | .finite 0 _ => "0"
  | .finite m e => (Decimal.shortest .greater m e).positional ""

/-- JSON text; infinity has none. -/
def json? : Binary64 → Option String
  | .infinite => none
  | .finite 0 _ => some "0.0"
  | .finite m e => some (Decimal.shortest .even m e).json

end Binary64

end MudEdit.Number
