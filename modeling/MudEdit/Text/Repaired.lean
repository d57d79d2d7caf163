/-!
# Text from damaged bytes

Bytes that should be UTF-8 but may be damaged. What is no character becomes a replacement
character, one for each stretch that could still have become a character.
-/

namespace MudEdit.Text

/-- What stands for bytes that are no character. -/
def replacement : Char := '\uFFFD'

/--
How many bytes follow a first byte, and the bounds of the second. They leave out what
could be written in fewer bytes, and the surrogates.
-/
def leads? (b : UInt8) : Option (Nat × UInt8 × UInt8) :=
  if 0xC2 ≤ b ∧ b ≤ 0xDF then some (1, 0x80, 0xBF)
  else if b = 0xE0 then some (2, 0xA0, 0xBF)
  else if b = 0xED then some (2, 0x80, 0x9F)
  else if 0xE1 ≤ b ∧ b ≤ 0xEF then some (2, 0x80, 0xBF)
  else if b = 0xF0 then some (3, 0x90, 0xBF)
  else if 0xF1 ≤ b ∧ b ≤ 0xF3 then some (3, 0x80, 0xBF)
  else if b = 0xF4 then some (3, 0x80, 0x8F)
  else none

/-- The bytes of one character, or of a stretch that is none, after its first byte. -/
def following (count : Nat) (low high : UInt8) : List UInt8 → List UInt8
  | [] => []
  | b :: rest =>
    match count with
    | 0 => []
    | count + 1 =>
      if low ≤ b ∧ b ≤ high then b :: following count 0x80 0xBF rest else []

/-- The value of a character with all its bytes there; the first one carries its own bits. -/
def scalar (first : Nat) (following : List UInt8) : Nat :=
  following.foldl (fun n b => n * 64 + (b.toNat - 0x80)) first

/-- The bits of the character in the first of so many bytes. -/
def firstBits (b : UInt8) : Nat → Nat
  | 1 => b.toNat - 0xC0
  | 2 => b.toNat - 0xE0
  | _ => b.toNat - 0xF0

/-- The text of the bytes, repaired where they are damaged. -/
def repaired (bytes : List UInt8) : List Char :=
  match bytes with
  | [] => []
  | b :: rest =>
    if b < 0x80 then Char.ofNat b.toNat :: repaired rest
    else
      match leads? b with
      | none => replacement :: repaired rest
      | some (count, low, high) =>
        let more := following count low high rest
        if more.length = count then
          Char.ofNat (scalar (firstBits b count) more) :: repaired (rest.drop more.length)
        else replacement :: repaired (rest.drop more.length)
termination_by bytes.length
decreasing_by all_goals simp only [List.length_cons, List.length_drop]; omega

end MudEdit.Text
