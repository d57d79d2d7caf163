import MudEdit.Text.Escaped

/-!
# Text in quotes

How a message shows a string or a character that comes from source text: in quotes,
with the usual escapes for line ends, tabs, NUL, the backslash and the quote itself,
and with `\u` and the number in hexadecimal for what would not be seen.
-/

namespace MudEdit.Text

/-- The character's number between braces. -/
def numbered (c : Char) : List Char :=
  '\\' :: 'u' :: '\x7b' :: (Nat.toDigits 16 c.toNat ++ ['\x7d'])

/-- One character of a text between two of the given quotes. -/
def quotedChar (quote c : Char) : List Char :=
  if c = quote then ['\\', c]
  else
    match c with
    | '\n' => ['\\', 'n']
    | '\r' => ['\\', 'r']
    | '\t' => ['\\', 't']
    | '\x00' => ['\\', '0']
    | '\\' => ['\\', '\\']
    | c => if isEscaped c then numbered c else [c]

/-- A string in double quotes. -/
def quoted (s : String) : String :=
  String.ofList ('\x22' :: (s.toList.flatMap (quotedChar '\x22') ++ ['\x22']))

/-- A character in single quotes. -/
def quotedCharacter (c : Char) : String :=
  String.ofList ('\x27' :: (quotedChar '\x27' c ++ ['\x27']))

end MudEdit.Text
