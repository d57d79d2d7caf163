import MudEdit.Text.Stream
import MudEdit.Token.Basic
import MudEdit.Token.Words

/-!
# Lexemes

A lexeme is the longest beginning of a text that forms a token or a comment: its
kind, what it carries, and how many characters it takes. Every non-empty text that
does not start with white space has one, since a character that fits nowhere else
counts as a name of its own. `Lexeme.read` looks at the text ahead only, so a lexeme
does not depend on where it stands.
-/

namespace MudEdit

/-- The beginning of a text, read as one token. -/
structure Lexeme where
  kind : TokenKind
  payload : Option Payload
  size : Nat
  deriving DecidableEq, Repr, Inhabited

namespace Lexeme

/-- The character that a backslash and this one stand for. -/
def unescape : Char → Char
  | 'n' => '\n'
  | 'r' => '\r'
  | 't' => '\t'
  | '0' => '\x00'
  | 'e' => '\x1b'
  | c => c

/--
The content of a literal after its opening delimiter, and how many characters it
takes with the closing one. It ends at the end of the line if it is never closed; a
backslash right before that end stands for itself.
-/
def delimited (delimiter : Char) : List Char → List Char × Nat
  | [] => ([], 0)
  | '\n' :: _ => ([], 0)
  | '\\' :: cs =>
    match cs with
    | [] => (['\\'], 1)
    | '\n' :: _ => (['\\'], 1)
    | c :: rest =>
      let (content, n) := delimited delimiter rest
      (unescape c :: content, n + 2)
  | c :: cs =>
    if c = delimiter then ([], 1)
    else
      let (content, n) := delimited delimiter cs
      (c :: content, n + 1)

/-- A string after its opening quote. -/
def string (cs : List Char) : Lexeme :=
  let (content, n) := delimited '\x22' cs
  ⟨.string, some (.text (String.ofList content)), n + 1⟩

/-- A character after its opening quote; it carries its first character, or NUL. -/
def character (cs : List Char) : Lexeme :=
  let (content, n) := delimited '\x27' cs
  ⟨.character, some (.char (content.head?.getD '\x00')), n + 1⟩

/-- A symbol after its hash sign and opening quote. -/
def symbol (cs : List Char) : Lexeme :=
  let (content, n) := delimited '\x27' cs
  ⟨.symbol, some (.text (String.ofList content)), n + 2⟩

/-- A digit of a hexadecimal number. -/
def isHexDigit (c : Char) : Bool :=
  c.isDigit || ('a' ≤ c && c ≤ 'f') || ('A' ≤ c && c ≤ 'F')

/-- The value of a hexadecimal digit. -/
def hexDigit (c : Char) : Nat :=
  if c.isDigit then c.toNat - '0'.toNat
  else if 'a' ≤ c then c.toNat - 'a'.toNat + 10
  else c.toNat - 'A'.toNat + 10

/-- The value of hexadecimal digits. -/
def hexValue (digits : List Char) : Nat :=
  digits.foldl (fun n c => n * 16 + hexDigit c) 0

/-- The value of decimal digits. -/
def decimalValue (digits : List Char) : Nat :=
  digits.foldl (fun n c => n * 10 + (c.toNat - '0'.toNat)) 0

/-- An integer has 63 bits; one with more counts as zero. -/
def int (value size : Nat) : Lexeme :=
  ⟨.int, some (.int (if value < Nat.pow 2 63 then value else 0)), size⟩

/-- A hexadecimal integer after its `0x`. -/
def hexadecimal (cs : List Char) : Lexeme :=
  let digits := cs.takeWhile isHexDigit
  int (hexValue digits) (digits.length + 2)

/-- A decimal integer, or a float if a point with a digit after it follows. -/
def decimal (cs : List Char) : Lexeme :=
  let whole := cs.takeWhile Char.isDigit
  match cs.dropWhile Char.isDigit with
  | '.' :: rest =>
    let fraction := rest.takeWhile Char.isDigit
    if fraction.isEmpty then int (decimalValue whole) whole.length
    else
      ⟨.float, some (.float (Number.Binary64.ofDigits whole fraction)),
        whole.length + 1 + fraction.length⟩
  | _ => int (decimalValue whole) whole.length

/-- A reserved word or a name. -/
def word (cs : List Char) : Lexeme :=
  let letters := cs.takeWhile isWordChar
  let text := String.ofList letters
  match reservedWord? text with
  | some kind => ⟨kind, none, letters.length⟩
  | none => ⟨.identifier, some (.text text), letters.length⟩

/-- The longest sign that the text starts with. -/
def sign? (cs : List Char) : Option Lexeme :=
  (signs.find? fun (text, _) => text.toList.isPrefixOf cs).map fun (text, s) =>
    ⟨.sign s, none, text.length⟩

/-- A character that no token starts with. -/
def stray (c : Char) : Lexeme := ⟨.identifier, some (.text c.toString), 1⟩

/-- A comment whose opening takes `opening` characters, up to `*/` or the end of the text. -/
def blockComment (kind : TokenKind) (opening : Nat) (cs : List Char) : Lexeme :=
  match Text.occurrence? ['*', '/'] (cs.drop opening) with
  | some n => ⟨kind, none, opening + n + 2⟩
  | none => ⟨kind, none, cs.length⟩

/-- The include directive, which a longer word does not contain. -/
def isInclude (cs : List Char) : Bool :=
  includeText.toList.isPrefixOf cs &&
    !((cs.drop includeText.length).head?.any isWordChar)

/-- The lexeme at the start of the text; none, if the text is empty. -/
def read : List Char → Option Lexeme
  | [] => none
  | c :: cs =>
    some <|
      match c, cs with
      | '/', '/' :: _ => ⟨.comment, none, ((c :: cs).takeWhile (· != '\n')).length⟩
      | '/', '*' :: '!' :: _ => blockComment .docComment 3 (c :: cs)
      | '/', '*' :: _ => blockComment .comment 2 (c :: cs)
      | '\x22', _ => string cs
      | '\x27', _ => character cs
      | '0', 'x' :: rest => hexadecimal rest
      | '0', 'X' :: rest => hexadecimal rest
      | _, _ =>
        if isInclude (c :: cs) then ⟨.includeDirective, none, includeText.length⟩
        else if c = '#' && cs.head? == some '\x27' then symbol (cs.drop 1)
        else if c.isDigit then decimal (c :: cs)
        else if isWordStart c then word (c :: cs)
        else (sign? (c :: cs)).getD (stray c)

end Lexeme

end MudEdit
