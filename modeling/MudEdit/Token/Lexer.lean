import MudEdit.Text.Blank
import MudEdit.Token.Lexeme

/-!
# From text to tokens

Between two lexemes there is only white space. `Stream.token?` reads one lexeme, a
comment or a proper token; `lex` reads them all, with or without the comments, and
ends with the one `eof` token. A `Lexer` gives the tokens one at a time and can be
sent to any place of the text.
-/

namespace MudEdit

open Text (Stream)

/-- Whether an editor, which shows comments, reads the text, or a program, which does not. -/
inductive Mode where
  | editor
  | interpretation
  deriving DecidableEq, Repr, Inhabited

/-- Whether tokens of the kind are dropped. -/
def Mode.drops (mode : Mode) (kind : TokenKind) : Bool :=
  mode == .interpretation && kind.isComment

namespace Text.Stream

/-- Past white space. -/
def skipBlanks (s : Stream) : Stream := (s.advanceWhile isBlank).2

/-- The token or comment after the white space ahead, and the cursor past it. -/
def token? (s : Stream) : Option (Token × Stream) :=
  let s := s.skipBlanks
  (Lexeme.read s.after).map fun lexeme =>
    let past := s.forward lexeme.size
    (⟨s.position, past.position, lexeme.kind, lexeme.payload⟩, past)

/-- The tokens ahead, at most `fuel` lexemes of them, and the token that ends the text. -/
def tokens (mode : Mode) : (fuel : Nat) → Stream → List Token
  | 0, s => [.eof s.size]
  | fuel + 1, s =>
    match s.token? with
    | none => [.eof s.size]
    | some (token, past) =>
      if mode.drops token.kind then tokens mode fuel past
      else token :: tokens mode fuel past

end Text.Stream

/-- The tokens of a text, the last of which is its end. A lexeme takes a character at least. -/
def lex (mode : Mode) (text : String) : List Token :=
  let s := Stream.ofString text
  s.tokens mode s.after.length

/-- A place in a text, from which tokens are read one by one. -/
structure Lexer where
  mode : Mode
  stream : Stream
  finished : Bool

namespace Lexer

def ofString (mode : Mode) (text : String) : Lexer := ⟨mode, .ofString text, false⟩

/-- Continue at an offset, or at the character boundary before it. -/
def restart (l : Lexer) (offset : Nat) : Lexer :=
  { l with stream := l.stream.reset offset, finished := false }

/-- The first token that the mode keeps, among at most `fuel` lexemes ahead. -/
def scan (mode : Mode) : (fuel : Nat) → Stream → Token × Stream
  | 0, s => (.eof s.size, s.toEnd)
  | fuel + 1, s =>
    match s.token? with
    | none => (.eof s.size, s.toEnd)
    | some (token, past) => if mode.drops token.kind then scan mode fuel past else (token, past)

/-- The next token; at the end of the text, its end again and again. -/
def nextToken (l : Lexer) : Token × Lexer :=
  let (token, past) := scan l.mode l.stream.after.length l.stream
  (token, { l with stream := past })

/-- The next token, unless the end of the text was already given. -/
def next? (l : Lexer) : Option Token × Lexer :=
  if l.finished then (none, l)
  else
    let (token, l) := l.nextToken
    (some token, { l with finished := token.kind == .eof })

/-- The tokens not given yet, and the lexer after them; at most `fuel` of them. -/
def drain : (fuel : Nat) → Lexer → List Token × Lexer
  | 0, l => ([], l)
  | fuel + 1, l =>
    match l.next? with
    | (none, l) => ([], l)
    | (some token, l) =>
      let (tokens, l) := drain fuel l
      (token :: tokens, l)

/-- The tokens not given yet, and the lexer after them. -/
def rest (l : Lexer) : List Token × Lexer := l.drain (l.stream.after.length + 2)

end Lexer

end MudEdit
