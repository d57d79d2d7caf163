import MudEdit.Token.Basic

/-!
# A window on the tokens

Reading sees two tokens of a text at a time, the current one and the one after it.
Comments are no part of the grammar: they are put aside as soon as the window comes to
them, before the tokens around them are taken. Keywords are noted when they are taken.
-/

namespace MudEdit

/-- What reading sees of a text and what it has noted so far. -/
structure Window where
  /-- The tokens beyond the window, comments among them. -/
  upcoming : List Token
  current : Token
  next : Token
  /-- The comments that the window has come to, the last one first. -/
  comments : List Token
  /-- The keywords taken, the last one first. -/
  keywords : List Token
  /-- Bytes in the text. -/
  textEnd : Nat

namespace Window

/--
The first token that is no comment, the tokens after it, and the comments put aside so far
with those before it. After the end of a text comes its end again.
-/
def pull (textEnd : Nat) (comments : List Token) : List Token → Token × List Token × List Token
  | [] => (.eof textEnd, [], comments)
  | t :: ts => if t.kind.isComment then pull textEnd (t :: comments) ts else (t, ts, comments)

/-- On the first two tokens of a text. -/
def start (tokens : List Token) (textEnd : Nat) : Window :=
  let (current, upcoming, comments) := pull textEnd [] tokens
  let (next, upcoming, comments) := pull textEnd comments upcoming
  ⟨upcoming, current, next, comments, [], textEnd⟩

/-- Past the current token. -/
def advance (w : Window) : Window :=
  let (next, upcoming, comments) := pull w.textEnd w.comments w.upcoming
  let keywords := if w.current.kind.isKeyword then w.current :: w.keywords else w.keywords
  { w with upcoming, current := w.next, next, comments, keywords }

/-- Past so many tokens. -/
def advanceBy : Nat → Window → Window
  | 0, w => w
  | n + 1, w => advanceBy n w.advance

end Window

end MudEdit
