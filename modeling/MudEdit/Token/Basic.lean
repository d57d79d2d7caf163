import MudEdit.Number.Binary64
import MudEdit.Token.Kind

/-!
# Tokens

A token is a stretch of the source with a kind and, for names and literals, the
value that it carries. Spans are byte offsets, the end not included.
-/

namespace MudEdit

/-- What a name or a literal carries. -/
inductive Payload where
  | int (value : Nat)
  | float (value : Number.Binary64)
  | char (value : Char)
  | text (value : String)
  deriving DecidableEq, Repr, Inhabited

structure Token where
  begin : Nat
  stop : Nat
  kind : TokenKind
  payload : Option Payload
  deriving DecidableEq, Repr, Inhabited

namespace Token

/-- The token that ends a text of that many bytes. -/
def eof (offset : Nat) : Token := ⟨offset, offset, .eof, none⟩

/-- Whether the grammar reads the token: it is no comment and not the end of the text. -/
def isSignificant (t : Token) : Bool := !t.kind.isComment && t.kind != .eof

/-- The text that the token carries, if any. -/
def text? (t : Token) : Option String :=
  match t.payload with
  | some (.text s) => some s
  | _ => none

/-- The text that the token carries, empty if it carries none. -/
def text (t : Token) : String := t.text?.getD ""

end Token

end MudEdit
