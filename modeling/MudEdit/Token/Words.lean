import MudEdit.Token.Kind

/-!
# The vocabulary

How each reserved word, operator and bracket is spelled. The tables are in the order
in which completion offers the words and in which the lexer tries the signs: of the
signs that fit, the longest is taken, so the tables are split by length.
-/

namespace MudEdit

/-- The spelling of every reserved word. -/
def vocabulary : List (String × TokenKind) :=
  [("inherit", .keyword .inheritWord),
   ("class", .keyword .classWord),
   ("private", .modifier .privateWord),
   ("protected", .modifier .protectedWord),
   ("public", .modifier .publicWord),
   ("static", .modifier .staticWord),
   ("override", .modifier .overrideWord),
   ("deprecated", .modifier .deprecatedWord),
   ("nosave", .modifier .nosaveWord),
   ("new", .keyword .newWord),
   ("this", .keyword .thisWord),
   ("nil", .keyword .nilWord),
   ("true", .keyword .trueWord),
   ("false", .keyword .falseWord),
   ("sizeof", .keyword .sizeofWord),
   ("is", .keyword .isWord),
   ("let", .keyword .letWord),
   ("if", .keyword .ifWord),
   ("else", .keyword .elseWord),
   ("while", .keyword .whileWord),
   ("do", .keyword .doWord),
   ("for", .keyword .forWord),
   ("foreach", .keyword .foreachWord),
   ("switch", .keyword .switchWord),
   ("case", .keyword .caseWord),
   ("default", .keyword .defaultWord),
   ("break", .keyword .breakWord),
   ("continue", .keyword .continueWord),
   ("return", .keyword .returnWord),
   ("try", .keyword .tryWord),
   ("catch", .keyword .catchWord),
   ("operator", .keyword .operatorWord),
   ("void", .basic .void),
   ("int", .basic .int),
   ("float", .basic .float),
   ("char", .basic .char),
   ("bool", .basic .bool),
   ("string", .basic .string),
   ("symbol", .basic .symbol),
   ("object", .basic .object),
   ("mapping", .basic .mapping),
   ("function", .basic .function),
   ("exception", .basic .exception),
   ("any", .basic .any),
   ("auto", .basic .auto)]

/-- The signs of three characters. -/
def signs3 : List (String × Sign) :=
  [("<<=", .shiftLeftAssign),
   (">>=", .shiftRightAssign),
   ("...", .ellipsis)]

/-- The signs of two characters. -/
def signs2 : List (String × Sign) :=
  [("(\x7b", .arrayOpen),
   ("([", .mappingOpen),
   ("->", .arrow),
   ("::", .scope),
   ("..", .range),
   ("++", .increment),
   ("--", .decrement),
   ("+=", .addAssign),
   ("-=", .subAssign),
   ("*=", .mulAssign),
   ("/=", .divAssign),
   ("%=", .modAssign),
   ("&=", .andAssign),
   ("|=", .orAssign),
   ("^=", .xorAssign),
   ("==", .equal),
   ("!=", .notEqual),
   ("<=", .lessEqual),
   (">=", .greaterEqual),
   ("&&", .logicalAnd),
   ("||", .logicalOr),
   ("<<", .shiftLeft),
   (">>", .shiftRight)]

/-- The signs of one character. -/
def signs1 : List (String × Sign) :=
  [("+", .plus),
   ("-", .minus),
   ("*", .star),
   ("/", .slash),
   ("%", .percent),
   ("=", .assign),
   ("<", .less),
   (">", .greater),
   ("!", .bang),
   ("~", .tilde),
   ("&", .ampersand),
   ("|", .pipe),
   ("^", .caret),
   ("?", .question),
   (":", .colon),
   (";", .semicolon),
   (",", .comma),
   (".", .dot),
   ("(", .leftParen),
   (")", .rightParen),
   ("[", .leftBracket),
   ("]", .rightBracket),
   ("\x7b", .leftBrace),
   ("\x7d", .rightBrace)]

/-- The spelling of every sign, longer ones first. -/
def signs : List (String × Sign) := signs3 ++ signs2 ++ signs1

/-- The directive that includes a file; it is no word, as it starts with `#`. -/
def includeText : String := "#include"

/-- The kind of a reserved word. -/
def reservedWord? (word : String) : Option TokenKind :=
  (vocabulary.find? (·.1 == word)).map (·.2)

/-- A letter of the ASCII alphabet or an underscore. -/
def isWordStart (c : Char) : Bool := c.isAlpha || c == '_'

/-- A character that a word may have after its first. -/
def isWordChar (c : Char) : Bool := isWordStart c || c.isDigit

/-- The spelling of a sign. -/
def Sign.text (s : Sign) : String := ((signs.find? (·.2 == s)).map (·.1)).getD ""

namespace Modifier

def text : Modifier → String
  | .publicWord => "public"
  | .privateWord => "private"
  | .protectedWord => "protected"
  | .staticWord => "static"
  | .overrideWord => "override"
  | .deprecatedWord => "deprecated"
  | .nosaveWord => "nosave"

/-- The name of the modifier in serialized form. -/
def name : Modifier → String
  | .publicWord => "Public"
  | .privateWord => "Private"
  | .protectedWord => "Protected"
  | .staticWord => "Static"
  | .overrideWord => "Override"
  | .deprecatedWord => "Deprecated"
  | .nosaveWord => "Nosave"

end Modifier

namespace BasicKind

def text : BasicKind → String
  | .void => "void"
  | .int => "int"
  | .float => "float"
  | .char => "char"
  | .bool => "bool"
  | .string => "string"
  | .symbol => "symbol"
  | .object => "object"
  | .mapping => "mapping"
  | .function => "function"
  | .exception => "exception"
  | .any => "any"
  | .auto => "auto"

/-- The name of the type in serialized form. -/
def name : BasicKind → String
  | .void => "Void"
  | .int => "Int"
  | .float => "Float"
  | .char => "Char"
  | .bool => "Bool"
  | .string => "String"
  | .symbol => "Symbol"
  | .object => "Object"
  | .mapping => "Mapping"
  | .function => "Function"
  | .exception => "Exception"
  | .any => "Any"
  | .auto => "Auto"

/-- Objects and exceptions may name the program they are made from. -/
def takesFile : BasicKind → Bool
  | .object | .exception => true
  | _ => false

end BasicKind

/-- The name of the keyword in serialized form. -/
def Keyword.name : Keyword → String
  | .inheritWord => "Inherit"
  | .classWord => "Class"
  | .newWord => "New"
  | .thisWord => "This"
  | .nilWord => "Nil"
  | .trueWord => "True"
  | .falseWord => "False"
  | .sizeofWord => "Sizeof"
  | .isWord => "Is"
  | .letWord => "Let"
  | .ifWord => "If"
  | .elseWord => "Else"
  | .whileWord => "While"
  | .doWord => "Do"
  | .forWord => "For"
  | .foreachWord => "Foreach"
  | .switchWord => "Switch"
  | .caseWord => "Case"
  | .defaultWord => "Default"
  | .breakWord => "Break"
  | .continueWord => "Continue"
  | .returnWord => "Return"
  | .tryWord => "Try"
  | .catchWord => "Catch"
  | .operatorWord => "Operator"

/-- The name of the sign in serialized form. -/
def Sign.name : Sign → String
  | .leftParen => "LeftParen"
  | .rightParen => "RightParen"
  | .leftBracket => "LeftBracket"
  | .rightBracket => "RightBracket"
  | .leftBrace => "LeftBrace"
  | .rightBrace => "RightBrace"
  | .arrayOpen => "ArrayOpen"
  | .mappingOpen => "MappingOpen"
  | .semicolon => "Semicolon"
  | .comma => "Comma"
  | .dot => "Dot"
  | .colon => "Colon"
  | .question => "Question"
  | .arrow => "Arrow"
  | .scope => "Scope"
  | .range => "Range"
  | .ellipsis => "Ellipsis"
  | .assign => "Assign"
  | .addAssign => "AddAssign"
  | .subAssign => "SubAssign"
  | .mulAssign => "MulAssign"
  | .divAssign => "DivAssign"
  | .modAssign => "ModAssign"
  | .andAssign => "AndAssign"
  | .orAssign => "OrAssign"
  | .xorAssign => "XorAssign"
  | .shiftLeftAssign => "ShiftLeftAssign"
  | .shiftRightAssign => "ShiftRightAssign"
  | .increment => "Increment"
  | .decrement => "Decrement"
  | .plus => "Plus"
  | .minus => "Minus"
  | .star => "Star"
  | .slash => "Slash"
  | .percent => "Percent"
  | .equal => "Equal"
  | .notEqual => "NotEqual"
  | .less => "Less"
  | .greater => "Greater"
  | .lessEqual => "LessEqual"
  | .greaterEqual => "GreaterEqual"
  | .logicalAnd => "LogicalAnd"
  | .logicalOr => "LogicalOr"
  | .bang => "Bang"
  | .tilde => "Tilde"
  | .ampersand => "Ampersand"
  | .pipe => "Pipe"
  | .caret => "Caret"
  | .shiftLeft => "ShiftLeft"
  | .shiftRight => "ShiftRight"

/-- Signs that may follow the word `operator` in the name of a function. -/
def overloadable : List Sign :=
  [.plus, .minus, .star, .slash, .percent, .equal, .notEqual, .less, .greater, .lessEqual,
   .greaterEqual, .shiftLeft, .shiftRight, .ampersand, .pipe, .caret, .bang, .tilde, .increment,
   .decrement, .leftBracket, .leftParen]

namespace TokenKind

/-- The spelling of a reserved word. -/
def wordText? (kind : TokenKind) : Option String :=
  (vocabulary.find? (·.2 == kind)).map (·.1)

/-- The spelling of an operator or bracket. -/
def signText? : TokenKind → Option String
  | sign s => some s.text
  | _ => none

/-- Whether the sign may follow the word `operator`. -/
def isOverloadable : TokenKind → Bool
  | sign s => overloadable.contains s
  | _ => false

/-- How a message names the kind. -/
def describe : TokenKind → String
  | identifier => "identifier"
  | int => "integer literal"
  | float => "float literal"
  | string => "string literal"
  | character => "character literal"
  | symbol => "symbol literal"
  | comment => "comment"
  | docComment => "doc comment"
  | eof => "end of file"
  | includeDirective => includeText
  | sign s => "'" ++ s.text ++ "'"
  | kind => kind.wordText?.getD "token"

/-- The name of the kind in serialized form. -/
def name : TokenKind → String
  | identifier => "Identifier"
  | int => "Int"
  | float => "Float"
  | string => "String"
  | character => "Character"
  | symbol => "Symbol"
  | comment => "Comment"
  | docComment => "DocComment"
  | eof => "Eof"
  | includeDirective => "Include"
  | modifier m => m.name
  | basic .void => "Void"
  | basic b => b.name ++ "Type"
  | keyword k => k.name
  | sign s => s.name

/-- Every kind once: those without a spelling of their own, the words, and the signs. -/
def all : List TokenKind :=
  [identifier, int, float, string, character, symbol, comment, docComment, eof,
    includeDirective] ++ vocabulary.map (·.2) ++ signs.map (sign ·.2)

/-- The kind with this name in serialized form. -/
def ofName? (name : String) : Option TokenKind := all.find? (·.name == name)

end TokenKind

end MudEdit
