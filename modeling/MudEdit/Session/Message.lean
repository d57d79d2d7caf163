import MudEdit.Session.Capability
import MudEdit.Session.Unsupported

/-!
# Messages from an editor

What an editor announces, and what it asks. A message is understood only if all of it has
the shape that its method says, also what does not matter here.
-/

namespace MudEdit

/-- What an editor says first: where the workspace is, and how to be configured. -/
structure Introduction where
  folder : Option Uri
  root : Option Uri
  options : Option Json

/-- What an editor announces. -/
inductive Announcement where
  | initialized
  | opened (uri : Uri) (version : Int) (text : String)
  /-- The new text is absent if there was no change. -/
  | changed (uri : Uri) (version : Int) (text : Option String)
  | saved (uri : Uri) (text : Option String)
  | closed (uri : Uri)
  | configured (settings : Json)

/-- What an editor asks, of a line and a column in UTF-16 units. -/
inductive Question where
  | hover (uri : Uri) (line column : Nat)
  | completion (uri : Uri) (line column : Nat)
  | symbols (uri : Uri)
  | tokens (uri : Uri)

namespace Message

open Shape (req opt trailing record merged list)

/-! ## Shapes -/

def introductionShape : Shape :=
  record [opt "processId" Shape.unsigned, opt "rootPath" Shape.text,
    trailing "rootUri" Shape.uri, opt "initializationOptions" Shape.any,
    req "capabilities" Shape.abilities,
    trailing "trace" (Shape.oneOf ["off", "messages", "verbose"]),
    opt "workspaceFolders" (list (record [req "uri" Shape.uri, req "name" Shape.text])),
    opt "clientInfo" (record [req "name" Shape.text, opt "version" Shape.text]),
    opt "locale" Shape.text]

def changeShape : Shape :=
  record [opt "range" Shape.range, opt "rangeLength" Shape.unsigned, req "text" Shape.text]

def changedShape : Shape :=
  record [req "textDocument" Shape.versionedDocument, req "contentChanges" (list changeShape)]

def savedShape : Shape := record (Shape.ofDocument ++ [opt "text" Shape.text])

def completionShape : Shape :=
  merged (Shape.ofPlace ++ Shape.withPartial ++ [opt "context"
    (record [req "triggerKind" Shape.signed, opt "triggerCharacter" Shape.text])])

/-! ## Parts of well-formed messages -/

def text? : Json → Option String
  | .string s => some s
  | _ => none

def int? : Json → Option Int
  | .int n => some n
  | _ => none

def items? : Json → Option (List Json)
  | .array items => some items
  | _ => none

def uri? (j : Json) : Option Uri := (text? j).bind Uri.ofString?

/-- The document that a message is about. -/
def document? (j : Json) : Option Json := j.member? "textDocument"

def documentUri? (j : Json) : Option Uri := do uri? (← (← document? j).member? "uri")

def position? (j : Json) : Option (Nat × Nat) := do
  let position ← j.member? "position"
  return ((← int? (← position.member? "line")).toNat,
    (← int? (← position.member? "character")).toNat)

/-- The place of the first folder that an editor names. -/
def firstFolder? (j : Json) : Option Uri := do
  let folder ← (← items? (← j.member? "workspaceFolders")).head?
  uri? (← folder.member? "uri")

/-! ## Messages -/

def introduction? (j : Json) : Option Introduction := do
  let j ← introductionShape j
  return ⟨firstFolder? j, (j.member? "rootUri").bind uri?, j.member? "initializationOptions"⟩

def opened? (j : Json) : Option Announcement := do
  let j ← record [req "textDocument" Shape.openDocument] j
  let document ← document? j
  return .opened (← documentUri? j) (← int? (← document.member? "version"))
    (← text? (← document.member? "text"))

def changed? (j : Json) : Option Announcement := do
  let j ← changedShape j
  let changes ← items? (← j.member? "contentChanges")
  let text := changes.getLast?.bind fun change => (change.member? "text").bind text?
  return .changed (← documentUri? j) (← int? (← (← document? j).member? "version")) text

def saved? (j : Json) : Option Announcement := do
  let j ← savedShape j
  return .saved (← documentUri? j) ((j.member? "text").bind text?)

def closed? (j : Json) : Option Announcement := do
  return .closed (← documentUri? (← record Shape.ofDocument j))

def configured? (j : Json) : Option Announcement := do
  return .configured (← (← record [req "settings" Shape.any] j).member? "settings")

def hover? (j : Json) : Option Question := do
  let j ← merged (Shape.ofPlace ++ Shape.withProgress) j
  let (line, column) ← position? j
  return .hover (← documentUri? j) line column

def completion? (j : Json) : Option Question := do
  let j ← completionShape j
  let (line, column) ← position? j
  return .completion (← documentUri? j) line column

def symbols? (j : Json) : Option Question := do
  return .symbols (← documentUri? (← Shape.documentQuestion j))

def tokens? (j : Json) : Option Question := do
  return .tokens (← documentUri? (← Shape.documentQuestion j))

end Message

/-! ## Methods -/

/-- What a message is about, which its method says. -/
inductive Method where
  | introduction
  | shutdown
  | exit
  /-- That an answer is not needed any more, which here always comes too late. -/
  | cancel
  | announcement (read : Json → Option Announcement)
  /-- An announcement of what does not matter here. -/
  | ignored
  | question (read : Json → Option Question)
  | unsupported (shape : Shape)
  | unknown

namespace Method

/-- The announcements by their methods. -/
def announcements : List (String × (Json → Option Announcement)) :=
  [("initialized", fun j => (Shape.record [] j).map fun _ => .initialized),
    ("textDocument/didOpen", Message.opened?),
    ("textDocument/didChange", Message.changed?),
    ("textDocument/didSave", Message.saved?),
    ("textDocument/didClose", Message.closed?),
    ("workspace/didChangeConfiguration", Message.configured?)]

/-- The methods of announcements that do not matter here. -/
def ignoredNames : List String :=
  ["textDocument/willSave", "workspace/didChangeWatchedFiles",
    "workspace/didChangeWorkspaceFolders", "workspace/didCreateFiles",
    "workspace/didDeleteFiles", "workspace/didRenameFiles"]

/-- The questions by their methods. -/
def questions : List (String × (Json → Option Question)) :=
  [("textDocument/hover", Message.hover?),
    ("textDocument/completion", Message.completion?),
    ("textDocument/documentSymbol", Message.symbols?),
    ("textDocument/semanticTokens/full", Message.tokens?)]

/-- The methods by their names. -/
def table : List (String × Method) :=
  [("initialize", .introduction), ("shutdown", .shutdown), ("exit", .exit),
    ("$/cancelRequest", .cancel)] ++
    announcements.map (fun (name, read) => (name, .announcement read)) ++
    ignoredNames.map (·, .ignored) ++
    questions.map (fun (name, read) => (name, .question read)) ++
    Shape.unsupported.map (fun (name, shape) => (name, .unsupported shape))

def ofName (name : String) : Method := (table.lookup name).getD .unknown

/-- Whether the method may be left without an answer by those who do not know it. -/
def isOptional (name : String) : Bool := "$/".toList.isPrefixOf name.toList

end Method

end MudEdit
