import MudEdit.Json.Document
import MudEdit.Session.Basic

/-!
# Dialogue

How a session takes part in the protocol of editors. It answers only between its start
and its end, and refuses what it does not know or understand. Announcements that it
cannot take are passed over. After its exit it says nothing at all.
-/

namespace MudEdit

/-- Why a request is refused. -/
inductive Refusal where
  | notStarted
  | invalidRequest
  | unknownMethod
  | malformed
  deriving DecidableEq, Repr

/-- The number that editors know the reason by. -/
def Refusal.code : Refusal → Int
  | notStarted => -32002
  | invalidRequest => -32600
  | unknownMethod => -32601
  | malformed => -32602

/-- The reply to a request; some have none. -/
inductive Reply where
  | result (value : Json)
  | refused (reason : Refusal)
  | nothing

namespace Session

/-! ## Values on the wire -/

/-- What a session offers. -/
def capabilities : Json :=
  .object [
    ("textDocumentSync", .object [("openClose", true), ("change", .int 1),
      ("save", .object [("includeText", true)])]),
    ("documentSymbolProvider", true),
    ("hoverProvider", true),
    ("semanticTokensProvider", .object [
      ("legend", .object [("tokenTypes", .list (.string ·.title) TokenClass.all),
        ("tokenModifiers", .list .string tokenModifiers)]),
      ("full", true)]),
    ("completionProvider", .object [("resolveProvider", false),
      ("triggerCharacters", .array [">", ":"])])]

/-- The reply to an introduction. -/
def welcome : Json :=
  .object [("capabilities", capabilities),
    ("serverInfo", .object [("name", "lpc-lsp"), ("version", "0.1.0")])]

def answerJson : Answer → Json
  | .hover found => .optional Hover.toJson found
  | .completion suggestions => suggestionsJson suggestions
  | .symbols symbols => .list DocumentSymbol.toJson symbols
  | .tokens tokens =>
    let numbers (ts : List SemanticToken) : List Nat := ts.flatMap SemanticToken.numbers
    .optional (fun ts => .object [("data", .list (fun (n : Nat) => .int n) (numbers ts))])
      tokens

def sentJson : Sent → Json
  | .findings uri findings version =>
    .object [("method", "textDocument/publishDiagnostics"),
      ("params", .object <|
        [("uri", .string uri), ("diagnostics", .list Finding.toJson findings)] ++
        (version.map fun v => ("version", Json.int v)).toList)]
  | .log severity message =>
    .object [("method", "window/logMessage"),
      ("params", .object [("type", severity.number), ("message", message)])]

/-! ## Requests -/

/-- The editor introduces itself, which it may do once. -/
def introduce (s : Session) (params : Option Json) : Session × Reply :=
  match s.phase, params.bind Message.introduction? with
  | .fresh, some i => (s.start i, .result welcome)
  | .fresh, none => (s, .refused .malformed)
  | _, _ => (s, .refused .invalidRequest)

/-- The reply to a request of a known method that a running session receives. -/
def reply (s : Session) (method : Method) (params : Option Json) : Session × Reply :=
  match method with
  | .shutdown =>
    ({ s with phase := .stopped }, if params.isSome then .refused .malformed else .result .null)
  | .question read =>
    match params.bind read with
    | some question => (s, .result (answerJson (s.answer question)))
    | none => (s, .refused .malformed)
  | .unsupported shape =>
    (s, .refused (if (params.bind shape).isSome then .unknownMethod else .malformed))
  | _ => (s, .refused .invalidRequest)

/-- Handles a request, whose parameters may be absent. -/
def request (s : Session) (name : String) (params : Option Json) : Session × Reply :=
  if s.phase = .exited then (s, .nothing) else
  match Method.ofName name with
  | .exit => ({ s with phase := .exited }, .nothing)
  | .introduction => s.introduce params
  | .cancel => (s, .refused .invalidRequest)
  | .unknown => (s, if Method.isOptional name then .nothing else .refused .unknownMethod)
  | method =>
    match s.phase with
    | .fresh => (s, .refused .notStarted)
    | .stopped | .exited => (s, .refused .invalidRequest)
    | .running => s.reply method params

/-! ## Notifications -/

/-- Handles a notification, which has no reply. -/
def notify (s : Session) (disk : Disk) (name : String) (params : Option Json) : Effect :=
  match Method.ofName name, s.phase with
  | .exit, _ => ⟨{ s with phase := .exited }, disk, []⟩
  | .shutdown, .running => ⟨{ s with phase := .stopped }, disk, []⟩
  | .announcement read, .running =>
    match params.bind read with
    | some announcement => s.hear disk announcement
    | none => ⟨s, disk, []⟩
  | _, _ => ⟨s, disk, []⟩

end Session

end MudEdit
