import MudEdit.Cache.Task
import MudEdit.Completion
import MudEdit.Disk
import MudEdit.Document.Dependents
import MudEdit.Document.Finding
import MudEdit.Document.Hover
import MudEdit.Document.SemanticToken
import MudEdit.Document.Symbol
import MudEdit.Session.Message
import MudEdit.Workspace

/-!
# Sessions

A session with an editor: the documents that are open in it, and the programs that were
loaded from the workspace. A message is handled together with all the loading that it
starts before the next one is handled, so messages do not overlap. Whenever a document
changes, or what it links to was loaded again, its findings are published, so that the last
ones published are always those of its current state.
-/

namespace MudEdit

/-- Whether the editor has introduced itself, has said that it will leave, and has left. -/
inductive Phase where
  | fresh
  | running
  | stopped
  | exited
  deriving DecidableEq, Repr

structure Session where
  phase : Phase
  /-- The open documents by their URIs. -/
  documents : Table Document
  root : Option String
  settings : Settings
  layout : Layout
  cache : Cache

/-- What is sent to the editor. -/
inductive Sent where
  | findings (uri : String) (findings : List Finding) (version : Option Int)
  | log (severity : Severity) (message : String)
  deriving DecidableEq, Repr

/-- What comes of a message: the session after it, the disk, and what is sent. -/
structure Effect where
  session : Session
  disk : Disk
  sent : List Sent

/-- What a question is answered with; a document that is not open has no tokens. -/
inductive Answer where
  | hover (found : Option Hover)
  | completion (suggestions : List Suggestion)
  | symbols (symbols : List DocumentSymbol)
  | tokens (tokens : Option (List SemanticToken))
  deriving DecidableEq, Repr

namespace Session

/-- A session in which nothing was said yet. -/
def fresh : Session := ⟨.fresh, [], none, .default, .empty, .empty⟩

/-! ## Programs -/

/-- Reads the first file that a name may stand for. -/
def read (s : Session) (disk : Disk) (name : String) : Option String :=
  (s.layout.candidates name).findSome? disk.read?

/-- Loads names and all that they link to. -/
def load (s : Session) (disk : Disk) (names : List String) : Session :=
  { s with cache := (s.cache.loadClosure (s.read disk) disk.size names).cache }

/-! ## Documents -/

/-- Resolves an open document against what is loaded now. -/
def reresolve (s : Session) (uri : String) : Session :=
  match s.documents.find? uri with
  | none => s
  | some d =>
    { s with
      documents := s.documents.put uri (d.reresolve s.cache.library s.cache.stamp)
      cache := s.cache.nextStamp }

/-- The findings of a document as they are shown. -/
def shown (s : Session) (d : Document) : List Finding :=
  if s.settings.showDiagnostics then d.findings else []

/-- The findings of an open document, to be sent. -/
def publish (s : Session) (uri : String) : List Sent :=
  match s.documents.find? uri with
  | none => []
  | some d => [.findings uri (s.shown d) d.version]

/-- With a new text for a document, and what that links to and is not loaded. -/
def update (s : Session) (uri : Uri) (text : String) (version : Int) : Session × List String :=
  let name := Workspace.programName s.root uri.filePath
  let (d, unresolved) := Document.analyze s.cache.library s.cache.stamp name text (some version)
  ({ s with documents := s.documents.put uri.text d, cache := s.cache.nextStamp }, unresolved)

/--
A document has a new text, whose findings are published at once, and again after what it
links to is loaded.
-/
def receive (s : Session) (disk : Disk) (uri : Uri) (text : String) (version : Int) : Effect :=
  let (updated, unresolved) := s.update uri text version
  if unresolved.isEmpty then ⟨updated, disk, updated.publish uri.text⟩
  else
    let loaded := (updated.load disk unresolved).reresolve uri.text
    ⟨loaded, disk, updated.publish uri.text ++ loaded.publish uri.text⟩

/-- Loads what documents link to again, and resolves them. -/
def refresh (s : Session) (disk : Disk) (uris : List String) : Session :=
  let links := uris.flatMap fun uri =>
    ((s.documents.find? uri).map (·.program.dependencies)).getD []
  uris.foldl reresolve (s.load disk links)

/-- A document was saved: all that depend on it are refreshed, and a copy is deployed. -/
def save (s : Session) (disk : Disk) (uri : Uri) (text : Option String) : Effect :=
  match s.documents.find? uri.text with
  | none => ⟨s, disk, []⟩
  | some d =>
    let forgotten := { s with cache := s.cache.forget d.name }
    let uris := dependentsOf s.documents forgotten.cache.published d.name
    let refreshed := if uris.isEmpty then forgotten else forgotten.refresh disk uris
    let deployed := match s.settings.deployRoot with
      | some root => disk.write (Workspace.deployPath root d.name) (text.getD d.text)
      | none => disk
    ⟨refreshed, deployed, uris.flatMap refreshed.publish⟩

/-! ## Settings -/

/-- With settings, which also say where to look for files. -/
def configure (s : Session) (settings : Settings) : Session :=
  { s with settings, layout := .ofSettings s.root settings }

/-- An editor that introduces itself. Settings that are malformed do not count. -/
def start (s : Session) (i : Introduction) : Session :=
  let root := (i.folder.bind Uri.file).or (i.root.bind Uri.file)
  let settings := (i.options.bind Settings.ofJson?).getD .default
  { s with phase := .running, root }.configure settings

/-- New settings, after which all findings are published; malformed ones change nothing. -/
def reconfigure (s : Session) (disk : Disk) (settings : Json) : Effect :=
  match Settings.ofJson? settings with
  | none => ⟨s, disk, [.log .warning "Failed to parse configuration: "]⟩
  | some settings =>
    let configured := s.configure settings
    ⟨configured, disk, s.documents.names.flatMap configured.publish⟩

/-! ## Announcements and questions -/

/-- Handles an announcement. -/
def hear (s : Session) (disk : Disk) : Announcement → Effect
  | .initialized => ⟨s, disk, [.log .info "lpc-lsp initialized"]⟩
  | .opened uri version text => s.receive disk uri text version
  | .changed uri version (some text) => s.receive disk uri text version
  | .changed _ _ none => ⟨s, disk, []⟩
  | .saved uri text => s.save disk uri text
  | .closed uri =>
    ⟨{ s with documents := s.documents.remove uri.text }, disk, [.findings uri.text [] none]⟩
  | .configured settings => s.reconfigure disk settings

/-- Answers a question. -/
def answer (s : Session) : Question → Answer
  | .hover uri line column =>
    .hover <| (s.documents.find? uri.text).bind fun d => d.hover? (d.lines.offsetAt line column)
  | .completion uri line column =>
    .completion <| ((s.documents.find? uri.text).map fun d =>
      suggestions s.cache.library d.forest d.program (d.lines.offsetAt line column)).getD []
  | .symbols uri => .symbols <| ((s.documents.find? uri.text).map Document.symbols).getD []
  | .tokens uri => .tokens <| (s.documents.find? uri.text).map Document.tokens

end Session

end MudEdit
