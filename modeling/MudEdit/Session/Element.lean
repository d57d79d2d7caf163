import MudEdit.Session.Shape

/-!
# What messages are made of

The shapes of what many messages have in them: documents and places in them, marked-up
text, edits, and the ways to name a message that reports how far work has come.
-/

namespace MudEdit.Shape

/-! ## Documents and places -/

def position : Shape := record [req "line" unsigned, req "character" unsigned]

def range : Shape := record [req "start" position, req "end" position]

def location : Shape := record [req "uri" uri, req "range" range]

def document : Shape := record [req "uri" uri]

def versionedDocument : Shape := record [req "uri" uri, req "version" signed]

/-- A document with its text. -/
def openDocument : Shape :=
  record [req "uri" uri, req "languageId" text, req "version" signed, req "text" text]

/-- The fields of a message about a document. -/
def ofDocument : List Field := [req "textDocument" document]

/-- The fields of a message about a place in a document. -/
def ofPlace : List Field := [req "textDocument" document, req "position" position]

/-! ## Reports on work -/

/-- What reports are known by. -/
def token : Shape := either signed text

/-- The field of a message whose sender may want to see how far the work has come. -/
def withProgress : List Field := [opt "workDoneToken" token]

/-- The fields of a message whose sender may want to see parts of the answer as well. -/
def withPartial : List Field := withProgress ++ [opt "partialResultToken" token]

/-! ## Text -/

def markupKind : Shape := oneOf ["plaintext", "markdown"]

/-- Text that may be marked up. -/
def documentation : Shape := either text (record [req "kind" markupKind, req "value" text])

def command : Shape :=
  record [req "title" text, req "command" text, opt "arguments" (list any)]

/-! ## Edits -/

def textEdit : Shape := record [req "range" range, req "newText" text]

def insertReplaceEdit : Shape :=
  record [req "newText" text, req "insert" range, req "replace" range]

/-- A change of a document that may have been opened. -/
def documentEdit : Shape :=
  record [req "textDocument" (record [req "uri" uri, opt "version" signed]),
    req "edits" (list (either textEdit
      (merged [req "range" range, req "newText" text, req "annotationId" text])))]

/-- The making, renaming or deletion of a file. -/
def fileEdit : Shape :=
  let options (one other : String) : Field := opt "options" (record [opt one flag, opt other flag])
  let annotation : Field := opt "annotationId" text
  either
    (record [req "kind" (oneOf ["create"]), req "uri" uri, options "overwrite" "ignoreIfExists",
      annotation])
    (either
      (record [req "kind" (oneOf ["rename"]), req "oldUri" uri, req "newUri" uri,
        options "overwrite" "ignoreIfExists", annotation])
      (record [req "kind" (oneOf ["delete"]), req "uri" uri,
        opt "options" (record [opt "recursive" flag, opt "ignoreIfNotExists" flag, annotation])]))

def workspaceEdit : Shape :=
  record [opt "changes" (keyed uri (list textEdit)),
    opt "documentChanges" (either (list documentEdit) (list (either fileEdit documentEdit))),
    opt "changeAnnotations" (keyed any (record [req "label" text, opt "needsConfirmation" flag,
      opt "description" text]))]

/-! ## Findings -/

def diagnostic : Shape :=
  record [req "range" range, opt "severity" signed, opt "code" token,
    opt "codeDescription" (record [req "href" uri]), opt "source" text, req "message" text,
    opt "relatedInformation" (list (record [req "location" location, req "message" text])),
    opt "tags" (list signed), opt "data" any]

end MudEdit.Shape
