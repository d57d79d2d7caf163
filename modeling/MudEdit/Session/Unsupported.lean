import MudEdit.Session.Element

/-!
# Questions that are not supported

The protocol has many questions that a session does not answer. It still refuses one
that is malformed for that reason.
-/

namespace MudEdit.Shape

/-! ## What these questions are about -/

/-- A function in a call graph, or a class in a hierarchy. -/
def hierarchyItem (tags : Shape) : Shape :=
  record [req "name" text, req "kind" signed, opt "tags" tags, opt "detail" text, req "uri" uri,
    req "range" range, req "selectionRange" range, opt "data" any]

def codeAction : Shape :=
  record [req "title" text, opt "kind" text, opt "diagnostics" (list diagnostic),
    opt "edit" workspaceEdit, opt "command" command, opt "isPreferred" flag,
    opt "disabled" (record [req "reason" text]), opt "data" any]

def completionItem : Shape :=
  record [req "label" text,
    opt "labelDetails" (record [opt "detail" text, opt "description" text]),
    opt "kind" signed, opt "detail" text, opt "documentation" documentation,
    opt "deprecated" flag, opt "preselect" flag, opt "sortText" text, opt "filterText" text,
    opt "insertText" text, opt "insertTextFormat" signed, opt "insertTextMode" signed,
    opt "textEdit" (either textEdit insertReplaceEdit),
    opt "additionalTextEdits" (list textEdit), opt "command" command,
    opt "commitCharacters" (list text), opt "data" any, opt "tags" (list signed)]

def inlayHint : Shape :=
  let part := record [req "value" text, opt "tooltip" documentation, opt "location" location,
    opt "command" command]
  record [req "position" position, req "label" (either text (list part)), opt "kind" signed,
    opt "textEdits" (list textEdit), opt "tooltip" documentation, opt "paddingLeft" flag,
    opt "paddingRight" flag, opt "data" any]

def workspaceSymbol : Shape :=
  record [req "name" text, req "kind" signed, opt "tags" (list signed), opt "containerName" text,
    req "location" (either location document), opt "data" any]

/-- The signatures that the editor shows at the moment. -/
def shownSignatures : Shape :=
  let parameter := record [req "label" (either text (row 2 unsigned)),
    opt "documentation" documentation]
  record [
    req "signatures" (list (record [req "label" text, opt "documentation" documentation,
      opt "parameters" (list parameter), opt "activeParameter" unsigned])),
    opt "activeSignature" unsigned, opt "activeParameter" unsigned]

def signatureContext : Shape :=
  record [req "triggerKind" signed, opt "triggerCharacter" text, req "isRetrigger" flag,
    opt "activeSignatureHelp" shownSignatures]

def codeActionContext : Shape :=
  record [req "diagnostics" (list diagnostic), opt "only" (list text), opt "triggerKind" signed]

def color : Shape :=
  record [req "red" number, req "green" number, req "blue" number, req "alpha" number]

/-- How to format, with whatever else an editor has to say on that. -/
def formattingOptions : Shape :=
  withOthers [req "tabSize" unsigned, req "insertSpaces" flag, opt "trimTrailingWhitespace" flag,
      opt "insertFinalNewline" flag, opt "trimFinalNewlines" flag]
    (either flag token)

/-! ## The questions -/

/-- A question about a place, answered with places. -/
def placeQuestion : Shape := merged (ofPlace ++ withPartial)

/-- A question about a document. -/
def documentQuestion : Shape := merged (ofDocument ++ withPartial)

/-- A question about what is called, calls, is above or below. -/
def hierarchyQuestion (tags : Shape) : Shape :=
  merged (req "item" (hierarchyItem tags) :: withPartial)

/-- A question about files that are named by texts. -/
def fileQuestion (fields : List String) : Shape :=
  record [req "files" (list (record (fields.map (req · text))))]

/-- The unsupported questions by their methods. -/
def unsupported : List (String × Shape) :=
  [("callHierarchy/incomingCalls", hierarchyQuestion (list signed)),
    ("callHierarchy/outgoingCalls", hierarchyQuestion (list signed)),
    ("codeAction/resolve", codeAction),
    ("codeLens/resolve", record [req "range" range, opt "command" command, opt "data" any]),
    ("completionItem/resolve", completionItem),
    ("documentLink/resolve",
      record [req "range" range, opt "target" uri, opt "tooltip" text, opt "data" any]),
    ("inlayHint/resolve", inlayHint),
    ("textDocument/codeAction",
      merged (ofDocument ++ [req "range" range, req "context" codeActionContext] ++ withPartial)),
    ("textDocument/codeLens", documentQuestion),
    ("textDocument/colorPresentation",
      merged (ofDocument ++ [req "color" color, req "range" range] ++ withPartial)),
    ("textDocument/declaration", placeQuestion),
    ("textDocument/definition", placeQuestion),
    ("textDocument/diagnostic",
      merged (ofDocument ++ [opt "identifier" text, opt "previousResultId" text] ++ withPartial)),
    ("textDocument/documentColor", documentQuestion),
    ("textDocument/documentHighlight", placeQuestion),
    ("textDocument/documentLink", documentQuestion),
    ("textDocument/foldingRange", documentQuestion),
    ("textDocument/formatting",
      merged (ofDocument ++ [req "options" formattingOptions] ++ withProgress)),
    ("textDocument/implementation", placeQuestion),
    ("textDocument/inlayHint", merged (ofDocument ++ [req "range" range] ++ withProgress)),
    ("textDocument/inlineValue",
      merged (ofDocument ++ [req "range" range,
        req "context" (record [req "frameId" signed, req "stoppedLocation" range])] ++
        withProgress)),
    ("textDocument/linkedEditingRange", merged (ofPlace ++ withProgress)),
    ("textDocument/moniker", placeQuestion),
    ("textDocument/onTypeFormatting",
      merged (ofPlace ++ [req "ch" text, req "options" formattingOptions])),
    ("textDocument/prepareCallHierarchy", merged (ofPlace ++ withProgress)),
    ("textDocument/prepareRename", record ofPlace),
    ("textDocument/prepareTypeHierarchy", merged (ofPlace ++ withProgress)),
    ("textDocument/rangeFormatting",
      merged (ofDocument ++ [req "range" range, req "options" formattingOptions] ++
        withProgress)),
    ("textDocument/references",
      merged (ofPlace ++ [req "context" (record [req "includeDeclaration" flag])] ++
        withPartial)),
    ("textDocument/rename", merged (ofPlace ++ [req "newName" text] ++ withProgress)),
    ("textDocument/selectionRange",
      merged (ofDocument ++ [req "positions" (list position)] ++ withPartial)),
    ("textDocument/semanticTokens/full/delta",
      merged (ofDocument ++ [req "previousResultId" text] ++ withPartial)),
    ("textDocument/semanticTokens/range",
      merged (ofDocument ++ [req "range" range] ++ withPartial)),
    ("textDocument/signatureHelp",
      merged (ofPlace ++ [opt "context" signatureContext] ++ withProgress)),
    ("textDocument/typeDefinition", placeQuestion),
    ("textDocument/willSaveWaitUntil", record (ofDocument ++ [req "reason" signed])),
    ("typeHierarchy/subtypes", hierarchyQuestion signed),
    ("typeHierarchy/supertypes", hierarchyQuestion signed),
    ("workspace/diagnostic",
      merged ([opt "identifier" text,
        req "previousResultIds" (list (record [req "uri" uri, req "value" text]))] ++
        withPartial)),
    ("workspace/executeCommand",
      merged ([req "command" text, preset "arguments" (list any)] ++ withProgress)),
    ("workspace/symbol", merged (req "query" text :: withPartial)),
    ("workspace/willCreateFiles", fileQuestion ["uri"]),
    ("workspace/willDeleteFiles", fileQuestion ["uri"]),
    ("workspace/willRenameFiles", fileQuestion ["oldUri", "newUri"]),
    ("workspaceSymbol/resolve", workspaceSymbol)]

end MudEdit.Shape
