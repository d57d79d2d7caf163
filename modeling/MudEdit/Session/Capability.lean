import MudEdit.Session.Element

/-!
# What an editor can do

An editor introduces itself with what it can do. Nothing here depends on that, but the
introduction is refused if any of it is malformed.
-/

namespace MudEdit.Shape

/-! ## What several abilities say -/

/-- Whether an ability may be turned on later. -/
def dynamic : Field := opt "dynamicRegistration" flag

/-- An ability of which nothing else is said. -/
def ability : Shape := record [dynamic]

/-- Whether the editor can be asked to ask again. -/
def refreshing : Shape := record [opt "refreshSupport" flag]

/-- What the editor can fill in later. -/
def resolving : Shape := record [req "properties" (list text)]

/-- Kinds that the editor knows. -/
def knownKinds : Shape := record [opt "valueSet" (list signed)]

/-- Tags that the editor knows; some only say whether they know any. -/
def tagSupport : Field :=
  trailing "tagSupport" (either flag (record [req "valueSet" (list signed)]))

/-! ## The workspace -/

def workspaceEditing : Shape :=
  record [opt "documentChanges" flag,
    opt "resourceOperations" (list (oneOf ["create", "rename", "delete"])),
    opt "failureHandling" (oneOf ["abort", "transactional", "textOnlyTransactional", "undo"]),
    opt "normalizesLineEndings" flag,
    opt "changeAnnotationSupport" (record [opt "groupsOnLabel" flag])]

def fileOperations : Shape :=
  record [dynamic, opt "didCreate" flag, opt "willCreate" flag, opt "didRename" flag,
    opt "willRename" flag, opt "didDelete" flag, opt "willDelete" flag]

def workspaceAbilities : Shape :=
  record [opt "applyEdit" flag, opt "workspaceEdit" workspaceEditing,
    opt "didChangeConfiguration" ability,
    opt "didChangeWatchedFiles" (record [dynamic, opt "relativePatternSupport" flag]),
    opt "symbol" (record [dynamic, opt "symbolKind" knownKinds, tagSupport,
      opt "resolveSupport" resolving]),
    opt "executeCommand" ability, opt "workspaceFolders" flag, opt "configuration" flag,
    opt "semanticTokens" refreshing, opt "codeLens" refreshing,
    opt "fileOperations" fileOperations, opt "inlineValue" refreshing,
    opt "inlayHint" refreshing, opt "diagnostic" refreshing]

/-! ## Documents -/

def completionAbilities : Shape :=
  record [dynamic,
    opt "completionItem" (record [opt "snippetSupport" flag, opt "commitCharactersSupport" flag,
      opt "documentationFormat" (list markupKind), opt "deprecatedSupport" flag,
      opt "preselectSupport" flag, tagSupport, opt "insertReplaceSupport" flag,
      opt "resolveSupport" resolving,
      opt "insertTextModeSupport" (record [req "valueSet" (list signed)]),
      opt "labelDetailsSupport" flag]),
    opt "completionItemKind" knownKinds, opt "contextSupport" flag,
    opt "insertTextMode" signed,
    opt "completionList" (record [opt "itemDefaults" (list text)])]

def signatureAbilities : Shape :=
  record [dynamic,
    opt "signatureInformation" (record [opt "documentationFormat" (list markupKind),
      opt "parameterInformation" (record [opt "labelOffsetSupport" flag]),
      opt "activeParameterSupport" flag]),
    opt "contextSupport" flag]

def linkAbilities : Shape := record [dynamic, opt "linkSupport" flag]

def codeActionAbilities : Shape :=
  record [dynamic,
    opt "codeActionLiteralSupport"
      (record [req "codeActionKind" (record [req "valueSet" (list text)])]),
    opt "isPreferredSupport" flag, opt "disabledSupport" flag, opt "dataSupport" flag,
    opt "resolveSupport" resolving, opt "honorsChangeAnnotations" flag]

def foldingAbilities : Shape :=
  record [dynamic, opt "rangeLimit" unsigned, opt "lineFoldingOnly" flag,
    opt "foldingRangeKind"
      (record [opt "valueSet" (list (oneOf ["comment", "imports", "region"]))]),
    opt "foldingRange" (record [opt "collapsedText" flag])]

def tokenAbilities : Shape :=
  record [dynamic,
    req "requests" (record [opt "range" flag,
      opt "full" (either flag (record [opt "delta" flag]))]),
    req "tokenTypes" (list text), req "tokenModifiers" (list text), req "formats" (list text),
    opt "overlappingTokenSupport" flag, opt "multilineTokenSupport" flag,
    opt "serverCancelSupport" flag, opt "augmentsSyntaxTokens" flag]

def documentAbilities : Shape :=
  record [
    opt "synchronization" (record [dynamic, opt "willSave" flag, opt "willSaveWaitUntil" flag,
      opt "didSave" flag]),
    opt "completion" completionAbilities,
    opt "hover" (record [dynamic, opt "contentFormat" (list markupKind)]),
    opt "signatureHelp" signatureAbilities, opt "references" ability,
    opt "documentHighlight" ability,
    opt "documentSymbol" (record [dynamic, opt "symbolKind" knownKinds,
      opt "hierarchicalDocumentSymbolSupport" flag, tagSupport]),
    opt "formatting" ability, opt "rangeFormatting" ability, opt "onTypeFormatting" ability,
    opt "declaration" linkAbilities, opt "definition" linkAbilities,
    opt "typeDefinition" linkAbilities, opt "implementation" linkAbilities,
    opt "codeAction" codeActionAbilities, opt "codeLens" ability,
    opt "documentLink" (record [dynamic, opt "tooltipSupport" flag]),
    opt "colorProvider" ability,
    opt "rename" (record [dynamic, opt "prepareSupport" flag,
      opt "prepareSupportDefaultBehavior" signed, opt "honorsChangeAnnotations" flag]),
    opt "publishDiagnostics" (record [opt "relatedInformation" flag, tagSupport,
      opt "versionSupport" flag, opt "codeDescriptionSupport" flag, opt "dataSupport" flag]),
    opt "foldingRange" foldingAbilities, opt "selectionRange" ability,
    opt "linkedEditingRange" ability, opt "callHierarchy" ability,
    opt "semanticTokens" tokenAbilities, opt "moniker" ability, opt "typeHierarchy" ability,
    opt "inlineValue" ability, opt "inlayHint" (record [dynamic, opt "resolveSupport" resolving]),
    opt "diagnostic" (record [dynamic, opt "relatedDocumentSupport" flag])]

/-! ## The editor itself -/

def windowAbilities : Shape :=
  record [opt "workDoneProgress" flag,
    opt "showMessage" (record [
      opt "messageActionItem" (record [opt "additionalPropertiesSupport" flag])]),
    opt "showDocument" (record [req "support" flag])]

def generalAbilities : Shape :=
  record [
    opt "regularExpressions" (record [req "engine" text, opt "version" text]),
    opt "markdown" (record [req "parser" text, opt "version" text,
      opt "allowedTags" (list text)]),
    opt "staleRequestSupport" (record [req "cancel" flag,
      req "retryOnContentModified" (list text)]),
    opt "positionEncodings" (list text)]

/-- All that an editor says it can do. -/
def abilities : Shape :=
  record [opt "workspace" workspaceAbilities, opt "textDocument" documentAbilities,
    opt "notebookDocument" (record [
      req "synchronization" (record [dynamic, opt "executionSummaryReport" flag])]),
    opt "window" windowAbilities, opt "general" generalAbilities, opt "experimental" any]

end MudEdit.Shape
