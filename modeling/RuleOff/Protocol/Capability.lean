import RuleOff.Protocol.Shape

/-!
# What the client is able to do

The shape of the capabilities that a client states when it starts the server. The server makes no
use of them.

## Main definitions

* `Capability.client`: the shape.
-/

namespace RuleOff.Capability

open Shape MemberShape

/-- Members that are booleans if they are there. -/
def switches (names : List String) : List MemberShape := names.map fun n => may n bool

/-- A feature that may be registered while the server is at work. -/
def registered : Shape := object (switches ["dynamicRegistration"])

/-- A feature that may be registered while the server is at work, and more. -/
def registeredWith (fields : List MemberShape) : Shape :=
  object (may "dynamicRegistration" bool :: fields)

/-- A feature of the workspace that may have to be asked about again. -/
def refreshed : Shape := object (switches ["refreshSupport"])

/-- The values that are understood. -/
def valueSet (value : Shape) : Shape := object [must "valueSet" (list value)]

/-- The values that are understood, if they are given. -/
def knownValues (value : Shape) : Shape := object [may "valueSet" (list value)]

/-- The properties that may be filled in later. -/
def resolved : Shape := object [must "properties" (list string)]

/-- The tags that are understood, or whether there are any. -/
def tags : Shape := either bool (valueSet int32)

/-- How a text is marked up. -/
def markup : Shape := word ["plaintext", "markdown"]

def workspaceEdit : Shape :=
  object
    [may "documentChanges" bool,
      may "resourceOperations" (list (word ["create", "rename", "delete"])),
      may "failureHandling" (word ["abort", "transactional", "textOnlyTransactional", "undo"]),
      may "normalizesLineEndings" bool,
      may "changeAnnotationSupport" (object (switches ["groupsOnLabel"]))]

/-- What the client does with a workspace. -/
def workspace : Shape :=
  object
    [may "applyEdit" bool, may "workspaceEdit" workspaceEdit,
      may "didChangeConfiguration" registered,
      may "didChangeWatchedFiles" (registeredWith (switches ["relativePatternSupport"])),
      may "symbol"
        (registeredWith
          [may "symbolKind" (knownValues int32), may "tagSupport" tags,
            may "resolveSupport" resolved]),
      may "executeCommand" registered, may "workspaceFolders" bool, may "configuration" bool,
      may "semanticTokens" refreshed, may "codeLens" refreshed,
      may "fileOperations"
        (registeredWith
          (switches
            ["didCreate", "willCreate", "didRename", "willRename", "didDelete", "willDelete"])),
      may "inlineValue" refreshed, may "inlayHint" refreshed, may "diagnostic" refreshed]

/-- What the client does with completions. -/
def completion : Shape :=
  registeredWith
    [may "completionItem"
        (object
          (may "documentationFormat" (list markup) :: may "tagSupport" tags ::
            may "resolveSupport" resolved :: may "insertTextModeSupport" (valueSet int32) ::
            switches
              ["snippetSupport", "commitCharactersSupport", "deprecatedSupport",
                "preselectSupport", "insertReplaceSupport", "labelDetailsSupport"])),
      may "completionItemKind" (knownValues int32), may "contextSupport" bool,
      may "insertTextMode" int32,
      may "completionList" (object [may "itemDefaults" (list string)])]

/-- What the client does with the help on signatures. -/
def signatureHelp : Shape :=
  registeredWith
    [may "signatureInformation"
        (object
          [may "documentationFormat" (list markup),
            may "parameterInformation" (object (switches ["labelOffsetSupport"])),
            may "activeParameterSupport" bool]),
      may "contextSupport" bool]

/-- What the client does with code actions. -/
def codeAction : Shape :=
  registeredWith
    (may "codeActionLiteralSupport" (object [must "codeActionKind" (valueSet string)]) ::
      may "resolveSupport" resolved ::
      switches
        ["isPreferredSupport", "disabledSupport", "dataSupport", "honorsChangeAnnotations"])

/-- What the client does with folding ranges. -/
def foldingRange : Shape :=
  registeredWith
    [may "rangeLimit" uint32, may "lineFoldingOnly" bool,
      may "foldingRangeKind" (knownValues (word ["comment", "imports", "region"])),
      may "foldingRange" (object (switches ["collapsedText"]))]

/-- What the client does with semantic tokens. -/
def semanticTokens : Shape :=
  registeredWith
    (must "requests"
        (object [may "range" bool, may "full" (either bool (object (switches ["delta"])))]) ::
      must "tokenTypes" (list string) :: must "tokenModifiers" (list string) ::
      must "formats" (list string) ::
      switches
        ["overlappingTokenSupport", "multilineTokenSupport", "serverCancelSupport",
          "augmentsSyntaxTokens"])

/-- What the client does with jumps to another place. -/
def jump : Shape := registeredWith (switches ["linkSupport"])

/-- What the client does with a document. -/
def textDocument : Shape :=
  object
    [may "synchronization"
        (registeredWith (switches ["willSave", "willSaveWaitUntil", "didSave"])),
      may "completion" completion,
      may "hover" (registeredWith [may "contentFormat" (list markup)]),
      may "signatureHelp" signatureHelp, may "references" registered,
      may "documentHighlight" registered,
      may "documentSymbol"
        (registeredWith
          [may "symbolKind" (knownValues int32), may "hierarchicalDocumentSymbolSupport" bool,
            may "tagSupport" tags]),
      may "formatting" registered, may "rangeFormatting" registered,
      may "onTypeFormatting" registered, may "declaration" jump, may "definition" jump,
      may "typeDefinition" jump, may "implementation" jump, may "codeAction" codeAction,
      may "codeLens" registered,
      may "documentLink" (registeredWith (switches ["tooltipSupport"])),
      may "colorProvider" registered,
      may "rename"
        (registeredWith
          [may "prepareSupport" bool, may "prepareSupportDefaultBehavior" int32,
            may "honorsChangeAnnotations" bool]),
      may "publishDiagnostics"
        (object
          (may "tagSupport" tags ::
            switches
              ["relatedInformation", "versionSupport", "codeDescriptionSupport",
                "dataSupport"])),
      may "foldingRange" foldingRange, may "selectionRange" registered,
      may "linkedEditingRange" registered, may "callHierarchy" registered,
      may "semanticTokens" semanticTokens, may "moniker" registered,
      may "typeHierarchy" registered, may "inlineValue" registered,
      may "inlayHint" (registeredWith [may "resolveSupport" resolved]),
      may "diagnostic" (registeredWith (switches ["relatedDocumentSupport"]))]

/-- What the client does with its window. -/
def window : Shape :=
  object
    [may "workDoneProgress" bool,
      may "showMessage"
        (object [may "messageActionItem" (object (switches ["additionalPropertiesSupport"]))]),
      may "showDocument" (object [must "support" bool])]

/-- What the client does everywhere. -/
def general : Shape :=
  object
    [may "regularExpressions" (object [must "engine" string, may "version" string]),
      may "markdown"
        (object [must "parser" string, may "version" string, may "allowedTags" (list string)]),
      may "staleRequestSupport"
        (object [must "cancel" bool, must "retryOnContentModified" (list string)]),
      may "positionEncodings" (list string)]

/-- What the client is able to do. -/
def client : Shape :=
  object
    [may "workspace" workspace, may "textDocument" textDocument, may "window" window,
      may "general" general]

end RuleOff.Capability
