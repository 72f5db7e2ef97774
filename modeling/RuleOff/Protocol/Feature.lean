import RuleOff.Diagnostic
import RuleOff.Protocol.Shape

/-!
# Requests for features that the server does not offer

Such a request is refused, but as a request that is not valid if what it carries is wrong. Each of
them has a shape.

## Main definitions

* `Feature.requests`: the names of the requests with the members of their parameters.
* `Feature.accepts`: whether the parameters of a request have the right shape.
-/

namespace RuleOff.Feature

open Shape MemberShape

/-! ### Parts of requests -/

def progress : MemberShape := may "workDoneToken" token

/-- The members that name the tokens for reports on progress and for partial results. -/
def tokens : List MemberShape := [progress, may "partialResultToken" token]

def document : MemberShape := must "textDocument" (object [must "uri" uri])

def place : List MemberShape := [document, must "position" position]

/-- A member with a number of 32 bits that stands for a word. -/
def mustCode (name : String) : MemberShape := must name int32

/-- A text, plain or marked up. -/
def prose : Shape :=
  either string (object [must "kind" (word ["plaintext", "markdown"]), must "value" string])

/-- A part of a document. -/
def location : Shape := object [must "uri" uri, must "range" range]

/-- A command with its arguments. -/
def command : Shape :=
  object [must "title" string, must "command" string, may "arguments" (list any)]

/-- A part of a text with the text to put in its place. -/
def textEdit : Shape := object [must "range" range, must "newText" string]

/-! ### Edits of a workspace -/

def documentEdit : Shape :=
  object
    [must "textDocument" (object [must "uri" uri, may "version" int32]),
      must "edits" (list textEdit)]

/-- What to do about a file in the way. -/
def overwriting : Shape := object [may "overwrite" bool, may "ignoreIfExists" bool]

/-- How a file is deleted. -/
def deleting : Shape :=
  object [may "recursive" bool, may "ignoreIfNotExists" bool, may "annotationId" string]

/-- What is done to a file. -/
def fileOperation : Shape :=
  either
    (object
      [must "kind" (wordAt "create" 0), must "uri" uri, may "options" overwriting,
        may "annotationId" string])
    (either
      (object
        [must "kind" (wordAt "rename" 1), must "oldUri" uri, must "newUri" uri,
          may "options" overwriting, may "annotationId" string])
      (object [must "kind" (wordAt "delete" 2), must "uri" uri, may "options" deleting]))

/-- What the user is told about an edit. -/
def annotation : Shape :=
  object [must "label" string, may "needsConfirmation" bool, may "description" string]

def workspaceEdit : Shape :=
  object
    [may "changes" (tableByUri (list textEdit)),
      may "documentChanges" (list (either fileOperation documentEdit)),
      may "changeAnnotations" (table annotation)]

/-! ### What is resolved -/

def hierarchyItem (tags : Shape) : Shape :=
  object
    [must "name" string, mustCode "kind", may "tags" tags, may "detail" string, must "uri" uri,
      must "range" range, must "selectionRange" range]

/-- A link in a document. -/
def link : List MemberShape := [must "range" range, may "target" uri, may "tooltip" string]

/-- A command shown in a document. -/
def lens : List MemberShape := [must "range" range, may "command" command]

/-- What the user may type. -/
def completion : List MemberShape :=
  [must "label" string, may "labelDetails" (object [may "detail" string, may "description" string]),
    may "kind" int32, may "detail" string, may "documentation" prose, may "deprecated" bool,
    may "preselect" bool, may "sortText" string, may "filterText" string, may "insertText" string,
    may "insertTextFormat" int32, may "insertTextMode" int32,
    may "textEdit"
      (either textEdit
        (object [must "newText" string, must "insert" range, must "replace" range])),
    may "additionalTextEdits" (list textEdit), may "command" command,
    may "commitCharacters" (list string), may "tags" (list int32)]

/-- What the user may have done to a document. -/
def codeAction : List MemberShape :=
  [must "title" string, may "kind" string, may "diagnostics" (list (readBy Diagnostic.decode)),
    may "edit" workspaceEdit, may "command" command, may "isPreferred" bool,
    may "disabled" (object [must "reason" string])]

/-- A part of a note between the words of a document. -/
def inlayPart : Shape :=
  object
    [must "value" string, may "tooltip" prose, may "location" location, may "command" command]

/-- A note between the words of a document. -/
def inlay : List MemberShape :=
  [must "position" position, must "label" (either string (list inlayPart)), may "kind" int32,
    may "textEdits" (list textEdit), may "tooltip" prose, may "paddingLeft" bool,
    may "paddingRight" bool]

/-- A symbol of a workspace. -/
def symbol : List MemberShape :=
  [must "name" string, mustCode "kind", may "tags" (list int32), may "containerName" string,
    must "location" (object [must "uri" uri])]

/-! ### What is asked for -/

/-- How a document is to be formatted. Further options are switches, numbers and texts. -/
def formatting : MemberShape :=
  must "options"
    (objectWith
      [must "tabSize" uint32, must "insertSpaces" bool, may "trimTrailingWhitespace" bool,
        may "insertFinalNewline" bool, may "trimFinalNewlines" bool]
      (either bool (either int32 string)))

/-- A parameter of a signature, named by its text or by where that begins and ends. -/
def signatureParameter : Shape :=
  object [must "label" (either string (pair uint32)), may "documentation" prose]

def signature : Shape :=
  object
    [must "label" string, may "documentation" prose, may "parameters" (list signatureParameter),
      may "activeParameter" uint32]

/-- The help on signatures that the user sees. -/
def signatureHelp : Shape :=
  object
    [must "signatures" (list signature), may "activeSignature" uint32,
      may "activeParameter" uint32]

/-- Why there is to be help on signatures. -/
def signatureContext : Shape :=
  object
    [mustCode "triggerKind", may "triggerCharacter" string, must "isRetrigger" bool,
      may "activeSignatureHelp" signatureHelp]

def color : Shape :=
  object [must "red" number, must "green" number, must "blue" number, must "alpha" number]

/-- Files that a client works on, by the members that name them. -/
def files (names : List String) : List MemberShape :=
  [must "files" (list (object (names.map fun n => must n string)))]

/-- The requests about a document whose results may come in parts. -/
def aboutDocument : List (String × List MemberShape) :=
  [("textDocument/documentLink", []), ("textDocument/codeLens", []),
    ("textDocument/foldingRange", []), ("textDocument/documentSymbol", []),
    ("textDocument/semanticTokens/full", []), ("textDocument/documentColor", []),
    ("textDocument/selectionRange", [must "positions" (list position)]),
    ("textDocument/semanticTokens/full/delta", [must "previousResultId" string]),
    ("textDocument/semanticTokens/range", [must "range" range]),
    ("textDocument/diagnostic", [may "identifier" string, may "previousResultId" string]),
    ("textDocument/colorPresentation", [must "color" color, must "range" range])]

/-- The requests about a place in a document whose results may come in parts. -/
def aboutPlace : List (String × List MemberShape) :=
  [("textDocument/declaration", []), ("textDocument/definition", []),
    ("textDocument/typeDefinition", []), ("textDocument/implementation", []),
    ("textDocument/documentHighlight", []), ("textDocument/moniker", []),
    ("textDocument/references", [must "context" (object [must "includeDeclaration" bool])]),
    ("textDocument/completion",
      [may "context" (object [mustCode "triggerKind", may "triggerCharacter" string])])]

/-- The requests about neither whose results may come in parts. -/
def aboutMore : List (String × List MemberShape) :=
  [("callHierarchy/incomingCalls", [must "item" (hierarchyItem (list int32))]),
    ("callHierarchy/outgoingCalls", [must "item" (hierarchyItem (list int32))]),
    ("typeHierarchy/supertypes", [must "item" (hierarchyItem int32)]),
    ("typeHierarchy/subtypes", [must "item" (hierarchyItem int32)]),
    ("workspace/diagnostic",
      [may "identifier" string,
        must "previousResultIds" (list (object [must "uri" uri, must "value" string]))]),
    ("workspace/symbol", [must "query" string])]

/-- The requests whose results come at once, and whose progress may be reported. -/
def atOnce : List (String × List MemberShape) :=
  [("textDocument/hover", place), ("textDocument/prepareCallHierarchy", place),
    ("textDocument/prepareTypeHierarchy", place), ("textDocument/linkedEditingRange", place),
    ("textDocument/signatureHelp", may "context" signatureContext :: place),
    ("textDocument/rename", must "newName" string :: place),
    ("textDocument/inlineValue",
      [document, must "range" range,
        must "context" (object [must "frameId" int32, must "stoppedLocation" range])]),
    ("textDocument/inlayHint", [document, must "range" range]),
    ("textDocument/formatting", [document, formatting]),
    ("textDocument/rangeFormatting", [document, must "range" range, formatting])]

/-- The requests that carry no tokens. -/
def plain : List (String × List MemberShape) :=
  [("textDocument/willSaveWaitUntil", [document, mustCode "reason"]),
    ("textDocument/onTypeFormatting", must "ch" string :: formatting :: place),
    ("textDocument/prepareRename", place), ("documentLink/resolve", link),
    ("codeLens/resolve", lens), ("inlayHint/resolve", inlay),
    ("completionItem/resolve", completion), ("codeAction/resolve", codeAction),
    ("workspaceSymbol/resolve", symbol), ("workspace/willCreateFiles", files ["uri"]),
    ("workspace/willRenameFiles", files ["oldUri", "newUri"]),
    ("workspace/willDeleteFiles", files ["uri"])]

/-- Requests that have some members more than listed. -/
def withFields (more : List MemberShape) (requests : List (String × List MemberShape)) :
    List (String × List MemberShape) :=
  requests.map fun r => (r.1, more ++ r.2)

/-- The requests with the members that they carry. -/
def requests : List (String × List MemberShape) :=
  withFields (document :: tokens) aboutDocument ++ withFields (place ++ tokens) aboutPlace ++
    withFields tokens aboutMore ++ withFields [progress] atOnce ++ plain

/-- The shape of the parameters of a request, found by its name. -/
def shape? (name : Text) : Option Shape :=
  (requests.find? fun r => r.1.toList == name).map fun r => object r.2

/-- Whether a request of this name has its parameters in their shape. -/
def accepts (name : Text) (params : Option Json) : Bool :=
  match shape? name, params with
  | some s, some v => s v
  | _, _ => false

end RuleOff.Feature
