import RuleOff.Diagnostic
import RuleOff.Protocol.Capability

/-!
# Parameters of the messages that the server handles

Each method's parameters as a type and as a decoder from JSON. Members that the server has no use
for are checked as well, since a message with a wrong one is not valid.

Parameters and their parts are read from objects only. The other form that a record may have, an array
of the values of its members in their order, is not read and makes a message invalid here, but for the
empty array in the notification that the client is ready.

## Main definitions

* `StartParams`, `CommandParams`, `CodeActionParams`: the parameters of requests.
* `OpenParams`, `ChangeParams`, `FolderChange`: the parameters of notifications.
-/

namespace RuleOff

structure WorkspaceFolder where
  uri : Uri
  name : Text
deriving DecidableEq, Repr, Inhabited

namespace WorkspaceFolder

/-- The folder written by a JSON value. -/
def decode (v : Json) : Decoded WorkspaceFolder := do
  let uri ← v.required "uri".toList Uri.decode
  let name ← v.required "name".toList Json.asString
  pure ⟨uri, name⟩

end WorkspaceFolder

def clientInfo : Shape := .object [.must "name" .string, .may "version" .string]

/-- The document that a message is about. -/
def decodeDocument (v : Json) : Decoded Uri := do
  let d ← v.required "textDocument".toList .ok
  d.required "uri".toList Uri.decode

/-- The version of the document that a message is about. -/
def decodeVersion (v : Json) : Decoded Int := do
  let d ← v.required "textDocument".toList .ok
  d.required "version".toList Json.asInt32

/-- What the client says when it starts the server. -/
structure StartParams where
  rootUri : Option Uri
  options : Option Json
  folders : Option (List WorkspaceFolder)
deriving Repr, Inhabited

/-- The parameters that start the server. Only the capabilities are required. -/
def StartParams.decode (v : Json) : Decoded StartParams := do
  let _ ← v.optional "processId".toList Json.asUInt32
  let _ ← v.optional "rootPath".toList Json.asString
  let rootUri ← v.optional "rootUri".toList Uri.decode
  let options ← v.optional "initializationOptions".toList Json.asAny
  let _ ← v.required "capabilities".toList Capability.client.check
  let _ ← v.optional "trace".toList (Shape.word ["off", "messages", "verbose"]).check
  let folders ← v.optional "workspaceFolders".toList (Json.asList WorkspaceFolder.decode)
  let _ ← v.optional "clientInfo".toList clientInfo.check
  let _ ← v.optional "locale".toList Json.asString
  pure ⟨rootUri, options, folders⟩

/-- The parameters of the notification that the client is ready: an object, or an empty array. -/
def decodeReady : Json → Decoded Unit
  | .arr [] => .ok ()
  | v => Json.expectObject "an object".toList v

/-- A command with its arguments. -/
structure CommandParams where
  command : Text
  arguments : List Json
deriving Repr, Inhabited

/-- The parameters of a command. The arguments may be absent, but not `null`. -/
def CommandParams.decode (v : Json) : Decoded CommandParams := do
  let command ← v.required "command".toList Json.asString
  let arguments ←
    match v.get? "arguments".toList with
    | some w => Json.asList Json.asAny w
    | none => pure []
  let _ ← v.optional "workDoneToken".toList Shape.token.check
  pure ⟨command, arguments⟩

/-- A document with the diagnostics at a place in it. -/
structure CodeActionParams where
  uri : Uri
  diagnostics : List Diagnostic
deriving Repr, Inhabited

def CodeActionParams.decode (v : Json) : Decoded CodeActionParams := do
  let uri ← decodeDocument v
  let _ ← v.required "range".toList Range.decode
  let context ← v.required "context".toList .ok
  let diagnostics ← context.required "diagnostics".toList (Json.asList Diagnostic.decode)
  let _ ← context.optional "only".toList (Json.asList Json.asString)
  let _ ← context.optional "triggerKind".toList Json.asInt32
  let _ ← v.optional "workDoneToken".toList Shape.token.check
  let _ ← v.optional "partialResultToken".toList Shape.token.check
  pure ⟨uri, diagnostics⟩

/-- A document that the client has opened. -/
structure OpenParams where
  uri : Uri
  version : Int
  text : Text
deriving DecidableEq, Repr, Inhabited

/-- The parameters of the notification that a document was opened. -/
def OpenParams.decode (v : Json) : Decoded OpenParams := do
  let d ← v.required "textDocument".toList .ok
  let uri ← d.required "uri".toList Uri.decode
  let _ ← d.required "languageId".toList Json.asString
  let version ← d.required "version".toList Json.asInt32
  let text ← d.required "text".toList Json.asString
  pure ⟨uri, version, text⟩

/-- A document that has changed, with the texts it has had since, latest last. -/
structure ChangeParams where
  uri : Uri
  version : Int
  texts : List Text
deriving DecidableEq, Repr, Inhabited

/-- The text after a change. -/
def decodeContentChange (v : Json) : Decoded Text := do
  let _ ← v.optional "range".toList Range.decode
  let _ ← v.optional "rangeLength".toList Json.asUInt32
  v.required "text".toList Json.asString

/-- The parameters of the notification that a document has changed. -/
def ChangeParams.decode (v : Json) : Decoded ChangeParams := do
  let uri ← decodeDocument v
  let version ← decodeVersion v
  let texts ← v.required "contentChanges".toList (Json.asList decodeContentChange)
  pure ⟨uri, version, texts⟩

/-- The parameters of the notification that the configuration has changed. -/
def decodeConfiguration (v : Json) : Decoded Json := v.required "settings".toList Json.asAny

/-- Folders that were added to the workspace and removed from it. -/
structure FolderChange where
  added : List WorkspaceFolder
  removed : List WorkspaceFolder
deriving DecidableEq, Repr, Inhabited

def FolderChange.decode (v : Json) : Decoded FolderChange := do
  let event ← v.required "event".toList .ok
  let added ← event.required "added".toList (Json.asList WorkspaceFolder.decode)
  let removed ← event.required "removed".toList (Json.asList WorkspaceFolder.decode)
  pure ⟨added, removed⟩

end RuleOff
