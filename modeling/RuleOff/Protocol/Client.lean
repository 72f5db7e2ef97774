import RuleOff.Error
import RuleOff.Protocol.Range

/-!
# What the server asks of its client

The requests and notifications that the server sends, and how the answers to the requests are
read.

## Main definitions

* `ClientRequest`, `ClientNotification`: the messages and their JSON form.
* `Reply`: an answer to a request.
* `ApplyEditResult.decode`, `decodeShown`: the answers to an edit and to showing a document.
-/

namespace RuleOff

/-- The insertion of a text into a document. A version says that the edit was computed from this
version of an open document, and that it is to be refused for any other. -/
structure DocumentEdit where
  uri : Uri
  version : Option Int
  position : Position
  newText : Text
deriving DecidableEq, Repr, Inhabited

/-- The JSON form of an edit: a list of versioned changes, or changes by document. -/
def DocumentEdit.toJson (e : DocumentEdit) : Json :=
  let edit : Json :=
    .obj [("range".toList, (Range.at e.position).toJson), ("newText".toList, .str e.newText)]
  match e.version with
  | some v =>
    .obj [("documentChanges".toList,
      .arr [.obj
        [("textDocument".toList,
          .obj [("uri".toList, e.uri.toJson), ("version".toList, .int v)]),
          ("edits".toList, .arr [edit])]])]
  | none => .obj [("changes".toList, .obj [(e.uri.text, .arr [edit])])]

/-- A request of the server to its client. -/
inductive ClientRequest where
  /-- Asks for the values of a section of the configuration, as they are for a document. -/
  | configuration (scope : Option Uri) (topic : Text)
  /-- Asks for an edit to be applied. -/
  | applyEdit (edit : DocumentEdit)
  | showDocument (uri : Uri) (cursor : Option Position)
deriving DecidableEq, Repr, Inhabited

namespace ClientRequest

/-- The name of the request's method. -/
def method : ClientRequest → Text
  | configuration _ _ => "workspace/configuration".toList
  | applyEdit _ => "workspace/applyEdit".toList
  | showDocument _ _ => "window/showDocument".toList

def params : ClientRequest → Json
  | configuration scope topic =>
    .obj [("items".toList,
      .arr [.ofFields
        [("scopeUri".toList, scope.map Uri.toJson), ("section".toList, some (.str topic))]])]
  | applyEdit edit => .obj [("edit".toList, edit.toJson)]
  | showDocument uri cursor =>
    .ofFields
      [("uri".toList, some uri.toJson), ("external".toList, some (.bool false)),
        ("takeFocus".toList, some (.bool true)),
        ("selection".toList, cursor.map fun p => (Range.at p).toJson)]

end ClientRequest

/-- How a message is marked for the user. -/
inductive MessageKind where
  | error
  | info
deriving DecidableEq, Repr, Inhabited

def MessageKind.number : MessageKind → Nat
  | error => 1
  | info => 3

/-- A notification of the server to its client. -/
inductive ClientNotification where
  | logMessage (kind : MessageKind) (t : Text)
  /-- A message for the user. -/
  | showMessage (kind : MessageKind) (t : Text)
deriving DecidableEq, Repr, Inhabited

namespace ClientNotification

/-- The name of the notification's method. -/
def method : ClientNotification → Text
  | logMessage _ _ => "window/logMessage".toList
  | showMessage _ _ => "window/showMessage".toList

def params : ClientNotification → Json
  | logMessage kind t | showMessage kind t =>
    .obj [("type".toList, .ofNat kind.number), ("message".toList, .str t)]

end ClientNotification

/-- A message of the server to its client. -/
inductive Outgoing where
  | request (q : ClientRequest)
  | notification (n : ClientNotification)
deriving DecidableEq, Repr, Inhabited

namespace Outgoing

/-- The name of the message's method. -/
def method : Outgoing → Text
  | request q => q.method
  | notification n => n.method

/-- The parameters of the message. -/
def params : Outgoing → Json
  | request q => q.params
  | notification n => n.params

end Outgoing

/-- The client's answer to a request. -/
inductive Reply where
  | result (v : Json)
  | failure (e : ClientError)
deriving Repr, Inhabited

/-- The failure that stands for a result that could not be read. -/
def ClientError.undecodable (e : DecodeError) : ClientError := ⟨ClientError.parseError, e.message⟩

/-- The client's answer to an edit. -/
structure ApplyEditResult where
  applied : Bool
  failureReason : Option Text
deriving DecidableEq, Repr, Inhabited

namespace ApplyEditResult

/-- How many values an array that stands for the answer holds. -/
def arity : Text := "struct ApplyWorkspaceEditResponse with 3 elements".toList

/-- The answer from an array that holds its three values in order. -/
def ofItems : List Json → Decoded ApplyEditResult
  | [] => .error (.invalidLength 0 arity)
  | a :: rest => do
    let applied ← Json.asBool a
    match rest with
    | [] => .error (.invalidLength 1 arity)
    | b :: rest =>
      let failureReason ← Json.asOptional Json.asString (some b)
      match rest with
      | [] => .error (.invalidLength 2 arity)
      | c :: rest =>
        let _ ← Json.asOptional Json.asUInt32 (some c)
        if rest.isEmpty then pure ⟨applied, failureReason⟩
        else .error (.invalidLength (3 + rest.length) "fewer elements in array".toList)

/-- The answer written by a JSON value. The members are looked at in the order of their names, and
only then is a missing one noticed. -/
def decode : Json → Decoded ApplyEditResult
  | .arr items => ofItems items
  | .obj members => do
    let v := Json.obj members
    let applied ← (v.get? "applied".toList).mapM Json.asBool
    let _ ← v.optional "failedChange".toList Json.asUInt32
    let failureReason ← v.optional "failureReason".toList Json.asString
    match applied with
    | some b => pure ⟨b, failureReason⟩
    | none => .error (.missingField "applied".toList)
  | v => .error (.invalidType v "struct ApplyWorkspaceEditResponse".toList)

end ApplyEditResult

/-- Whether a document was shown, from the JSON form of the answer. -/
def decodeShown : Json → Decoded Bool
  | .arr [] => .error (.invalidLength 0 "struct ShowDocumentResult with 1 element".toList)
  | .arr [v] => Json.asBool v
  | .arr (v :: vs) => do
    let _ ← Json.asBool v
    .error (.invalidLength (1 + vs.length) "fewer elements in array".toList)
  | .obj members => (Json.obj members).required "success".toList Json.asBool
  | v => .error (.invalidType v "struct ShowDocumentResult".toList)

end RuleOff
