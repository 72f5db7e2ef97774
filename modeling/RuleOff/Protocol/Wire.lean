import RuleOff.Json.Parser
import RuleOff.Json.Printer
import RuleOff.Protocol.Client
import RuleOff.Protocol.Message
import RuleOff.Text.Utf8

/-!
# Messages on the wire

A message is a JSON object behind a header that gives its length in bytes. Besides requests and
notifications the client sends the answers to what the server asked.

## Main definitions

* `Wire.Incoming`: what arrives, read by `Wire.Incoming.read`.
* `Wire.carried`: what arrives of a value that is sent.
* `Wire.frame`: a message behind its header.
* `Wire.contentLength?`: the length that a header gives.
-/

namespace RuleOff.Wire

/-- The version that every message carries. -/
def version : Json := .str "2.0".toList

/-- What arrives from the client. -/
inductive Incoming where
  | message (m : Message)
  /-- The answer to the request of the server with this identifier. -/
  | reply (id : MessageId) (r : Reply)
deriving Repr, Inhabited

/-- The answer in a message with a result or an error. -/
def replyOf? (v : Json) : Option Reply :=
  match v.get? "result".toList, v.get? "error".toList with
  | some w, _ => some (.result w)
  | none, some e =>
    match e.get? "code".toList, e.get? "message".toList with
    | some (.int code), some (.str m) => some (.failure ⟨code, m⟩)
    | _, _ => none
  | none, none => none

namespace Incoming

/-- What a JSON value says that arrives from the client. With an identifier and an outcome it is
an answer, whatever else it says. -/
def ofJson? (v : Json) : Option Incoming :=
  match v.get? "jsonrpc".toList with
  | some (.str s) =>
    if s ≠ "2.0".toList then none
    else
      match (v.get? "id".toList).bind MessageId.ofJson?, replyOf? v with
      | some id, some r => some (reply id r)
      | _, _ => (Message.ofJson? v).map message
  | _ => none

/-- What a text says that arrives from the client, or why it is refused. -/
def read (t : Text) : Except Refusal Incoming :=
  match Json.read? t with
  | none => .error .notJson
  | some v =>
    match ofJson? v with
    | some i => .ok i
    | none => .error .invalidRequest

end Incoming

/-- What arrives of a value that is sent: what is read where it was written. A double may arrive
as a neighbour of the one that was sent, since a numeral is not always read as the nearest
double. -/
def carried (v : Json) : Json := (Json.read? v.write).getD v

/-- A message of the server; requests carry a number. -/
def ofOutgoing (number : Option Nat) (m : Outgoing) : Json :=
  .ofFields
    [("jsonrpc".toList, some version), ("id".toList, number.map .ofNat),
      ("method".toList, some (.str m.method)), ("params".toList, some m.params)]

/-- The error of a refused request. -/
def ofRefusal (r : Refusal) : Json :=
  .ofFields
    [("code".toList, some (.int r.code)), ("message".toList, some (.str r.message)),
      ("data".toList, r.data?)]

/-- The response to a request. -/
def ofResponse (id : MessageId) (r : Response) : Json :=
  let outcome : Text × Json :=
    match r with
    | .result v => ("result".toList, v)
    | .refused e => ("error".toList, ofRefusal e)
  .obj [("jsonrpc".toList, version), outcome, ("id".toList, id.toJson)]

/-- The name of the header field that gives the length of a message. -/
def lengthField : Text := "Content-Length: ".toList

/-- A message behind its header. -/
def frame (v : Json) : Text :=
  let body := v.write
  lengthField ++ Text.ofNat (Text.utf8 body).length ++ ['\r', '\n', '\r', '\n'] ++ body

/-- The length that a line of a header gives. -/
def contentLength? (line : Text) : Option Nat :=
  match Text.afterPrefix? lengthField line with
  | some rest =>
    match Json.digits rest with
    | ([], _) => none
    | (ds, _) => some (Json.ofDigits ds)
  | none => none

end RuleOff.Wire
