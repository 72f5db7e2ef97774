import RuleOff.Error
import RuleOff.Json.Basic

/-!
# Messages of the client

A message with an identifier is a request, which gets a response; one without is a notification,
which does not.

## Main definitions

* `Message`: the messages, read by `Message.ofJson?`.
* `Refusal`: why a request is answered with an error.
* `Response`: the answer to a request.
-/

namespace RuleOff

/-- What tells a request from other requests. `null` is an identifier as well. -/
inductive MessageId where
  | number (n : Int)
  | name (s : Text)
  | null
deriving DecidableEq, Repr, Inhabited

namespace MessageId

/-- The identifier written by a JSON value: a string, `null`, or an integer of 64 bits. -/
def ofJson? : Json → Option MessageId
  | .int n => if -Int.pow 2 63 ≤ n ∧ n < Int.pow 2 63 then some (number n) else none
  | .str s => some (name s)
  | .null => some null
  | _ => none

/-- The JSON form of an identifier. -/
def toJson : MessageId → Json
  | number n => .int n
  | name s => .str s
  | null => .null

end MessageId

/-- What a message asks for: a method, with parameters or without. -/
structure Invocation where
  method : Text
  params : Option Json
deriving Repr, Inhabited

/-- A message of the client. -/
inductive Message where
  | request (id : MessageId) (body : Invocation)
  | notification (body : Invocation)
deriving Repr, Inhabited

namespace Message

/-- The method and the parameters of a message. A missing method counts as the empty one, and
`null` as parameters. -/
def bodyOf? (v : Json) : Option Invocation :=
  match v.get? "method".toList with
  | none => some ⟨[], v.get? "params".toList⟩
  | some (.str m) => some ⟨m, v.get? "params".toList⟩
  | some _ => none

/-- The message written by a JSON value. -/
def ofJson? (v : Json) : Option Message :=
  if v.isObject then do
    let body ← bodyOf? v
    match v.get? "id".toList with
    | none => pure (notification body)
    | some i => do
      let id ← MessageId.ofJson? i
      pure (request id body)
  else none

end Message

/-- Why a request is answered with an error. -/
inductive Refusal where
  /-- What was sent is no JSON value. -/
  | notJson
  /-- The server has not been initialized. -/
  | notInitialized
  /-- What was sent is no request, or may not be sent now. -/
  | invalidRequest
  /-- The server knows the method, or has been given the command, but does not offer it. -/
  | notOffered
  /-- The server does not know the method. -/
  | unknownMethod (name : Text)
  /-- The parameters could not be read. -/
  | undecodable
  /-- The command needs a rule as its first argument. -/
  | missingRule
  /-- The server was stopped while the request was under way. -/
  | cancelled
deriving DecidableEq, Repr, Inhabited

namespace Refusal

/-- The code of the error. -/
def code : Refusal → Int
  | notJson => ClientError.parseError
  | notInitialized => ClientError.serverNotInitialized
  | invalidRequest => ClientError.invalidRequest
  | notOffered | unknownMethod _ => ClientError.methodNotFound
  | undecodable | missingRule => ClientError.invalidParams
  | cancelled => ClientError.requestCancelled

/-- The wording of the error. -/
def message : Refusal → Text
  | notInitialized => "Server not initialized".toList
  | missingRule => "expected a rule id string as the first argument".toList
  | r => ClientError.description r.code

/-- What is sent along with the error. -/
def data? : Refusal → Option Json
  | unknownMethod name => some (.str name)
  | _ => none

end Refusal

/-- The answer to a request. -/
inductive Response where
  | result (v : Json)
  | refused (r : Refusal)
deriving Repr, Inhabited

end RuleOff
