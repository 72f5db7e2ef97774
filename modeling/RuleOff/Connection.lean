import RuleOff.Protocol.Wire
import RuleOff.Session

/-!
# Sessions over a wire

A client at the other end of a wire sends text and gets text. The first text that is no message
is refused, without an identifier, and then the server reads nothing more.

## Main definitions

* `Delivery`: a response as it arrives at the client.
* `Connection.play`: what a client sees of the values that it sends.
-/

namespace RuleOff

/-- What arrives of an answer to a request of the server. -/
def Reply.carried : Reply → Reply
  | result v => result (Wire.carried v)
  | failure e => failure e

/-- What arrives of a response. -/
def Response.carried : Response → Response
  | result v => result (Wire.carried v)
  | refused r => refused r

/-- The client as the server hears it from the other end of a wire. -/
def Client.remote (c : Client) : Client :=
  { c with
    answer := fun q =>
      let a := c.answer q
      { a with reply := a.reply.carried } }

/-- A response as it arrives, with the identifier of the request that it answers. -/
structure Delivery where
  id : MessageId
  response : Response
deriving Repr, Inhabited

namespace Delivery

/-- The refusal of what is no message. -/
def ofUnreadable (r : Refusal) : Delivery := ⟨.null, .refused r⟩

/-- What arrives after a message, if that is a request and has been answered. -/
def ofReaction? : Message → Session.Reaction → Option Delivery
  | .request id _, .answered r => some ⟨id, r.carried⟩
  | _, _ => none

end Delivery

namespace Connection

/-- What a client sees of some values that it sends, one after the other. -/
def play (disk : Disk) (client : Client) :
    Server → List Json → List (List Event × Option Delivery)
  | _, [] => []
  | s, v :: vs =>
    match Wire.Incoming.read v.write with
    | .error r => [([], some (.ofUnreadable r))]
    | .ok (.reply _ _) => play disk client s vs
    | .ok (.message m) =>
      match Session.receive disk client.remote s m with
      | (_, _, .stopped) => []
      | (s, events, reaction) => (events, Delivery.ofReaction? m reaction) :: play disk client s vs

end Connection

end RuleOff
