import RuleOff.Protocol.Message
import RuleOff.Protocol.Method
import RuleOff.Server.Basic

/-!
# Hearing notifications

What the server does with a message that is not answered. Nothing but a notification that the
server knows and whose parameters can be read has any effect, and only while the server is at
work, apart from `exit`.

## Main definitions

* `Event`: something that the client or the log gets to see.
* `Server.hear`: the state after a notification, and what is seen of it.
-/

namespace RuleOff

/-- Something that the client or the log gets to see. -/
inductive Event where
  | logged (r : LogRecord)
  | sent (m : Outgoing)
deriving DecidableEq, Repr, Inhabited

/-- Whether the log gets to see it. -/
def Event.isLogged : Event → Bool
  | logged _ => true
  | sent _ => false

namespace Server

def readParams? {α : Type} (decode : Json → Decoded α) (params : Option Json) : Option α :=
  match params with
  | some v => (decode v).toOption
  | none => none

/-- What is seen when the client is ready. -/
def readyEvents : List Event :=
  [.logged (.info "ESLint disable server initialized".toList),
    .sent (.notification (.logMessage .info "ESLint disable server ready".toList))]

/-- Handles a notification while the server is at work. A request that is sent without an
identifier is ignored, except that `shutdown` ends the work. -/
def hearRunning (s : Server) (n : Invocation) : Server × List Event :=
  match Method.ofName n.method with
  | .ready =>
    match readParams? decodeReady n.params with
    | some _ => (s, readyEvents)
    | none => (s, [])
  | .didOpen =>
    match readParams? OpenParams.decode n.params with
    | some p => (s.openDocument p, [])
    | none => (s, [])
  | .didChange =>
    match readParams? ChangeParams.decode n.params with
    | some p => (s.changeDocument p, [])
    | none => (s, [])
  | .didClose =>
    match readParams? decodeDocument n.params with
    | some u => (s.closeDocument u, [])
    | none => (s, [])
  | .didChangeConfiguration =>
    match readParams? decodeConfiguration n.params with
    | some v =>
      let (s, records) := s.updateSettings v
      (s, records.map .logged)
    | none => (s, [])
  | .didChangeFolders =>
    match readParams? FolderChange.decode n.params with
    | some c => (s.changeFolders c, [])
    | none => (s, [])
  | .shutdown => ({ s with phase := .shutDown }, [])
  | _ => (s, [])

/-- The state after a notification, and what is seen of it. -/
def hear (s : Server) (n : Invocation) : Server × List Event :=
  if Method.ofName n.method = .exit then ({ s with phase := .exited }, [])
  else if s.phase = .running then s.hearRunning n
  else (s, [])

/-- The state after some notifications, one after the other, and what is seen of them. -/
def hearAll (s : Server) : List Invocation → Server × List Event
  | [] => (s, [])
  | n :: ns =>
    let (s, events) := s.hear n
    let (s, more) := s.hearAll ns
    (s, events ++ more)

end Server

end RuleOff
