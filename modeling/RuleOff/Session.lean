import RuleOff.Disk
import RuleOff.Server.Request

/-!
# Sessions

A session of the server with a client and a disk. The client is a function from requests to
answers, and an answer may come after notifications, which the server hears while it waits.

## Main definitions

* `Client`: how the requests of the server are answered.
* `Session.run`: a conversation with a client.
* `Session.receive`: what comes of a message.
* `Session.play`: what is seen of a whole session.
-/

namespace RuleOff

/-- The answer to a request of the server, and the notifications that the server gets before
it. -/
structure Answer where
  before : List Invocation
  reply : Reply
deriving Repr, Inhabited

/-- How the requests of the server are answered. -/
structure Client where
  /-- Requests reach the client; otherwise all of them fail without being sent. -/
  connected : Bool := true
  answer : ClientRequest → Answer

namespace Session

/-- What came of a conversation: the state of the server, what was seen, and the value, unless the
server was stopped before the conversation was over. -/
structure Outcome (α : Type) where
  server : Server
  events : List Event
  value : Option α

/-- The outcome with something that was seen before it. -/
def Outcome.after {α : Type} (events : List Event) (o : Outcome α) : Outcome α :=
  { o with events := events ++ o.events }

/-- A conversation with a client, from a state of the server. If the server is stopped while it
waits, the client gets nothing any more of what the server has sent meanwhile. -/
def run {α : Type} (disk : Disk) (client : Client) : Server → Exchange α → Outcome α
  | s, .done a => ⟨s, [], some a⟩
  | s, .log r next => (run disk client s next).after [.logged r]
  | s, .notify n next => (run disk client s next).after [.sent (.notification n)]
  | s, .ask q next =>
    if client.connected then
      let a := client.answer q
      let (s, heard) := s.hearAll a.before
      if s.phase = .exited then ⟨s, .sent (.request q) :: heard.filter Event.isLogged, none⟩
      else (run disk client s (next a.reply)).after (.sent (.request q) :: heard)
    else run disk client s (next (.failure .notInitialized))
  | s, .document u next => run disk client s (next (s.document? u))
  | s, .isFile p next => run disk client s (next (disk.isFile p))
  | s, .readFile p next =>
    run disk client s (next ((disk.read p).mapError Disk.Failure.message))

/-- What the client learns from a message of its own. -/
inductive Reaction where
  /-- There is no answer. -/
  | silent
  | answered (r : Response)
  /-- The server has stopped. -/
  | stopped
  /-- What was sent is no message. -/
  | unreadable
deriving Repr, Inhabited

/-- What comes of a message: the state of the server, what was seen, and the client's answer. A
request that was under way when the server was stopped is cancelled. -/
def receive (disk : Disk) (client : Client) (s : Server) (m : Message) :
    Server × List Event × Reaction :=
  if s.phase = .exited then (s, [], .stopped)
  else
    match m with
    | .notification n =>
      let (s, events) := s.hear n
      (s, events, .silent)
    | .request _ r =>
      let (s, conversation) := s.answer r
      let o := run disk client s conversation
      (o.server, o.events,
        match o.value with
        | some (some response) => .answered response
        | some none => .silent
        | none => .answered (.refused .cancelled))

/-- Something that happens in a session. -/
inductive Step where
  /-- Files change. -/
  | change (c : Disk.Change)
  /-- The client sends a value, and answers the requests that this brings about. -/
  | send (client : Client) (v : Json)

def step (disk : Disk) (s : Server) : Step → Disk × Server × List Event × Reaction
  | .change c => (disk.apply c, s, [], .silent)
  | .send client v =>
    match Message.ofJson? v with
    | some m => (disk, receive disk client s m)
    | none => (disk, s, [], .unreadable)

/-- What is seen of some steps, one after the other. -/
def play : Disk → Server → List Step → List (List Event × Reaction)
  | _, _, [] => []
  | disk, s, a :: as =>
    let (disk, s, events, reaction) := step disk s a
    (events, reaction) :: play disk s as

end Session

end RuleOff
