import Mathlib.Logic.Relation
import RuleOff.Proofs.Command.Script
import RuleOff.Server.Notification

/-!
# Commands on an open buffer

A client keeps a document open and changes it while disable commands are under way. It announces
each change to the server, in order but arbitrarily late, and it makes an edit of a version if the
buffer still has that version. This module describes all interleavings of the changes, the
announcements and the steps of the commands.

## Main definitions

* `OpenBuffer.Command`: a command under way, with a record of what it has read.
* `OpenBuffer.State`, `OpenBuffer.Step`: the client, the server and all commands, and what may
  happen next.
* `OpenBuffer.Replays`: a buffer that comes of changes and of insertions planned from it.

## Design notes

The client decides about an edit at one moment and the command learns of it at a later one, so that
anything can happen in between. The records `Command.read`, `Command.refused` and `State.changes`
are written and never looked at. Of the server nothing is kept fixed but its copy of the document,
and a look at a file may find anything.
-/

namespace RuleOff.OpenBuffer

open Script

variable {u : Uri}

/-- A notification that gives the whole text of the document and its new version. -/
structure Announcement (u : Uri) where
  message : Invocation
  copy : Document
  method : Method.ofName message.method = .didChange
  params : ∃ p, Server.readParams? ChangeParams.decode message.params = some p ∧
    p.uri.text = u.text ∧ p.version = copy.version ∧ p.texts.getLast? = some copy.text

/-- A disable command under way. -/
structure Command where
  rule : Text
  /-- What is left of the command. -/
  script : Exchange Ending
  /-- The client's reply that the command has not got yet. -/
  reply : Option Reply := none
  /-- The server's copy of the document as the command has found it. -/
  read : Option Document := none
  /-- Whether the client has refused the edit. -/
  refused : Bool := false

/-- A command that is started in a folder. -/
def Command.start (fallback : Settings) (root : Path) (rule : Text) : Command :=
  { rule := rule, script := (disable ClientEditor.editor fallback root rule).run.run .empty }

/-- What is left of the command once it has got the reply under way. -/
def Command.remaining (c : Command) : Exchange Ending :=
  match c.script, c.reply with
  | .ask _ next, some reply => next reply
  | script, _ => script

/-- What a command does by itself, with the server as it is. -/
inductive Command.Move (u : Uri) (s : Server) (c : Command) : Command → Prop
  | log {r : LogRecord} {next : Exchange Ending} (now : c.script = .log r next) :
    Move u s c { c with script := next }
  | notify {n : ClientNotification} {next : Exchange Ending} (now : c.script = .notify n next) :
    Move u s c { c with script := next }
  | isFile {p : Path} {next : Bool → Exchange Ending} (now : c.script = .isFile p next)
    (found : Bool) : Move u s c { c with script := next found }
  | readFile {p : Path} {next : Except Text Text → Exchange Ending}
    (now : c.script = .readFile p next) (contents : Except Text Text) :
    Move u s c { c with script := next contents }
  | document {v : Uri} {next : Option Document → Exchange Ending}
    (now : c.script = .document v next) :
    Move u s c { c with
      script := next (s.document? v)
      read := if v.text = u.text then s.document? v else c.read }
  | resume {q : ClientRequest} {next : Reply → Exchange Ending} {reply : Reply}
    (now : c.script = .ask q next) (replied : c.reply = some reply) :
    Move u s c { c with script := next reply, reply := none }

/-- The command waits for the client's reply to a request. -/
structure Command.Asks (c : Command) (q : ClientRequest) (next : Reply → Exchange Ending) :
    Prop where
  now : c.script = .ask q next
  unanswered : c.reply = none

/-- A change of the buffer, with the buffer after it. -/
inductive Change where
  | typed (after : Document)
  /-- The edit of a command, with the command's rule and the copy that it has read. -/
  | inserted (rule : Text) (source : Option Document) (edit : DocumentEdit) (after : Document)

/-- The buffer after a change. -/
def Change.after : Change → Document
  | typed d => d
  | inserted _ _ _ d => d

/-- The client with its open buffer, the server, and the commands under way. -/
structure State (u : Uri) where
  server : Server
  buffer : Document
  /-- The announcements that the server has not got yet, oldest first. -/
  pending : List (Announcement u) := []
  commands : List Command := []
  /-- The changes of the buffer, newest first. -/
  changes : List Change := []

/-- The server has a copy of the buffer, and nothing is under way. -/
structure State.Initial (σ : State u) : Prop where
  tracked : σ.server.document? u = some σ.buffer
  pending : σ.pending = []
  commands : σ.commands = []
  changes : σ.changes = []

/-- What may happen next. -/
inductive Step : State u → State u → Prop
  /-- The buffer changes under a larger version, and the change is announced. -/
  | type {σ : State u} (a : Announcement u) (newer : σ.buffer.version < a.copy.version) :
    Step σ { σ with
      buffer := a.copy
      pending := σ.pending ++ [a]
      changes := .typed a.copy :: σ.changes }
  /-- The server gets the oldest announcement. -/
  | deliver {σ : State u} {a : Announcement u} {rest : List (Announcement u)}
    (oldest : σ.pending = a :: rest) :
    Step σ { σ with server := (σ.server.hear a.message).1, pending := rest }
  /-- Something happens to the server that leaves its copy of the document alone. -/
  | elsewhere {σ : State u} (s : Server) (kept : s.document? u = σ.server.document? u) :
    Step σ { σ with server := s }
  /-- A command is started in the first folder. -/
  | start {σ : State u} {root : Path} (folder : σ.server.folders.head? = some root)
    (rule : Text) :
    Step σ { σ with
      commands := σ.commands ++ [.start σ.server.settings root rule] }
  /-- A command goes on. -/
  | move {σ : State u} {k : Nat} {c c' : Command} (command : σ.commands[k]? = some c)
    (moved : c.Move u σ.server c') : Step σ { σ with commands := σ.commands.set k c' }
  /-- The client replies to a request that is no edit of the document. -/
  | answer {σ : State u} {k : Nat} {c : Command} {q : ClientRequest}
    {next : Reply → Exchange Ending} (command : σ.commands[k]? = some c) (asks : c.Asks q next)
    (other : ∀ e, q = .applyEdit e → e.uri.text ≠ u.text) (reply : Reply) :
    Step σ { σ with commands := σ.commands.set k { c with reply := some reply } }
  /-- The client makes an edit of the buffer's version, or one without a version. -/
  | accept {σ : State u} {k : Nat} {c : Command} {e : DocumentEdit}
    {next : Reply → Exchange Ending} {reply : Reply} {a : Announcement u}
    (command : σ.commands[k]? = some c) (asks : c.Asks (.applyEdit e) next)
    (same : e.uri.text = u.text) (current : ∀ v, e.version = some v → v = σ.buffer.version)
    (newer : σ.buffer.version < a.copy.version)
    (spliced : a.copy.text = Text.splice σ.buffer.text e.position e.newText)
    (yes : accepts reply = true) :
    Step σ { σ with
      buffer := a.copy
      pending := σ.pending ++ [a]
      commands := σ.commands.set k { c with reply := some reply }
      changes := .inserted c.rule c.read e a.copy :: σ.changes }
  /-- The client refuses an edit of another version. -/
  | refuse {σ : State u} {k : Nat} {c : Command} {e : DocumentEdit}
    {next : Reply → Exchange Ending} {v : Json} {r : ApplyEditResult}
    (command : σ.commands[k]? = some c) (asks : c.Asks (.applyEdit e) next)
    (same : e.uri.text = u.text) (stale : e.version ≠ some σ.buffer.version)
    (decoded : ApplyEditResult.decode v = .ok r) (no : r.applied = false) :
    Step σ { σ with
      commands := σ.commands.set k { c with reply := some (.result v), refused := true } }

/-- The edit is what the planner makes of a text for a rule, with the version of that text. -/
structure Planned (rule : Text) (d : Document) (e : DocumentEdit) : Prop where
  version : e.version = some d.version
  plan : ∃ (path : Path) (settings : Settings) (cursor : Position),
    Uri.ofFilePath? path = some e.uri ∧ Config.plan d.text (.ofPath path) rule settings.indentUnit =
      some ⟨e.position, e.newText, cursor⟩

/-- The buffer comes of the initial one by the changes, each of which has a larger version. An
insertion is planned from the very buffer that it is made in, which is what its command has
read. -/
inductive Replays (initial : Document) : List Change → Document → Prop
  | initial : Replays initial [] initial
  | typed {cs : List Change} {d d' : Document} (before : Replays initial cs d)
    (newer : d.version < d'.version) : Replays initial (.typed d' :: cs) d'
  | inserted {cs : List Change} {d d' : Document} {rule : Text} {e : DocumentEdit}
    (before : Replays initial cs d) (newer : d.version < d'.version)
    (planned : Planned rule d e) (spliced : d'.text = Text.splice d.text e.position e.newText) :
    Replays initial (.inserted rule (some d) e d' :: cs) d'

/-- The versions that the edits which were made had been planned from. -/
def plannedVersions (cs : List Change) : List Int :=
  cs.filterMap fun
    | .inserted _ (some d) _ _ => some d.version
    | _ => none

/-- The command is left with nothing to do but to fail because its edit was rejected. -/
def Command.Rejected (c : Command) : Prop :=
  ∃ path reason versions, c.remaining = .done (.error (.editRejected path reason), versions)

end RuleOff.OpenBuffer
