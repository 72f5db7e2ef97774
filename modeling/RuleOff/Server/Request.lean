import RuleOff.ClientEditor
import RuleOff.Server.Capabilities
import RuleOff.Server.Notification

/-!
# Answering requests

What the server does with a message that is answered. A request changes the state at once, and
what else it brings about is a conversation that ends in the response.

## Main definitions

* `Server.disableRule`: the conversation that switches a rule off.
* `Server.answer`: the state after a request, and the conversation that ends in its response.
-/

namespace RuleOff.Server

/-- A conversation that writes lines of the log and ends in a response. -/
def logThen (records : List LogRecord) (r : Response) : Exchange (Option Response) :=
  records.foldr Exchange.log (.done (some r))

/-- A refusal on the spot. -/
def refuse (r : Refusal) : Exchange (Option Response) := .done (some (.refused r))

/-- The refusal of a request that needs a server at work. -/
def refusalIn : Phase → Refusal
  | .fresh => .notInitialized
  | _ => .invalidRequest

/-- Switches a rule off in the first folder, and tells the user if that fails. -/
def disableRule (s : Server) (rule : Text) : Exchange Unit :=
  match s.folders.head? with
  | none =>
    .log (.warn ("No workspace folder open; cannot disable ".toList ++ rule)) (.done ())
  | some root => do
    let (outcome, _) ← (disable ClientEditor.editor s.settings root rule).run.run .empty
    match outcome with
    | .ok _ => pure ()
    | .error e =>
      .log (.warn ("Disabling ".toList ++ rule ++ " failed: ".toList ++ e.message))
        (.notify (.showMessage .error e.message) (.done ()))

/-- The rule that a command is about: its first argument, if that is a string. -/
def ruleArgument? (arguments : List Json) : Option Text := arguments.head?.bind Json.str?

def runCommand (s : Server) (p : CommandParams) : Exchange (Option Response) :=
  if p.command ≠ CodeAction.disableCommand then
    logThen [.warn ("Unknown command: ".toList ++ p.command)] (.refused .notOffered)
  else
    match ruleArgument? p.arguments with
    | none => refuse .missingRule
    | some rule => do
      s.disableRule rule
      pure (some (.result .null))

/-- The response to a request for code actions: `null` if there are none. -/
def codeActionResult (p : CodeActionParams) : Json :=
  match CodeAction.offered p.uri p.diagnostics with
  | [] => .null
  | actions => .arr (actions.map CodeAction.toJson)

def start (s : Server) (p : StartParams) : Server × Exchange (Option Response) :=
  let s := { s with phase := .running, folders := initialFolders p }
  let (s, records) :=
    match p.options with
    | some v => s.updateSettings v
    | none => (s, [])
  (s, logThen (.info "ESLint disable server initializing".toList :: records) (.result greeting))

def answerRunning (s : Server) (r : Invocation) : Exchange (Option Response) :=
  match Method.ofName r.method with
  | .codeAction =>
    match readParams? CodeActionParams.decode r.params with
    | some p => .done (some (.result (codeActionResult p)))
    | none => refuse .undecodable
  | .executeCommand =>
    match readParams? CommandParams.decode r.params with
    | some p => s.runCommand p
    | none => refuse .undecodable
  | .unofferedRequest =>
    if Feature.accepts r.method r.params then refuse .notOffered else refuse .undecodable
  | _ => refuse .invalidRequest

/-- The state after a request, and the conversation that ends in its response. A request for an
optional method that the server does not know, and `exit`, have no response. -/
def answer (s : Server) (r : Invocation) : Server × Exchange (Option Response) :=
  match Method.ofName r.method with
  | .unknown =>
    (s, if Method.isOptional r.method then .done none else refuse (.unknownMethod r.method))
  | .exit => ({ s with phase := .exited }, .done none)
  | .start =>
    if s.phase = .fresh then
      match readParams? StartParams.decode r.params with
      | some p => s.start p
      | none => (s, refuse .undecodable)
    else (s, refuse .invalidRequest)
  | .shutdown =>
    if s.phase = .running then
      ({ s with phase := .shutDown },
        if r.params.isNone then
          logThen [.info "ESLint disable server shutting down".toList] (.result .null)
        else refuse .undecodable)
    else (s, refuse (refusalIn s.phase))
  | _ => if s.phase = .running then (s, s.answerRunning r) else (s, refuse (refusalIn s.phase))

end RuleOff.Server
