import RuleOff.Disabler
import RuleOff.Exchange
import RuleOff.Table

/-!
# Editing through the client

The operations of the disable command as a conversation with the client. A document that the
client has open is read from the server's copy of it, any other from its file. An edit of a
document that was read from a copy carries the version of that copy, so that the client refuses it
if the document has changed since.

## Main definitions

* `ClientEditor.editor`: the operations.
* `ClientEditor.ReadVersions`: the versions under which documents were read.
-/

namespace RuleOff.ClientEditor

/-- The version under which each document was last read from the server's copy. -/
abbrev ReadVersions := Table Int

/-- Conversations that remember the versions they have read. -/
abbrev Talk := StateT ReadVersions Exchange

/-- The section of the configuration that holds the editor's indentation. -/
def editorSection : Text := "editor".toList

def ask (q : ClientRequest) : Talk Reply := StateT.lift (.ask q .done)

/-- Writes a line of the log. -/
def record (r : LogRecord) : Talk Unit := StateT.lift (.log r (.done ()))

def uriOf (p : Path) : ExceptT DisableError Talk Uri :=
  match Uri.ofFilePath? p with
  | some u => pure u
  | none => throw (.invalidPath p)

/-- The text of the document at a path, from the server's copy or else from the file. -/
def read (p : Path) : ExceptT DisableError Talk Text := do
  let u ← uriOf p
  match ← ExceptT.lift (StateT.lift (.document u .done)) with
  | some d =>
    ExceptT.lift (modify fun versions => versions.insert u.text d.version)
    pure d.text
  | none =>
    match ← ExceptT.lift (StateT.lift (.readFile p .done)) with
    | .ok t => pure t
    | .error reason => throw (.readFailed p reason)

/-- What a configuration answer says about the indentation: the settings, overlaid with the first
of the values, and a line of the log if that value is not valid. -/
def indentationFrom (fallback : Settings) (values : List Json) : Settings × Option LogRecord :=
  match values with
  | [] => (fallback, none)
  | v :: _ =>
    match fallback.overlay v with
    | .ok (some s) => (s, none)
    | .ok none => (fallback, none)
    | .error e =>
      (fallback,
        some (.warn ("Ignoring editor indentation: ".toList ++ Settings.overlayMessage e)))

def indentation (p : Path) (fallback : Settings) : Talk Settings := do
  match ← ask (.configuration (Uri.ofFilePath? p) editorSection) with
  | .result (.arr values) =>
    let (s, warning) := indentationFrom fallback values
    match warning with
    | some r =>
      record r
      pure s
    | none => pure s
  | _ => pure fallback

def insert (p : Path) (position : Position) (t : Text) : ExceptT DisableError Talk Unit := do
  let u ← uriOf p
  let version := (← ExceptT.lift get).get? u.text
  match ← ExceptT.lift (ask (.applyEdit ⟨u, version, position, t⟩)) with
  | .failure e => throw (.client e)
  | .result v =>
    match ApplyEditResult.decode v with
    | .error e => throw (.client (.undecodable e))
    | .ok r => if r.applied then pure () else throw (.editRejected p r.failureReason)

/-- Has the client show a document. A client that does not is no failure of the command. -/
def reveal (p : Path) (cursor : Option Position) : ExceptT DisableError Talk Unit := do
  let u ← uriOf p
  let failed (e : ClientError) : LogRecord :=
    .warn ("Could not show ".toList ++ p.text ++ ": ".toList ++ e.text)
  match ← ExceptT.lift (ask (.showDocument u cursor)) with
  | .failure e => ExceptT.lift (record (failed e))
  | .result v =>
    match decodeShown v with
    | .error e => ExceptT.lift (record (failed (.undecodable e)))
    | .ok true => pure ()
    | .ok false =>
      ExceptT.lift (record (.warn ("Client declined to show ".toList ++ p.text)))

/-- The operations of the disable command, through the client. -/
def editor : Editor Talk where
  isFile p := StateT.lift (.isFile p .done)
  read := read
  indentation := indentation
  insert := insert
  reveal := reveal
  record := record

end RuleOff.ClientEditor
