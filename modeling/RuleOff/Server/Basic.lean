import RuleOff.Exchange
import RuleOff.Protocol.Params
import RuleOff.Settings
import RuleOff.Table

/-!
# The state of the server

What the server remembers between two messages: how far the session has come, the open documents,
the folders of the workspace, and the settings.

## Main definitions

* `Server`: the state.
* `Server.openDocument`, `Server.changeDocument`, `Server.closeDocument`: changes of documents.
* `Server.changeFolders`: a change of folders.
* `Server.updateSettings`: a change of settings.
-/

namespace RuleOff

/-- How far a session has come. -/
inductive Phase where
  /-- The server has not been initialized. -/
  | fresh
  /-- The server is at work. -/
  | running
  /-- The server only waits to be stopped. -/
  | shutDown
  /-- The server has stopped. -/
  | exited
deriving DecidableEq, Repr, Inhabited

/-- What the server remembers between two messages. -/
structure Server where
  phase : Phase := .fresh
  /-- The open documents, by the texts of their URIs. -/
  documents : Table Document := .empty
  /-- The folders of the workspace, of which the first holds the configuration. -/
  folders : List Path := []
  /-- The indentation for an editor that does not report its own. -/
  settings : Settings := {}
deriving Repr, Inhabited

namespace Server

/-- The copy of an open document. -/
def document? (s : Server) (u : Uri) : Option Document := s.documents.get? u.text

/-- Takes a copy of a document that was opened. -/
def openDocument (s : Server) (p : OpenParams) : Server :=
  { s with documents := s.documents.insert p.uri.text ⟨p.text, p.version⟩ }

/-- Replaces the copy of a document by the last of its new texts. A document that is not open and
a change without a text are left alone. -/
def changeDocument (s : Server) (p : ChangeParams) : Server :=
  match s.document? p.uri, p.texts.getLast? with
  | some _, some t => { s with documents := s.documents.insert p.uri.text ⟨t, p.version⟩ }
  | _, _ => s

/-- Drops the copy of a document that was closed. -/
def closeDocument (s : Server) (u : Uri) : Server :=
  { s with documents := s.documents.erase u.text }

/-- The local paths of folders. A folder without one is left out. -/
def localPaths (folders : List WorkspaceFolder) : List Path :=
  folders.filterMap fun f => f.uri.toFilePath?

/-- Takes the removed folders away, all copies of each, and then puts the added ones at the end. -/
def changeFolders (s : Server) (c : FolderChange) : Server :=
  let removed := localPaths c.removed
  let kept := s.folders.filter fun p => !removed.any fun q => q.same p
  { s with folders := kept ++ localPaths c.added }

/-- The folders that the client names at the start: those of the workspace if it gives a list of
them, even an empty one, and otherwise the root. -/
def initialFolders (p : StartParams) : List Path :=
  match p.folders with
  | some folders => localPaths folders
  | none => (p.rootUri.bind Uri.toFilePath?).toList

/-- Overlays the settings with a JSON value. An invalid value changes nothing and leaves a line in
the log. -/
def updateSettings (s : Server) (v : Json) : Server × List LogRecord :=
  match s.settings.overlay v with
  | .ok (some settings) => ({ s with settings := settings }, [])
  | .ok none => (s, [])
  | .error e =>
    (s, [.warn ("Ignoring invalid settings: ".toList ++ Settings.overlayMessage e)])

end Server

end RuleOff
