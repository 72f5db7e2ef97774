import RuleOff.Disabler

/-!
# A workspace in memory

An editor over files that are held in memory. It keeps the list of operations that were asked of
it, and can be told to let one of them fail.

## Main definitions

* `Workspace`: the files, and what happened so far.
* `Workspace.editor`: the operations on it.
* `Workspace.disable`: the disable command in it.
-/

namespace RuleOff

/-- An operation that was asked of an editor. -/
inductive Call where
  | isFile (p : Path)
  | read (p : Path)
  | indentation (p : Path) (fallback : Settings)
  | insert (p : Path) (place : Position) (t : Text)
  | reveal (p : Path) (cursor : Option Position)
deriving DecidableEq, Repr, Inhabited

/-- Files held in memory, the operations asked so far, and the log. -/
structure Workspace where
  files : List (Path × Text) := []
  calls : List Call := []
  log : List LogRecord := []
deriving Repr, Inhabited

namespace Workspace

/-- How the editor behaves: the indentation it reports, if any, and the operations that fail. -/
structure Behaviour where
  indentation : Option Settings := none
  readFailure : Option (Path → DisableError) := none
  insertFailure : Option (Path → DisableError) := none
  revealFailure : Option (Path → DisableError) := none

def text? (w : Workspace) (p : Path) : Option Text :=
  (w.files.find? fun f => f.1.same p).map Prod.snd

/-- The workspace with the given files. Of two files at the same place the later one counts. -/
def ofFiles (files : List (Path × Text)) : Workspace :=
  { files := files.foldl (fun fs f => fs.filter (fun g => !g.1.same f.1) ++ [f]) [] }

/-- The files with a text put at a path. A file that is there keeps its path and place. -/
def putFile (p : Path) (t : Text) : List (Path × Text) → List (Path × Text)
  | [] => [(p, t)]
  | (q, u) :: fs => if q.same p then (q, t) :: fs else (q, u) :: putFile p t fs

def put (w : Workspace) (p : Path) (t : Text) : Workspace :=
  { w with files := putFile p t w.files }

/-- Notes that an operation was asked. -/
def note (c : Call) : StateM Workspace Unit :=
  modify fun w => { w with calls := w.calls ++ [c] }

def failing (failure : Option (Path → DisableError)) (p : Path) :
    ExceptT DisableError (StateM Workspace) Unit :=
  match failure with
  | some f => throw (f p)
  | none => pure ()

/-- The reason for a file that is not there. -/
def missing : Text := "No such file or directory (os error 2)".toList

/-- The operations on a workspace. -/
def editor (b : Behaviour) : Editor (StateM Workspace) where
  isFile p := do
    note (.isFile p)
    return ((← get).text? p).isSome
  read p := do
    ExceptT.lift (note (.read p))
    failing b.readFailure p
    match (← ExceptT.lift get).text? p with
    | some t => pure t
    | none => throw (.readFailed p missing)
  indentation p fallback := do
    note (.indentation p fallback)
    return b.indentation.getD fallback
  insert p place t := do
    ExceptT.lift (note (.insert p place t))
    failing b.insertFailure p
    ExceptT.lift (modify fun w =>
      match w.text? p with
      | some u => w.put p (Text.splice u place t)
      | none => w)
  reveal p cursor := do
    ExceptT.lift (note (.reveal p cursor))
    failing b.revealFailure p
  record r := modify fun w => { w with log := w.log ++ [r] }

def disable (w : Workspace) (b : Behaviour) (settings : Settings) (root : Path) (rule : Text) :
    Except DisableError Config.Insertion × Workspace :=
  (RuleOff.disable (editor b) settings root rule).run.run w

/-- The first candidate in a directory among the files, and the workspace afterwards. -/
def locate (w : Workspace) (root : Path) : Option Path × Workspace :=
  (Config.locate (editor {}).isFile root).run w

end Workspace

end RuleOff
