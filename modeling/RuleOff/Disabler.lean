import RuleOff.Config.Insertion
import RuleOff.Error
import RuleOff.Log
import RuleOff.Settings

/-!
# Switching a rule off

The disable command finds the configuration file of a workspace, plans the insertion and has it
made in the editor. What it needs of the file system and the editor is a record of operations in
any monad, so that the command runs in an editor session as well as in memory.

## Main definitions

* `Editor`: the operations.
* `disable`: the command.
-/

namespace RuleOff

/-- What the disable command needs of the file system and the editor. -/
structure Editor (m : Type → Type) where
  isFile : Path → m Bool
  read : Path → ExceptT DisableError m Text
  /-- How the document is indented; the given settings are for an editor that cannot say. -/
  indentation : Path → Settings → m Settings
  /-- Inserts a text into the document. -/
  insert : Path → Position → Text → ExceptT DisableError m Unit
  /-- Shows the document, with the cursor at the position if one is given. -/
  reveal : Path → Option Position → ExceptT DisableError m Unit
  /-- Writes a line of the log. -/
  record : LogRecord → m Unit

/-- What the log says about a rule that was switched off. -/
def disabledRecord (rule : Text) (path : Path) (i : Config.Insertion) : LogRecord :=
  .info ("Disabled ".toList ++ rule ++ " in ".toList ++ path.text ++ " at line ".toList ++
    Text.ofNat (i.cursor.line + 1).toNat)

/-- Switches a rule off in the configuration file of a directory, and answers the insertion that
was made. A JSON file without a header of the rules section is shown and left alone. -/
def disable {m : Type → Type} [Monad m] (ed : Editor m) (fallback : Settings) (root : Path)
    (rule : Text) : ExceptT DisableError m Config.Insertion := do
  match ← ExceptT.lift (Config.locate ed.isFile root) with
  | none => throw (.configNotFound root)
  | some path =>
    let t ← ed.read path
    let settings ← ExceptT.lift (ed.indentation path fallback)
    match Config.plan t (.ofPath path) rule settings.indentUnit with
    | none =>
      ed.reveal path none
      throw (.rulesSectionNotFound path)
    | some i =>
      ed.insert path i.position i.text
      ed.reveal path (some i.cursor)
      ExceptT.lift (ed.record (disabledRecord rule path i))
      pure i

end RuleOff
