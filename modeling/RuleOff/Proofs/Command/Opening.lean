import RuleOff.Proofs.Command.Edit
import RuleOff.Proofs.Session.Snapshot

/-!
# How a command comes to its text

Before it asks the client anything, a disable command looks for its file and takes the text. It ends
there with an error, or goes on to plan the entry.

## Main definitions

* `Command.telling`: what is told of the end of a command.

## Main statements

* `Command.disableRule_of_folder`: a command in a folder is its script, and then tells of its end.
* `Command.settled_locating`: where a command stands when it has looked for its file.
-/

namespace RuleOff.Command

open Script Session

variable {disk : Disk} {s : Server} {fallback : Settings} {path : Path} {u : Uri} {rule : Text}

/-- What the log and the user are told of the end of a command. -/
def telling (rule : Text) : Except DisableError Config.Insertion → Exchange Unit
  | .ok _ => .done ()
  | .error e =>
    .log (.warn ("Disabling ".toList ++ rule ++ " failed: ".toList ++ e.message))
      (.notify (.showMessage .error e.message) (.done ()))

theorem disableRule_of_no_folder (folder : s.folders.head? = none) :
    s.disableRule rule =
      .log (.warn ("No workspace folder open; cannot disable ".toList ++ rule)) (.done ()) := by
  unfold Server.disableRule
  rw [folder]

theorem disableRule_of_folder {root : Path} (folder : s.folders.head? = some root) :
    s.disableRule rule =
      (locating s.settings root rule (Config.candidates.map root.join)).bind fun ending =>
        telling rule ending.1 := by
  unfold Server.disableRule
  rw [folder]
  dsimp only
  rw [disable_run]
  rfl

theorem settled_opening :
    (∃ e, settled disk s (opening fallback path u rule) = .done (.error e, .empty)) ∨
      ∃ t version versions, Opens disk s path u t version ∧ versions.get? u.text = version ∧
        settled disk s (opening fallback path u rule) =
          planning fallback path u rule versions t := by
  unfold opening settled
  cases tracked : s.document? u with
  | some d =>
    refine .inr ⟨d.text, d.version, _, .copy tracked, ?_, rfl⟩
    rw [Table.get?_insert, if_pos rfl]
  | none =>
    cases contents : disk.read path with
    | ok t =>
      refine .inr ⟨t, none, .empty, .file tracked contents, rfl, ?_⟩
      unfold settled
      rw [contents]
      rfl
    | error reason =>
      refine .inl ⟨.readFailed path reason.message, ?_⟩
      unfold settled
      rw [contents]
      rfl

theorem settled_locating_cons (root : Path) (paths : List Path) :
    settled disk s (locating fallback root rule (path :: paths)) =
      settled disk s (if disk.isFile path then addressing fallback path rule
        else locating fallback root rule paths) := rfl

/-- A command that has looked for its file is over, with an error, or has opened the first candidate
that is a file. -/
theorem settled_locating (root : Path) (names : List Text) :
    (∃ e, settled disk s (locating fallback root rule (names.map root.join)) =
        .done (.error e, .empty)) ∨
      ∃ name u t version versions,
        names.find? (fun n => disk.isFile (root.join n)) = some name ∧
        Uri.ofFilePath? (root.join name) = some u ∧
        Opens disk s (root.join name) u t version ∧ versions.get? u.text = version ∧
        settled disk s (locating fallback root rule (names.map root.join)) =
          planning fallback (root.join name) u rule versions t := by
  induction names with
  | nil => exact .inl ⟨.configNotFound root, rfl⟩
  | cons name names ih =>
    rw [List.map_cons, settled_locating_cons]
    by_cases file : disk.isFile (root.join name) = true
    · rw [if_pos file]
      have first : (name :: names).find? (fun n => disk.isFile (root.join n)) = some name :=
        List.find?_cons_of_pos file
      unfold addressing
      cases address : Uri.ofFilePath? (root.join name) with
      | none => exact .inl ⟨.invalidPath (root.join name), rfl⟩
      | some u =>
        have opened := @settled_opening disk s fallback (root.join name) u rule
        rcases opened with ended | ⟨t, version, versions, opens, known, ready⟩
        · exact .inl ended
        · exact .inr ⟨name, u, t, version, versions, first, address, opens, known, ready⟩
    · rw [if_neg file]
      have later : (name :: names).find? (fun n => disk.isFile (root.join n)) =
          names.find? fun n => disk.isFile (root.join n) := List.find?_cons_of_neg file
      rw [later]
      exact ih

end RuleOff.Command
