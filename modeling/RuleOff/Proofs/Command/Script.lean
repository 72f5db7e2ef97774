import RuleOff.ClientEditor

/-!
# The script of the disable command

The disable command is written against operations that remember versions and may fail. This module
writes out the conversation that comes of it, stage by stage, with the URI and the versions that
each stage holds.

## Main definitions

* `Script.locating`, `addressing`, `opening`, `planning`, `inserting`, `revealing`, `pointing`: the
  stages.
* `Script.reported`, `editFailure?`, `accepts`, `shownRecord?`: what a stage makes of a reply.

## Main statements

* `Script.disable_run`: the command is its script.

## Design notes

Everything that a suspended command knows stands in the arguments of its stage. A property of
commands under way is stated about the stage, and needs nothing of how the command came there.
-/

namespace RuleOff.Script

open ClientEditor

/-- What the command comes to: an insertion or an error, and the versions it has read. -/
abbrev Ending := Except DisableError Config.Insertion × ReadVersions

/-- A line of the log, if there is one, before what follows. -/
def noting {α : Type} : Option LogRecord → Exchange α → Exchange α
  | some r, next => .log r next
  | none, next => next

/-- The indentation that a reply reports, and what the log says about an invalid one. -/
def reported (fallback : Settings) : Reply → Settings × Option LogRecord
  | .result (.arr values) => indentationFrom fallback values
  | _ => (fallback, none)

/-- Why an edit was not made, by the reply to it. -/
def editFailure? (path : Path) : Reply → Option DisableError
  | .failure e => some (.client e)
  | .result v =>
    match ApplyEditResult.decode v with
    | .error e => some (.client (.undecodable e))
    | .ok r => if r.applied then none else some (.editRejected path r.failureReason)

/-- Whether a reply to an edit says that it was made. -/
def accepts : Reply → Bool
  | .failure _ => false
  | .result v =>
    match ApplyEditResult.decode v with
    | .error _ => false
    | .ok r => r.applied

theorem editFailure?_eq_none_iff {path : Path} {reply : Reply} :
    editFailure? path reply = none ↔ accepts reply = true := by
  cases reply with
  | failure e => simp [editFailure?, accepts]
  | result v =>
    simp only [editFailure?, accepts]
    cases ApplyEditResult.decode v with
    | error e => simp
    | ok r => by_cases hr : r.applied <;> simp [hr]

/-- What the log says of a document that was not shown. -/
def shownRecord? (path : Path) : Reply → Option LogRecord
  | .failure e => some (.warn ("Could not show ".toList ++ path.text ++ ": ".toList ++ e.text))
  | .result v =>
    match decodeShown v with
    | .error e =>
      some (.warn ("Could not show ".toList ++ path.text ++ ": ".toList ++
        (ClientError.undecodable e).text))
    | .ok true => none
    | .ok false => some (.warn ("Client declined to show ".toList ++ path.text))

/-- The edit was made, and the entry is shown. -/
def revealing (path : Path) (u : Uri) (rule : Text) (versions : ReadVersions)
    (i : Config.Insertion) : Exchange Ending :=
  .ask (.showDocument u (some i.cursor)) fun reply =>
    noting (shownRecord? path reply) (.log (disabledRecord rule path i) (.done (.ok i, versions)))

/-- The edit is asked for. -/
def inserting (path : Path) (u : Uri) (rule : Text) (versions : ReadVersions)
    (i : Config.Insertion) : Exchange Ending :=
  .ask (.applyEdit ⟨u, versions.get? u.text, i.position, i.text⟩) fun reply =>
    match editFailure? path reply with
    | some e => .done (.error e, versions)
    | none => revealing path u rule versions i

/-- There is no place for an entry, and the document is shown instead. -/
def pointing (path : Path) (u : Uri) (versions : ReadVersions) : Exchange Ending :=
  .ask (.showDocument u none) fun reply =>
    noting (shownRecord? path reply) (.done (.error (.rulesSectionNotFound path), versions))

/-- The text is known, and the client is asked for the indentation. -/
def planning (fallback : Settings) (path : Path) (u : Uri) (rule : Text)
    (versions : ReadVersions) (t : Text) : Exchange Ending :=
  .ask (.configuration (some u) editorSection) fun reply =>
    noting (reported fallback reply).2
      (match Config.plan t (.ofPath path) rule (reported fallback reply).1.indentUnit with
      | none => pointing path u versions
      | some i => inserting path u rule versions i)

/-- The document is read, with its version if the server has a copy. -/
def opening (fallback : Settings) (path : Path) (u : Uri) (rule : Text) : Exchange Ending :=
  .document u fun copy =>
    match copy with
    | some d => planning fallback path u rule (Table.empty.insert u.text d.version) d.text
    | none =>
      .readFile path fun contents =>
        match contents with
        | .ok t => planning fallback path u rule .empty t
        | .error reason => .done (.error (.readFailed path reason), .empty)

/-- The file is known, and gets its URI. -/
def addressing (fallback : Settings) (path : Path) (rule : Text) : Exchange Ending :=
  match Uri.ofFilePath? path with
  | some u => opening fallback path u rule
  | none => .done (.error (.invalidPath path), .empty)

/-- The candidates are looked at, one after the other. -/
def locating (fallback : Settings) (root : Path) (rule : Text) : List Path → Exchange Ending
  | [] => .done (.error (.configNotFound root), .empty)
  | path :: paths =>
    .isFile path fun found =>
      if found then addressing fallback path rule else locating fallback root rule paths

section Operations

variable {path : Path} {u : Uri} {α : Type}

theorem uriOf_bind (h : Uri.ofFilePath? path = some u) (f : Uri → ExceptT DisableError Talk α) :
    uriOf path >>= f = f u := by
  unfold uriOf
  rw [h]
  rfl

theorem ask_bind_run (q : ClientRequest) (f : Reply → ExceptT DisableError Talk α)
    (versions : ReadVersions) :
    (ExceptT.lift (ask q) >>= f).run.run versions =
      .ask q fun reply => (f reply).run.run versions := rfl

theorem reveal_run (h : Uri.ofFilePath? path = some u) (cursor : Option Position)
    (versions : ReadVersions) :
    (reveal path cursor).run.run versions =
      .ask (.showDocument u cursor) fun reply =>
        noting (shownRecord? path reply) (.done (.ok (), versions)) := by
  unfold reveal
  rw [uriOf_bind h, ask_bind_run]
  congr 1
  funext reply
  cases reply with
  | failure e => rfl
  | result v =>
    simp only [shownRecord?]
    cases decodeShown v with
    | error e => rfl
    | ok shown => cases shown <;> rfl

theorem insert_run (h : Uri.ofFilePath? path = some u) (p : Position) (t : Text)
    (versions : ReadVersions) :
    (ClientEditor.insert path p t).run.run versions =
      .ask (.applyEdit ⟨u, versions.get? u.text, p, t⟩) fun reply =>
        match editFailure? path reply with
        | some e => .done (.error e, versions)
        | none => .done (.ok (), versions) := by
  unfold ClientEditor.insert
  rw [uriOf_bind h]
  change (ExceptT.lift (ask _) >>= _).run.run versions = _
  rw [ask_bind_run]
  congr 1
  funext reply
  cases reply with
  | failure e => rfl
  | result v =>
    simp only [editFailure?]
    cases ApplyEditResult.decode v with
    | error e => rfl
    | ok r =>
      by_cases hr : r.applied
      · simp only [hr]
        rfl
      · simp only [hr]
        rfl

theorem talk_ask_bind_run (q : ClientRequest) (f : Reply → Talk α) (versions : ReadVersions) :
    (ask q >>= f).run versions = .ask q fun reply => (f reply).run versions := rfl

theorem indentation_run (path : Path) (fallback : Settings) (versions : ReadVersions) :
    (indentation path fallback).run versions =
      .ask (.configuration (Uri.ofFilePath? path) editorSection) fun reply =>
        noting (reported fallback reply).2 (.done ((reported fallback reply).1, versions)) := by
  unfold indentation
  rw [talk_ask_bind_run]
  congr 1
  funext reply
  cases reply with
  | failure e => rfl
  | result v =>
    cases v with
    | arr values =>
      simp only [reported]
      generalize indentationFrom fallback values = told
      obtain ⟨s, warning⟩ := told
      cases warning <;> rfl
    | _ => rfl

theorem read_run (h : Uri.ofFilePath? path = some u) (versions : ReadVersions) :
    (ClientEditor.read path).run.run versions =
      .document u fun copy =>
        match copy with
        | some d => .done (.ok d.text, versions.insert u.text d.version)
        | none =>
          .readFile path fun contents =>
            match contents with
            | .ok t => .done (.ok t, versions)
            | .error reason => .done (.error (.readFailed path reason), versions) := by
  unfold ClientEditor.read
  rw [uriOf_bind h]
  change Exchange.document _ _ = _
  congr 1
  funext copy
  cases copy with
  | some d => rfl
  | none =>
    change Exchange.readFile _ _ = _
    congr 1
    funext contents
    cases contents <;> rfl

/-- An operation on a path without a URI fails at once. -/
theorem uriOf_bind_run_of_none (h : Uri.ofFilePath? path = none)
    (f : Uri → ExceptT DisableError Talk α) (versions : ReadVersions) :
    (uriOf path >>= f).run.run versions = .done (.error (.invalidPath path), versions) := by
  unfold uriOf
  rw [h]
  rfl

theorem read_run_of_none (h : Uri.ofFilePath? path = none) (versions : ReadVersions) :
    (ClientEditor.read path).run.run versions = .done (.error (.invalidPath path), versions) :=
  uriOf_bind_run_of_none h _ versions

end Operations

section Assembly

variable {α β : Type}

theorem noting_bind (r : Option LogRecord) (x : Exchange α) (f : α → Exchange β) :
    (noting r x).bind f = noting r (x.bind f) := by
  cases r <;> rfl

theorem bind_run (x : ExceptT DisableError Talk α) (f : α → ExceptT DisableError Talk β)
    (versions : ReadVersions) :
    (x >>= f).run.run versions =
      (x.run.run versions).bind fun a =>
        match a with
        | (.ok b, versions) => (f b).run.run versions
        | (.error e, versions) => .done (.error e, versions) := by
  change (x.run.run versions).bind _ = _
  congr 1
  funext a
  obtain ⟨outcome, versions⟩ := a
  cases outcome <;> rfl

theorem lift_bind_run (x : Talk α) (f : α → ExceptT DisableError Talk β)
    (versions : ReadVersions) :
    (ExceptT.lift x >>= f).run.run versions =
      (x.run versions).bind fun a => (f a.1).run.run a.2 := by
  rw [bind_run]
  -- A lifted operation never fails, so the case split of `bind_run` has one case only.
  change ((x.run versions).bind fun a => Exchange.done (Except.ok a.1, a.2)).bind _ = _
  rw [Exchange.bind_assoc]
  rfl

end Assembly

/-- The command once its file is known. -/
def inFile (fallback : Settings) (path : Path) (rule : Text) :
    ExceptT DisableError Talk Config.Insertion := do
  let t ← ClientEditor.read path
  let settings ← ExceptT.lift (indentation path fallback)
  match Config.plan t (.ofPath path) rule settings.indentUnit with
  | none =>
    reveal path none
    throw (.rulesSectionNotFound path)
  | some i =>
    ClientEditor.insert path i.position i.text
    reveal path (some i.cursor)
    ExceptT.lift (record (disabledRecord rule path i))
    pure i

section InFile

variable {path : Path} {u : Uri} (fallback : Settings) (rule : Text) (versions : ReadVersions)

theorem pointing_run (h : Uri.ofFilePath? path = some u) :
    (reveal path none >>= fun _ =>
      (throw (.rulesSectionNotFound path) : ExceptT DisableError Talk Config.Insertion)).run.run
        versions = pointing path u versions := by
  rw [bind_run, reveal_run h]
  unfold pointing
  simp only [Exchange.bind, noting_bind]
  rfl

theorem revealing_run (h : Uri.ofFilePath? path = some u) (i : Config.Insertion) :
    (reveal path (some i.cursor) >>= fun _ =>
      ExceptT.lift (record (disabledRecord rule path i)) >>= fun _ =>
        (pure i : ExceptT DisableError Talk Config.Insertion)).run.run versions =
      revealing path u rule versions i := by
  rw [bind_run, reveal_run h]
  unfold revealing
  simp only [Exchange.bind, noting_bind]
  rfl

theorem inserting_run (h : Uri.ofFilePath? path = some u) (i : Config.Insertion) :
    (ClientEditor.insert path i.position i.text >>= fun _ =>
      reveal path (some i.cursor) >>= fun _ =>
        ExceptT.lift (record (disabledRecord rule path i)) >>= fun _ =>
          (pure i : ExceptT DisableError Talk Config.Insertion)).run.run versions =
      inserting path u rule versions i := by
  rw [bind_run, insert_run h]
  unfold inserting
  simp only [Exchange.bind]
  congr 1
  funext reply
  cases editFailure? path reply with
  | some e => rfl
  | none => exact revealing_run rule versions h i

theorem inFile_run (h : Uri.ofFilePath? path = some u) :
    (inFile fallback path rule).run.run .empty = opening fallback path u rule := by
  have planned : ∀ (t : Text) (versions : ReadVersions),
      (ExceptT.lift (indentation path fallback) >>= fun settings =>
        match Config.plan t (.ofPath path) rule settings.indentUnit with
        | none =>
          reveal path none >>= fun _ =>
            (throw (.rulesSectionNotFound path) : ExceptT DisableError Talk Config.Insertion)
        | some i =>
          ClientEditor.insert path i.position i.text >>= fun _ =>
            reveal path (some i.cursor) >>= fun _ =>
              ExceptT.lift (record (disabledRecord rule path i)) >>= fun _ =>
                pure i).run.run versions = planning fallback path u rule versions t := by
    intro t versions
    rw [lift_bind_run, indentation_run, h]
    unfold planning
    simp only [Exchange.bind, noting_bind]
    congr 1
    funext reply
    congr 1
    cases Config.plan t (.ofPath path) rule (reported fallback reply).1.indentUnit with
    | none => exact pointing_run versions h
    | some i => exact inserting_run rule versions h i
  unfold inFile
  rw [bind_run, read_run h]
  unfold opening
  simp only [Exchange.bind]
  congr 1
  funext copy
  cases copy with
  | some d => exact planned d.text _
  | none =>
    simp only [Exchange.bind]
    congr 1
    funext contents
    cases contents with
    | ok t => exact planned t .empty
    | error reason => rfl

theorem inFile_run_addressing :
    (inFile fallback path rule).run.run .empty = addressing fallback path rule := by
  unfold addressing
  cases h : Uri.ofFilePath? path with
  | some u => exact inFile_run fallback rule h
  | none =>
    unfold inFile
    rw [bind_run, read_run_of_none h]
    rfl

end InFile

theorem locating_run (fallback : Settings) (root : Path) (rule : Text) (paths : List Path) :
    (ExceptT.lift (paths.findM? editor.isFile) >>= fun found =>
      match found with
      | none => (throw (.configNotFound root) : ExceptT DisableError Talk Config.Insertion)
      | some path => inFile fallback path rule).run.run .empty =
      locating fallback root rule paths := by
  rw [lift_bind_run]
  induction paths with
  | nil => rfl
  | cons path paths ih =>
    -- The search asks about one path and then, unless that is a file, is the search of the rest.
    change Exchange.isFile path _ = Exchange.isFile path _
    congr 1
    funext found
    cases found with
    | true => exact inFile_run_addressing fallback rule
    | false => exact ih

/-- The conversation of the disable command is its script, whatever the replies and the files. -/
theorem disable_run (fallback : Settings) (root : Path) (rule : Text) :
    (disable editor fallback root rule).run.run .empty =
      locating fallback root rule (Config.candidates.map root.join) :=
  locating_run fallback root rule _

end RuleOff.Script
