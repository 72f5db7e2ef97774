import RuleOff.Proofs.Command.Snapshot

/-!
# What a disable command reports

A disable command is always answered with `null`. How it went is told by the messages that it sends
on the way: an edit that was made is followed by the request to show the entry, and everything else
ends in one error message for the user.

## Main definitions

* `Command.Reports`: the messages of a command by what it comes to.
* `Command.EditMade`: an edit was sent, and the client says that it was made.
* `Command.ReportsOutcome`: all that is told of a disable command.

## Main statements

* `Command.reporting_locating`: the script of the command has such messages only.
* `Command.executeCommand_of_requests`: the client gets requests on account of commands only.
* `Command.disable_reports_outcome`: the response and the messages of a command.
-/

namespace RuleOff.Command

open Script Session

def configurationRequest (u : Uri) : Outgoing :=
  .request (.configuration (some u) ClientEditor.editorSection)

def editRequest (d : DocumentEdit) : Outgoing := .request (.applyEdit d)

def showRequest (u : Uri) (cursor : Option Position) : Outgoing :=
  .request (.showDocument u cursor)

def errorNotice (e : DisableError) : Outgoing := .notification (.showMessage .error e.message)

/-- The messages of a command by what it comes to: an insertion that was made, or an error. -/
inductive Reports (client : Client) : Except DisableError Config.Insertion → List Outgoing → Prop
  /-- There is no file, or none that can be opened. -/
  | unopened (e : DisableError) : Reports client (.error e) [errorNotice e]
  /-- There is no place for the entry. -/
  | pointed (u : Uri) (path : Path) :
    Reports client (.error (.rulesSectionNotFound path))
      [configurationRequest u, showRequest u none, errorNotice (.rulesSectionNotFound path)]
  | refused {path : Path} {d : DocumentEdit} {e : DisableError}
    (failed : editFailure? path (client.answer (.applyEdit d)).reply = some e) :
    Reports client (.error e) [configurationRequest d.uri, editRequest d, errorNotice e]
  | made {d : DocumentEdit} (i : Config.Insertion)
    (yes : accepts (client.answer (.applyEdit d)).reply = true) :
    Reports client (.ok i)
      [configurationRequest d.uri, editRequest d, showRequest d.uri (some i.cursor)]

/-- An edit is among the messages, and the client says that it was made. -/
def EditMade (client : Client) (ms : List Outgoing) : Prop :=
  ∃ d, editRequest d ∈ ms ∧ accepts (client.answer (.applyEdit d)).reply = true

section Forms

variable {client : Client} {outcome : Except DisableError Config.Insertion} {ms : List Outgoing}

theorem Reports.ne_nil (h : Reports client outcome ms) : ms ≠ [] := by
  cases h <;> exact List.cons_ne_nil _ _

theorem Reports.editMade_iff (h : Reports client outcome ms) :
    EditMade client ms ↔ ∃ i, outcome = .ok i := by
  cases h with
  | unopened e => simp [EditMade, editRequest, errorNotice]
  | pointed u path =>
    simp [EditMade, editRequest, errorNotice, configurationRequest, showRequest]
  | @refused path d e failed =>
    have no : ¬ accepts (client.answer (.applyEdit d)).reply = true := by
      intro yes
      rw [editFailure?_eq_none_iff.mpr yes] at failed
      exact Option.some_ne_none e failed.symm
    simp [EditMade, editRequest, errorNotice, configurationRequest, no]
  | @made d i yes => exact ⟨fun _ => ⟨i, rfl⟩, fun _ => ⟨d, by simp, yes⟩⟩

theorem Reports.shows_iff (h : Reports client outcome ms) :
    (∃ u d cursor, ms = [configurationRequest u, editRequest d, showRequest u (some cursor)]) ↔
      ∃ i, outcome = .ok i := by
  cases h with
  | @made d i yes => exact ⟨fun _ => ⟨i, rfl⟩, fun _ => ⟨d.uri, d, i.cursor, rfl⟩⟩
  | _ => simp [editRequest, errorNotice, configurationRequest, showRequest]

theorem Reports.error_iff (h : Reports client outcome ms) :
    (∃ t, .notification (.showMessage .error t) ∈ ms) ↔ ∃ e, outcome = .error e := by
  cases h <;> simp [editRequest, errorNotice, configurationRequest, showRequest]

theorem Reports.count_edits_le (h : Reports client outcome ms) :
    (ms.countP fun m => m.method = applyEditMethod) ≤ 1 := by
  cases h with
  | unopened e => exact Nat.zero_le 1
  | pointed u path => exact Nat.zero_le 1
  | refused failed => exact Nat.le_refl 1
  | made i yes => exact Nat.le_refl 1

end Forms

section Scripts

variable {disk : Disk} {client : Client} {s : Server} {fallback : Settings} {path : Path}
  {u : Uri} {rule : Text} {versions : ClientEditor.ReadVersions}

/-- The error message that follows the script. -/
def notice : Except DisableError Config.Insertion → List Outgoing
  | .ok _ => []
  | .error e => [errorNotice e]

/-- What is left of a command reports what it comes to, behind the messages sent so far. -/
def Reporting (disk : Disk) (client : Client) (s : Server) (sent : List Outgoing)
    (x : Exchange Ending) : Prop :=
  Reports client (frozen disk client s x).2.1
    (sent ++ (frozen disk client s x).1 ++ notice (frozen disk client s x).2.1)

theorem frozen_noting {α : Type} (r : Option LogRecord) (x : Exchange α) :
    frozen disk client s (noting r x) = frozen disk client s x := by
  cases r <;> rfl

theorem reporting_inserting (connected : client.connected = true) (i : Config.Insertion) :
    Reporting disk client s [configurationRequest u] (inserting path u rule versions i) := by
  unfold Reporting inserting
  rw [frozen_ask connected]
  dsimp only
  cases failed : editFailure? path
      (client.answer (.applyEdit ⟨u, versions.get? u.text, i.position, i.text⟩)).reply with
  | some e => exact .refused failed
  | none =>
    dsimp only
    unfold revealing
    rw [frozen_ask connected, frozen_noting]
    exact .made i (editFailure?_eq_none_iff.mp failed)

theorem reporting_planning (connected : client.connected = true) (t : Text) :
    Reporting disk client s [] (planning fallback path u rule versions t) := by
  unfold Reporting planning
  rw [frozen_ask connected, frozen_noting]
  generalize (reported fallback _).1 = settings
  cases Config.plan t (.ofPath path) rule settings.indentUnit with
  | some i => exact reporting_inserting connected i
  | none =>
    dsimp only
    unfold pointing
    rw [frozen_ask connected, frozen_noting]
    exact .pointed u path

theorem reporting_locating (connected : client.connected = true) (root : Path)
    (names : List Text) :
    Reporting disk client s [] (locating fallback root rule (names.map root.join)) := by
  unfold Reporting
  rw [← frozen_settled]
  rcases settled_locating root names with ⟨e, ended⟩ | ⟨name, u, t, version, versions, found⟩
  · rw [ended]
    exact .unopened e
  · obtain ⟨-, -, -, -, ready⟩ := found
    rw [ready]
    exact reporting_planning connected t

end Scripts

section Other

variable {disk : Disk} {client : Client} {s : Server}

theorem requests_run_logThen (s : Server) (rs : List LogRecord) (response : Response) :
    requests (run disk client s (Server.logThen rs response)).events = [] := by
  induction rs with
  | nil => rfl
  | cons r rs ih => exact ih

theorem requests_run_answer {r : Invocation} (other : Method.ofName r.method ≠ .executeCommand) :
    requests (run disk client (s.answer r).1 (s.answer r).2).events = [] := by
  unfold Server.answer Server.answerRunning Server.start Server.refuse
  -- What is answered on the spot sends nothing, and the rest writes to the log at most.
  repeat' split
  all_goals first | rfl | exact requests_run_logThen _ _ _ | contradiction

/-- The client gets requests on account of commands only. -/
theorem executeCommand_of_requests {m : Message} {q : ClientRequest}
    (sent : q ∈ requests (receive disk client s m).2.1) :
    ∃ id r, m = .request id r ∧ Method.ofName r.method = .executeCommand := by
  by_cases exited : s.phase = .exited
  · have stopped : receive disk client s m = (s, [], .stopped) := if_pos exited
    rw [stopped] at sent
    exact absurd sent List.not_mem_nil
  · cases m with
    | notification n =>
      rw [receive_notification exited, s.requests_hear n] at sent
      exact absurd sent List.not_mem_nil
    | request id r =>
      by_cases method : Method.ofName r.method = .executeCommand
      · exact ⟨id, r, rfl, method⟩
      · rw [receive_request exited] at sent
        have silent := @requests_run_answer disk client s r method
        exact absurd (silent ▸ sent) List.not_mem_nil

end Other

section Receive

variable {disk : Disk} {client : Client} {s : Server} {r : Invocation} {p : CommandParams}
  {rule : Text} {root : Path}

theorem frozen_disableRule (folder : s.folders.head? = some root) :
    frozen disk client s (s.disableRule rule) =
      let o := frozen disk client s
        (locating s.settings root rule (Config.candidates.map root.join))
      (o.1 ++ notice o.2.1, ()) := by
  rw [disableRule_of_folder folder, frozen_bind]
  generalize frozen disk client s
    (locating s.settings root rule (Config.candidates.map root.join)) = o
  obtain ⟨sent, outcome, versions⟩ := o
  cases outcome with
  | ok i => rfl
  | error e => rfl

/-- What is told of a disable command. -/
structure ReportsOutcome (disk : Disk) (client : Client) (s : Server) (rule : Text)
    (told : Server × List Event × Reaction) : Prop where
  answered : told.2.2 = .answered (.result .null)
  silent_iff : messages told.2.1 = [] ↔ s.folders = []
  warned : s.folders = [] →
    told.2.1 = [.logged (.warn ("No workspace folder open; cannot disable ".toList ++ rule))]
  /-- In a folder, the messages are those for what the command comes to. -/
  reports : ∀ root, s.folders.head? = some root → ∃ outcome versions,
    (run disk client s ((disable ClientEditor.editor s.settings root rule).run.run .empty)).value =
      some (outcome, versions) ∧ Reports client outcome (messages told.2.1)
  shows_iff : (∃ u d cursor, messages told.2.1 =
      [configurationRequest u, editRequest d, showRequest u (some cursor)]) ↔
    EditMade client (messages told.2.1)
  error_iff : s.folders ≠ [] →
    ((∃ t, .notification (.showMessage .error t) ∈ messages told.2.1) ↔
      ¬ EditMade client (messages told.2.1))
  count_edits_le : ((messages told.2.1).countP fun m => m.method = applyEditMethod) ≤ 1

/-- A command that has no folder to work in. -/
theorem reportsOutcome_of_no_folder {told : Server × List Event × Reaction}
    (folders : s.folders = []) (answered : told.2.2 = .answered (.result .null))
    (warned : told.2.1 =
      [.logged (.warn ("No workspace folder open; cannot disable ".toList ++ rule))]) :
    ReportsOutcome disk client s rule told := by
  have silent : messages told.2.1 = [] := by
    rw [warned]
    rfl
  refine ⟨answered, ⟨fun _ => folders, fun _ => silent⟩, fun _ => warned, ?_, ?_, ?_, ?_⟩
  · intro root folder
    rw [folders] at folder
    exact absurd folder (Option.some_ne_none root).symm
  · rw [silent]
    exact ⟨fun ⟨_, _, _, form⟩ => absurd form (List.cons_ne_nil _ _).symm,
      fun ⟨_, mem, _⟩ => absurd mem List.not_mem_nil⟩
  · exact fun folder => absurd folders folder
  · rw [silent]
    exact Nat.zero_le 1

/-- A command in a folder, whose messages are those for what it comes to. -/
theorem reportsOutcome_of_reports {told : Server × List Event × Reaction}
    {outcome : Except DisableError Config.Insertion} {versions : ClientEditor.ReadVersions}
    (folder : s.folders.head? = some root) (answered : told.2.2 = .answered (.result .null))
    (ended : (run disk client s
      ((disable ClientEditor.editor s.settings root rule).run.run .empty)).value =
        some (outcome, versions))
    (reports : Reports client outcome (messages told.2.1)) :
    ReportsOutcome disk client s rule told := by
  have some_folder : s.folders ≠ [] := by
    intro none
    rw [none] at folder
    exact absurd folder (Option.some_ne_none root).symm
  refine ⟨answered, ?_, fun none => absurd none some_folder, ?_, ?_, fun _ => ?_,
    reports.count_edits_le⟩
  · exact ⟨fun silent => absurd silent reports.ne_nil, fun none => absurd none some_folder⟩
  · intro root' folder'
    rw [folder] at folder'
    obtain rfl := Option.some.inj folder'
    exact ⟨outcome, versions, ended, reports⟩
  · rw [reports.shows_iff, reports.editMade_iff]
  · rw [reports.error_iff, reports.editMade_iff]
    cases outcome with
    | ok i => simp
    | error e => simp

/-- A disable command is answered with `null`, and what it comes to is told in one of five forms,
whatever the client replies: the entry is shown behind an edit that was made, and otherwise the
user gets the one error, unless no folder is open. Edits are sent on account of commands only. -/
theorem disable_reports_outcome (running : s.phase = .running)
    (connected : client.connected = true) (quiet : client.IsQuiet)
    (method : Method.ofName r.method = .executeCommand)
    (decoded : Server.readParams? CommandParams.decode r.params = some p)
    (command : p.command = CodeAction.disableCommand)
    (argument : Server.ruleArgument? p.arguments = some rule) (id : MessageId) :
    ReportsOutcome disk client s rule (receive disk client s (.request id r)) ∧
      ∀ (disk : Disk) (client : Client) (s : Server) (m : Message) (d : DocumentEdit),
        editRequest d ∈ messages (receive disk client s m).2.1 →
          ∃ id r, m = .request id r ∧ Method.ofName r.method = .executeCommand := by
  have working : s.phase ≠ .exited := by
    rw [running]
    exact Phase.noConfusion
  have conversation := answer_disable running method decoded command argument
  obtain ⟨sent, reaction⟩ := receive_executeCommand disk quiet working method id
  rw [conversation, frozen_bind] at sent reaction
  refine ⟨?_, fun _ _ _ _ _ mem => executeCommand_of_requests (mem_requests.mpr mem)⟩
  cases folder : s.folders.head? with
  | none =>
    have folders : s.folders = [] := List.head?_eq_none_iff.mp folder
    refine reportsOutcome_of_no_folder folders reaction ?_
    rw [receive_request working, conversation, disableRule_of_no_folder folder]
    rfl
  | some root =>
    let script := locating s.settings root rule (Config.candidates.map root.join)
    have ran : (run disk client s script).seen = _ :=
      run_looksFirst quiet (looksFirst_locating root _) working
    have ended : (run disk client s
        ((disable ClientEditor.editor s.settings root rule).run.run .empty)).value =
          some (frozen disk client s script).2 := by
      rw [disable_run]
      exact congrArg Prod.snd ran
    have all : messages (receive disk client s (.request id r)).2.1 =
        (frozen disk client s script).1 ++ notice (frozen disk client s script).2.1 := by
      rw [sent, frozen_disableRule folder]
      exact List.append_nil _
    refine reportsOutcome_of_reports folder reaction ended ?_
    rw [all]
    exact reporting_locating connected root _

end Receive

/-- A file without a copy, and a client that makes the edit and then knows nothing of showing
documents. -/
theorem disable_reports_outcome_without_show :
    let disk : Disk := ⟨[(["w".toList], .directory),
      (["w".toList, ".eslintrc.yaml".toList], .file [])]⟩
    let client : Client :=
      { answer := fun q =>
          match q with
          | .applyEdit _ => ⟨[], .result (.obj [("applied".toList, .bool true)])⟩
          | _ => ⟨[], .failure .unknownMethod⟩ }
    let s : Server := { phase := .running, folders := [⟨"/w".toList⟩] }
    let r : Invocation :=
      ⟨"workspace/executeCommand".toList,
        some (.obj [("command".toList, .str CodeAction.disableCommand),
          ("arguments".toList, .arr [.str "semi".toList])])⟩
    let told := receive disk client s (.request .null r)
    (messages told.2.1).map Outgoing.method =
        ["workspace/configuration".toList, applyEditMethod, "window/showDocument".toList] ∧
      ReportsOutcome disk client s "semi".toList told ∧
      ∀ (disk : Disk) (client : Client) (s : Server) (m : Message) (d : DocumentEdit),
        editRequest d ∈ messages (receive disk client s m).2.1 →
          ∃ id r, m = .request id r ∧ Method.ofName r.method = .executeCommand := by
  intro disk client s r told
  have quiet : client.IsQuiet := by
    intro q n mem
    cases q <;> exact absurd mem List.not_mem_nil
  exact ⟨by decide, disable_reports_outcome rfl rfl quiet (by decide) rfl (by decide) rfl .null⟩

end RuleOff.Command
