import RuleOff.Proofs.Command.Opening

/-!
# A disable command works on one snapshot

A disable command takes the folder and the settings when it starts, and the text and the version of
its file before it asks the client anything. What the client changes while the command waits shows
in the state of the server afterwards, and nowhere in what the command sends and answers.

## Main statements

* `Command.looksFirst_answer`: commands look at documents before their first request only.
* `Command.command_keeps_to_snapshot`: two runs with different changes meanwhile.
-/

namespace RuleOff

namespace Script

variable {fallback : Settings} {path : Path} {u : Uri} {rule : Text}
  {versions : ClientEditor.ReadVersions}

theorem isBlind_noting {α : Type} {r : Option LogRecord} {x : Exchange α} (blind : x.IsBlind) :
    (noting r x).IsBlind := by
  cases r with
  | none => exact blind
  | some r => exact blind

theorem isBlind_pointing : (pointing path u versions).IsBlind :=
  fun _ => isBlind_noting trivial

theorem isBlind_inserting (i : Config.Insertion) :
    (inserting path u rule versions i).IsBlind := by
  intro reply
  dsimp only
  cases editFailure? path reply with
  | some e => trivial
  | none => exact fun shown => isBlind_noting trivial

theorem looksFirst_planning (t : Text) :
    (planning fallback path u rule versions t).LooksFirst := by
  intro reply
  apply isBlind_noting
  cases Config.plan t (.ofPath path) rule (reported fallback reply).1.indentUnit with
  | none => exact isBlind_pointing
  | some i => exact isBlind_inserting i

theorem looksFirst_opening : (opening fallback path u rule).LooksFirst := by
  intro copy
  cases copy with
  | some d => exact looksFirst_planning d.text
  | none =>
    intro contents
    cases contents with
    | ok t => exact looksFirst_planning t
    | error reason => trivial

theorem looksFirst_locating (root : Path) (paths : List Path) :
    (locating fallback root rule paths).LooksFirst := by
  induction paths with
  | nil => trivial
  | cons path paths ih =>
    intro found
    cases found with
    | false => exact ih
    | true =>
      show (addressing fallback path rule).LooksFirst
      unfold addressing
      cases Uri.ofFilePath? path with
      | some u => exact looksFirst_opening
      | none => trivial

end Script

namespace Command

open Session

section Answer

variable {s : Server} {r : Invocation}

theorem looksFirst_disableRule (s : Server) (rule : Text) : (s.disableRule rule).LooksFirst := by
  cases folder : s.folders.head? with
  | none =>
    rw [disableRule_of_no_folder folder]
    trivial
  | some root =>
    rw [disableRule_of_folder folder]
    apply (Script.looksFirst_locating root _).bind
    rintro ⟨outcome, versions⟩
    cases outcome with
    | ok i => trivial
    | error e => trivial

theorem answer_server (method : Method.ofName r.method = .executeCommand) : (s.answer r).1 = s := by
  unfold Server.answer
  simp only [method]
  split <;> rfl

theorem looksFirst_answer (method : Method.ofName r.method = .executeCommand) :
    (s.answer r).2.LooksFirst := by
  unfold Server.answer
  simp only [method]
  split
  · show (s.answerRunning r).LooksFirst
    unfold Server.answerRunning
    simp only [method]
    split
    · next p _ =>
      unfold Server.runCommand
      split
      · trivial
      · split
        · trivial
        · exact (looksFirst_disableRule s _).bind fun _ => trivial
    · trivial
  · trivial

end Answer

/-- A request for a command, with all that it brings about, as the state of the server at its start
and the client's replies make it. -/
theorem receive_executeCommand (disk : Disk) {client : Client} {s : Server} {r : Invocation}
    (quiet : client.IsQuiet) (working : s.phase ≠ .exited)
    (method : Method.ofName r.method = .executeCommand) (id : MessageId) :
    messages (receive disk client s (.request id r)).2.1 =
        (frozen disk client s (s.answer r).2).1 ∧
      (receive disk client s (.request id r)).2.2 =
        reactionTo (some (frozen disk client s (s.answer r).2).2) := by
  have ran : (run disk client s (s.answer r).2).seen = _ :=
    run_looksFirst quiet (looksFirst_answer method) working
  obtain ⟨sent, value⟩ := Prod.ext_iff.mp ran
  rw [receive_request working, answer_server method]
  exact ⟨sent, congrArg reactionTo value⟩

theorem receive_server (disk : Disk) (client : Client) {s : Server} {r : Invocation}
    (method : Method.ofName r.method = .executeCommand) (id : MessageId) :
    (receive disk client s (.request id r)).1 =
      (s.hearAll (meanwhile client (requests (receive disk client s (.request id r)).2.1))).1 := by
  by_cases exited : s.phase = .exited
  · have stopped : receive disk client s (.request id r) = (s, [], .stopped) := if_pos exited
    rw [stopped]
    rfl
  · rw [receive_request exited, answer_server method]
    exact run_server disk client s _

/-- Two runs of a command, from the same state and with the same replies, send the same messages
and get the same response, whatever quiet notifications come in while the command waits. In both,
the server ends up in the state in which the notifications alone leave it. -/
theorem command_keeps_to_snapshot {disk : Disk} {c₁ c₂ : Client} {s : Server} {r : Invocation}
    (method : Method.ofName r.method = .executeCommand) (connected : c₁.connected = c₂.connected)
    (replies : ∀ q, (c₁.answer q).reply = (c₂.answer q).reply)
    (quiet₁ : c₁.IsQuiet) (quiet₂ : c₂.IsQuiet) (id : MessageId) :
    let told₁ := receive disk c₁ s (.request id r)
    let told₂ := receive disk c₂ s (.request id r)
    messages told₁.2.1 = messages told₂.2.1 ∧ told₁.2.2 = told₂.2.2 ∧
      told₁.1 = (s.hearAll (meanwhile c₁ (requests told₁.2.1))).1 ∧
      told₂.1 = (s.hearAll (meanwhile c₂ (requests told₂.2.1))).1 := by
  intro told₁ told₂
  have same : messages told₁.2.1 = messages told₂.2.1 ∧ told₁.2.2 = told₂.2.2 := by
    by_cases exited : s.phase = .exited
    · have stopped : ∀ c : Client, receive disk c s (.request id r) = (s, [], .stopped) :=
        fun _ => if_pos exited
      simp only [told₁, told₂, stopped, and_self]
    · obtain ⟨sent₁, reaction₁⟩ := receive_executeCommand disk quiet₁ exited method id
      obtain ⟨sent₂, reaction₂⟩ := receive_executeCommand disk quiet₂ exited method id
      have frozen_eq : frozen disk c₁ s (s.answer r).2 = frozen disk c₂ s (s.answer r).2 :=
        frozen_congr connected replies s _
      constructor
      · rw [sent₁, sent₂, frozen_eq]
      · rw [reaction₁, reaction₂, frozen_eq]
  exact ⟨same.1, same.2, receive_server disk c₁ method id, receive_server disk c₂ method id⟩

/-- The document changes, its folder leaves the workspace and the document is closed, each while
one of the three requests waits. -/
theorem command_keeps_to_snapshot_of_changes :
    let uri : Json := .str "file:///w/.eslintrc.yaml".toList
    let before : ClientRequest → List Invocation := fun q =>
      match q with
      | .configuration _ _ =>
        [⟨"textDocument/didChange".toList, some (.obj
          [("textDocument".toList, .obj [("uri".toList, uri), ("version".toList, .int 4)]),
            ("contentChanges".toList, .arr [.obj [("text".toList, .str "a: b".toList)]])])⟩]
      | .applyEdit _ =>
        [⟨"workspace/didChangeWorkspaceFolders".toList, some (.obj
          [("event".toList, .obj
            [("added".toList, .arr []), ("removed".toList, .arr [.obj
              [("uri".toList, .str "file:///w".toList), ("name".toList, .str [])]])])])⟩]
      | .showDocument _ _ =>
        [⟨"textDocument/didClose".toList, some (.obj
          [("textDocument".toList, .obj [("uri".toList, uri)])])⟩]
    let reply : ClientRequest → Reply := fun q =>
      match q with
      | .applyEdit _ => .result (.obj [("applied".toList, .bool true)])
      | _ => .result .null
    let c₁ : Client := { answer := fun q => ⟨before q, reply q⟩ }
    let c₂ : Client := { answer := fun q => ⟨[], reply q⟩ }
    let disk : Disk := ⟨[(["w".toList], .directory),
      (["w".toList, ".eslintrc.yaml".toList], .file [])]⟩
    let s : Server :=
      { phase := .running, folders := [⟨"/w".toList⟩]
        documents :=
          Table.empty.insert "file:///w/.eslintrc.yaml".toList ⟨"rules:".toList, 3⟩ }
    let r : Invocation :=
      ⟨"workspace/executeCommand".toList,
        some (.obj [("command".toList, .str CodeAction.disableCommand),
          ("arguments".toList, .arr [.str "semi".toList])])⟩
    let told₁ := receive disk c₁ s (.request .null r)
    let told₂ := receive disk c₂ s (.request .null r)
    (messages told₁.2.1).length = 3 ∧ told₁.1.folders = [] ∧ told₁.1.documents.entries = [] ∧
      messages told₁.2.1 = messages told₂.2.1 ∧ told₁.2.2 = told₂.2.2 ∧
      told₁.1 = (s.hearAll (meanwhile c₁ (requests told₁.2.1))).1 ∧
      told₂.1 = (s.hearAll (meanwhile c₂ (requests told₂.2.1))).1 := by
  intro uri before reply c₁ c₂ disk s r told₁ told₂
  have quiet₁ : c₁.IsQuiet := by
    intro q n mem
    cases q with
    | configuration u topic => exact List.mem_singleton.mp mem ▸ by decide
    | applyEdit e => exact List.mem_singleton.mp mem ▸ by decide
    | showDocument u cursor => exact List.mem_singleton.mp mem ▸ by decide
  have quiet₂ : c₂.IsQuiet := fun q n mem => absurd mem List.not_mem_nil
  refine ⟨by decide, by decide, by decide, ?_⟩
  exact @command_keeps_to_snapshot disk c₁ c₂ s r (by decide) rfl (fun q => rfl) quiet₁ quiet₂ .null

end Command

end RuleOff
