import RuleOff.Proofs.Command.Opening
import RuleOff.Proofs.Session.History

/-!
# The version of an edit

An edit carries the version of the copy from which it is computed. Whether there is a copy is
decided when the command opens its file, and not again when the edit is sent: in between, the
command waits for the indentation, and a document that the client opens meanwhile gets an edit
without a version, computed from the file.

## Main definitions

* `Command.EditBasis.IsAnnounced`: the edit has a version, and the client has announced the text
  under it.

## Main statements

* `Command.edit_isAnnounced_iff_tracked`: such are the edits of documents that were open at the
  start of the command.
* `Command.edit_without_version_of_opened_meanwhile`: an edit of an open document without a version.
-/

namespace RuleOff.Command

open Script Session

section Stages

variable {disk : Disk} {client : Client} {s now : Server} {path : Path} {u : Uri} {rule : Text}
  {versions : ClientEditor.ReadVersions} {fallback : Settings} {t : Text} {e : DocumentEdit}

theorem asked_noting {α : Type} (s : Server) (r : Option LogRecord) (x : Exchange α) :
    asked disk client s (noting r x) = asked disk client s x := by
  cases r <;> rfl

theorem not_asked_revealing (connected : client.connected = true) {i : Config.Insertion} :
    (now, .applyEdit e) ∉ asked disk client s (revealing path u rule versions i) := by
  intro sent
  rcases mem_asked_ask connected sent with ⟨-, same⟩ | later
  · exact ClientRequest.noConfusion same
  · rw [asked_noting] at later
    exact absurd later List.not_mem_nil

theorem not_asked_pointing (connected : client.connected = true) :
    (now, .applyEdit e) ∉ asked disk client s (pointing path u versions) := by
  intro sent
  rcases mem_asked_ask connected sent with ⟨-, same⟩ | later
  · exact ClientRequest.noConfusion same
  · rw [asked_noting] at later
    exact absurd later List.not_mem_nil

theorem edit_of_asked_inserting (connected : client.connected = true) {i : Config.Insertion}
    (sent : (now, .applyEdit e) ∈ asked disk client s (inserting path u rule versions i)) :
    now = s ∧ e = ⟨u, versions.get? u.text, i.position, i.text⟩ := by
  rcases mem_asked_ask connected sent with ⟨here, same⟩ | later
  · exact ⟨here, ClientRequest.applyEdit.inj same⟩
  · split at later
    · exact absurd later List.not_mem_nil
    · exact absurd later (not_asked_revealing connected)

/-- The edit is sent in the state that the wait for the indentation leaves, and by the plan that was
made of the text. -/
theorem edit_of_asked_planning (connected : client.connected = true)
    (sent : (now, .applyEdit e) ∈ asked disk client s (planning fallback path u rule versions t)) :
    let told := client.answer (.configuration u ClientEditor.editorSection)
    now = (s.hearAll told.before).1 ∧
      ∃ i, Config.plan t (.ofPath path) rule (reported fallback told.reply).1.indentUnit = some i ∧
        e = ⟨u, versions.get? u.text, i.position, i.text⟩ := by
  intro told
  rcases mem_asked_ask connected sent with ⟨-, same⟩ | later
  · exact ClientRequest.noConfusion same
  · rw [asked_noting] at later
    cases planned : Config.plan t (.ofPath path) rule
        (reported fallback told.reply).1.indentUnit with
    | none =>
      rw [planned] at later
      exact absurd later (not_asked_pointing connected)
    | some i =>
      rw [planned] at later
      obtain ⟨here, same⟩ := edit_of_asked_inserting connected later
      exact ⟨here, i, rfl, same⟩

end Stages

section Opening

variable {disk : Disk} {s : Server} {path : Path} {u : Uri} {t : Text} {version : Option Int}

theorem Opens.announced_iff_tracked (opens : Opens disk s path u t version)
    {heard : List Invocation} (reached : Reached disk s heard) :
    (∃ v, version = some v ∧ ∃ n ∈ heard, Announces u.text ⟨t, v⟩ n) ↔ (s.document? u).isSome := by
  cases opens with
  | @copy d tracked =>
    constructor
    · intro _
      rw [tracked]
      rfl
    · intro _
      exact ⟨d.version, rfl, reached.announced tracked⟩
  | file untracked contents =>
    constructor
    · rintro ⟨v, versioned, -⟩
      exact absurd versioned (Option.some_ne_none v).symm
    · intro tracked
      rw [untracked] at tracked
      exact Bool.noConfusion tracked

theorem Opens.eq_file_of_untracked (opens : Opens disk s path u t version)
    (untracked : s.document? u = none) : version = none ∧ disk.read path = .ok t := by
  cases opens with
  | @copy d tracked =>
    rw [untracked] at tracked
    exact absurd tracked (Option.some_ne_none d).symm
  | file _ contents => exact ⟨rfl, contents⟩

end Opening

section Commands

variable {disk : Disk} {client : Client} {s now : Server} {rule : Text} {root : Path}
  {e : DocumentEdit}

/-- The request for the edit that is made of a text. -/
def EditBasis.edit (b : EditBasis disk client s rule) : DocumentEdit :=
  ⟨b.uri, b.version, b.insertion.position, b.insertion.text⟩

theorem EditBasis.call_edit (b : EditBasis disk client s rule) :
    call (.applyEdit b.edit) = b.editCall := by
  unfold editCall edit
  cases b.version <;> rfl

/-- The notifications that come in while a command waits for the indentation of its file. -/
def EditBasis.wait (b : EditBasis disk client s rule) : List Invocation :=
  (client.answer (.configuration b.uri ClientEditor.editorSection)).before

/-- The edit has a version, and some notification has announced the text under it. -/
def EditBasis.IsAnnounced (b : EditBasis disk client s rule) (heard : List Invocation) : Prop :=
  ∃ v, b.version = some v ∧ ∃ n ∈ heard, Announces b.uri.text ⟨b.text, v⟩ n

theorem exists_basis_of_asked (folder : s.folders.head? = some root)
    (sent : (now, .applyEdit e) ∈ asked disk client s
      (locating s.settings root rule (Config.candidates.map root.join))) :
    ∃ b : EditBasis disk client s rule, e = b.edit ∧ now = (s.hearAll b.wait).1 := by
  have connected : client.connected = true := by
    by_cases h : client.connected = true
    · exact h
    · rw [asked_of_not_connected h] at sent
      exact absurd sent List.not_mem_nil
  rw [← asked_settled] at sent
  rcases settled_locating root Config.candidates with
    ⟨error, ended⟩ | ⟨name, u, t, version, versions, file, address, opens, known, ready⟩
  · rw [ended] at sent
    exact absurd sent List.not_mem_nil
  · rw [ready] at sent
    obtain ⟨here, i, plan, same⟩ := edit_of_asked_planning connected sent
    rw [Config.Format.ofPath_join root (List.mem_of_find?_eq_some file)] at plan
    rw [known] at same
    let b : EditBasis disk client s rule :=
      { root := root, name := name, uri := u, text := t, version := version, settings := _,
        insertion := i, folder := folder, file := file, address := address, opens := opens,
        indentation := rfl, plan := plan }
    exact ⟨b, same, here⟩

/-- The requests of a disable command, with the states in which they are sent, are those of its
script. -/
theorem askedWith_disable {r : Invocation} {p : CommandParams} (running : s.phase = .running)
    (method : Method.ofName r.method = .executeCommand)
    (decoded : Server.readParams? CommandParams.decode r.params = some p)
    (command : p.command = CodeAction.disableCommand)
    (argument : Server.ruleArgument? p.arguments = some rule) (id : MessageId) :
    askedWith disk client s (.request id r) =
      match s.folders.head? with
      | none => []
      | some root =>
        asked disk client s
          (locating s.settings root rule (Config.candidates.map root.join)) := by
  have working := Server.ne_exited_of_running running
  rw [askedWith_request working, answer_disable running method decoded command argument,
    asked_bind fun _ _ => rfl]
  cases folder : s.folders.head? with
  | none =>
    rw [disableRule_of_no_folder folder]
    rfl
  | some root =>
    rw [disableRule_of_folder folder]
    -- What the user is told of the end is no request.
    refine asked_bind (fun s ending => ?_) s _
    obtain ⟨outcome, versions⟩ := ending
    cases outcome <;> rfl

/-- An edit that a disable command sends is made of a text. -/
theorem exists_basis_of_sent {r : Invocation} {p : CommandParams} (running : s.phase = .running)
    (method : Method.ofName r.method = .executeCommand)
    (decoded : Server.readParams? CommandParams.decode r.params = some p)
    (command : p.command = CodeAction.disableCommand)
    (argument : Server.ruleArgument? p.arguments = some rule) {id : MessageId}
    (sent : .applyEdit e ∈ requests (receive disk client s (.request id r)).2.1) :
    ∃ b : EditBasis disk client s rule, e = b.edit := by
  rw [← map_askedWith] at sent
  obtain ⟨⟨now, q⟩, asked, rfl⟩ := List.mem_map.mp sent
  rw [askedWith_disable running method decoded command argument] at asked
  cases folder : s.folders.head? with
  | none =>
    rw [folder] at asked
    exact absurd asked List.not_mem_nil
  | some root =>
    rw [folder] at asked
    obtain ⟨b, same, -⟩ := exists_basis_of_asked folder asked
    exact ⟨b, same⟩

/-- The edit of a disable command has the version under which its text was announced if, and only
if, the document is open when the command starts. Otherwise it is computed from the file, and has
no version: if the document is open when the edit is sent, the client has opened it meanwhile. -/
theorem edit_isAnnounced_iff_tracked {r : Invocation} {p : CommandParams} {heard : List Invocation}
    (reached : Reached disk s heard) (running : s.phase = .running)
    (method : Method.ofName r.method = .executeCommand)
    (decoded : Server.readParams? CommandParams.decode r.params = some p)
    (command : p.command = CodeAction.disableCommand)
    (argument : Server.ruleArgument? p.arguments = some rule) (id : MessageId)
    (sent : (now, .applyEdit e) ∈ askedWith disk client s (.request id r)) :
    ∃ b : EditBasis disk client s rule,
      call (.applyEdit e) = b.editCall ∧ now = (s.hearAll b.wait).1 ∧
      (b.IsAnnounced heard ↔ (s.document? b.uri).isSome) ∧
      (s.document? b.uri = none →
        b.version = none ∧ disk.read (b.root.join b.name) = .ok b.text ∧
        ∀ d, now.document? b.uri = some d → ∃ n ∈ b.wait, Announces b.uri.text d n) := by
  rw [askedWith_disable running method decoded command argument] at sent
  cases folder : s.folders.head? with
  | none =>
    rw [folder] at sent
    exact absurd sent List.not_mem_nil
  | some root =>
    rw [folder] at sent
    obtain ⟨b, rfl, rfl⟩ := exists_basis_of_asked folder sent
    refine ⟨b, b.call_edit, rfl, ?_, ?_⟩
    · exact b.opens.announced_iff_tracked reached
    · intro untracked
      obtain ⟨unversioned, contents⟩ := b.opens.eq_file_of_untracked untracked
      refine ⟨unversioned, contents, fun d known => ?_⟩
      rcases Server.announced_of_hearAll known with before | announced
      · have tracked : s.document? b.uri = some d := before
        rw [untracked] at tracked
        exact absurd tracked (Option.some_ne_none d).symm
      · exact announced

end Commands

/-- A session that opens the second candidate and then gets the command. -/
theorem edit_isAnnounced_iff_tracked_of_open_file :
    let disk : Disk := ⟨[(["w".toList], .directory),
      (["w".toList, ".eslintrc.yml".toList], .file [])]⟩
    let client : Client := { answer := fun _ => ⟨[], .result .null⟩ }
    let start : Step := .send client (.obj
      [("id".toList, .int 1), ("method".toList, .str "initialize".toList),
        ("params".toList, .obj
          [("capabilities".toList, .obj []), ("rootUri".toList, .str "file:///w".toList)])])
    let opening : Step := .send client (.obj
      [("method".toList, .str "textDocument/didOpen".toList),
        ("params".toList, .obj [("textDocument".toList, .obj
          [("uri".toList, .str "file:///w/.eslintrc.yml".toList),
            ("languageId".toList, .str "yaml".toList), ("version".toList, .int 3),
            ("text".toList, .str "rules:".toList)])])])
    let s₁ := (step disk {} start).2.1
    let s := (step disk s₁ opening).2.1
    let r : Invocation :=
      ⟨"workspace/executeCommand".toList,
        some (.obj [("command".toList, .str CodeAction.disableCommand),
          ("arguments".toList, .arr [.str "semi".toList])])⟩
    ∃ (now : Server) (e : DocumentEdit) (b : EditBasis disk client s "semi".toList),
      e.version = some 3 ∧ (now, .applyEdit e) ∈ askedWith disk client s (.request .null r) ∧
      call (.applyEdit e) = b.editCall ∧ now = (s.hearAll b.wait).1 ∧
      (b.IsAnnounced (opening.heard disk s₁) ↔ (s.document? b.uri).isSome) ∧
      (s.document? b.uri = none →
        b.version = none ∧ disk.read (b.root.join b.name) = .ok b.text ∧
        ∀ d, now.document? b.uri = some d → ∃ n ∈ b.wait, Announces b.uri.text d n) := by
  intro disk client start opening s₁ s r
  let u : Uri := ⟨"file".toList, some ⟨[], [], none⟩, "/w/.eslintrc.yml".toList, none, none⟩
  have reached : Reached disk s (opening.heard disk s₁) :=
    .step (.step (.start disk) start) opening
  have sent : (s, .applyEdit ⟨u, some 3, ⟨0, 6⟩, "\n    semi: off\n".toList⟩) ∈
      askedWith disk client s (.request .null r) :=
    List.mem_of_getElem? (i := 1) rfl
  obtain ⟨b, all⟩ :=
    edit_isAnnounced_iff_tracked reached rfl (by decide) rfl (by decide) rfl .null sent
  exact ⟨s, _, b, rfl, sent, all⟩

/-- The client opens the document while the command waits for the indentation. The edit is sent
without a version, although the server knows version 7 of the document by then. -/
theorem edit_without_version_of_opened_meanwhile :
    let opened : Invocation :=
      ⟨"textDocument/didOpen".toList, some (.obj [("textDocument".toList, .obj
        [("uri".toList, .str "file:///w/.eslintrc.yaml".toList),
          ("languageId".toList, .str "yaml".toList), ("version".toList, .int 7),
          ("text".toList, .str "root: true\nrules:\n".toList)])])⟩
    let disk : Disk := ⟨[(["w".toList], .directory),
      (["w".toList, ".eslintrc.yaml".toList], .file ("rules:\n".toUTF8.data.toList))]⟩
    let client : Client :=
      { answer := fun q =>
          match q with
          | .configuration _ _ => ⟨[opened], .result (.arr [])⟩
          | .applyEdit _ => ⟨[], .result (.obj [("applied".toList, .bool true)])⟩
          | .showDocument _ _ => ⟨[], .result (.obj [("success".toList, .bool true)])⟩ }
    let start : Step := .send client (.obj
      [("id".toList, .int 1), ("method".toList, .str "initialize".toList),
        ("params".toList, .obj
          [("capabilities".toList, .obj []), ("rootUri".toList, .str "file:///w".toList)])])
    let s := (step disk {} start).2.1
    let r : Invocation :=
      ⟨"workspace/executeCommand".toList,
        some (.obj [("command".toList, .str CodeAction.disableCommand),
          ("arguments".toList, .arr [.str "semi".toList])])⟩
    Reached disk s [] ∧
      ∃ now e, (now, .applyEdit e) ∈ askedWith disk client s (.request .null r) ∧
        now.document? e.uri = some ⟨"root: true\nrules:\n".toList, 7⟩ ∧ e.version = none := by
  intro opened disk client start s r
  let u : Uri := ⟨"file".toList, some ⟨[], [], none⟩, "/w/.eslintrc.yaml".toList, none, none⟩
  have sent : ((s.hearAll [opened]).1, .applyEdit ⟨u, none, ⟨1, 0⟩, "    semi: off\n".toList⟩) ∈
      askedWith disk client s (.request .null r) :=
    List.mem_of_getElem? (i := 1) rfl
  exact ⟨.step (.start disk) start, _, _, sent, rfl, rfl⟩

end RuleOff.Command
