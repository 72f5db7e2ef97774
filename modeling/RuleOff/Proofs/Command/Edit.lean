import RuleOff.Proofs.Command.Script
import RuleOff.Proofs.Session.Requests

/-!
# The edit of a disable command

A disable command that sends an edit sends the one that the planner makes of the configuration
file. The file is the first candidate of the first folder, its text and version are those of the
server's copy when the command opens it, and every request of the command names the same URI.

## Main definitions

* `Command.EditBasis`: what the edit is computed from.
* `Command.Call`: a request as the client gets it.

## Main statements

* `Command.applyEdit_is_planned`: the requests of a command that sends an edit.
-/

namespace RuleOff

section Dialect

theorem Path.exists_split_join (p : Path) {n : Text} (hn : '/' ∉ n) :
    ∃ pieces, Text.split '/' (p.join n).text = pieces ++ [n] := by
  have single := Text.split_eq_singleton hn
  unfold join
  split
  · exact ⟨[], single⟩
  · split
    · next h =>
      obtain ⟨front, hf⟩ := List.getLast?_eq_some_iff.mp h
      refine ⟨Text.split '/' front, ?_⟩
      rw [hf, List.append_assoc, List.singleton_append, Text.split_append, single]
    · exact ⟨Text.split '/' p.text, by rw [Text.split_append, single]⟩

/-- A name put at the end of a path is its last component. -/
theorem Path.getLast?_components_join (p : Path) {n : Text} (hn : '/' ∉ n)
    (hc : component? n = some (.name n)) :
    (p.join n).components.getLast? = some (.name n) := by
  obtain ⟨pieces, hp⟩ := p.exists_split_join hn
  have rest : (pieces ++ [n]).filterMap component? = pieces.filterMap component? ++ [.name n] := by
    rw [List.filterMap_append, List.filterMap_cons, hc]
    rfl
  unfold components
  simp only [hp, rest]
  split
  · exact List.getLast?_eq_some_iff.mpr ⟨.root :: pieces.filterMap component?, rfl⟩
  · split
    · exact List.getLast?_eq_some_iff.mpr ⟨.here :: pieces.filterMap component?, rfl⟩
    · exact List.getLast?_eq_some_iff.mpr ⟨pieces.filterMap component?, rfl⟩

/-- The dialect of a candidate is told by its name, whatever directory it is in. -/
theorem Config.Format.ofPath_join (root : Path) {name : Text} (h : name ∈ candidates) :
    ofPath (root.join name) = if name = ".eslintrc.json".toList then json else yaml := by
  have plain : ∀ n ∈ candidates, '/' ∉ n ∧ Path.component? n = some (.name n) ∧
      (Path.nameExtension? n = some "json".toList ↔ n = ".eslintrc.json".toList) := by decide
  -- No candidate is `.` or `..`, and each has a dot besides the one in front.
  obtain ⟨hn, hc, hx⟩ := plain name h
  unfold ofPath Path.extension?
  rw [root.getLast?_components_join hn hc]
  by_cases hj : name = ".eslintrc.json".toList
  · rw [if_pos hj]
    exact if_pos (hx.mpr hj)
  · rw [if_neg hj]
    exact if_neg fun he => hj (hx.mp he)

end Dialect

namespace Command

open Script Session

/-- A request as the client gets it: its method and its parameters. -/
abbrev Call := Text × Json

/-- The request as the client gets it. -/
def call (q : ClientRequest) : Call := (q.method, q.params)

/-- The name of the request for an edit. -/
def applyEditMethod : Text := "workspace/applyEdit".toList

/-- The range from a position to itself. -/
def emptyRange (p : Position) : Json := .obj [("start".toList, p.toJson), ("end".toList, p.toJson)]

/-- How a command opens a document: from the server's copy, under the copy's version, or else from
the file, under none. -/
inductive Opens (disk : Disk) (s : Server) (path : Path) (u : Uri) : Text → Option Int → Prop
  | copy {d : Document} (tracked : s.document? u = some d) : Opens disk s path u d.text d.version
  | file {t : Text} (untracked : s.document? u = none) (contents : disk.read path = .ok t) :
    Opens disk s path u t none

/-- What the edit of a command is computed from, for a command that finds the server in the state
`s`: the first folder, the first candidate in it that is a file, its URI, its text as the command
opens it, and the indentation that the client reports for that URI. -/
structure EditBasis (disk : Disk) (client : Client) (s : Server) (rule : Text) where
  root : Path
  name : Text
  uri : Uri
  text : Text
  version : Option Int
  settings : Settings
  insertion : Config.Insertion
  folder : s.folders.head? = some root
  file : Config.candidates.find? (fun n => disk.isFile (root.join n)) = some name
  address : Uri.ofFilePath? (root.join name) = some uri
  opens : Opens disk s (root.join name) uri text version
  indentation : settings =
    (reported s.settings (client.answer (.configuration uri ClientEditor.editorSection)).reply).1
  plan : Config.plan text (if name = ".eslintrc.json".toList then .json else .yaml) rule
    settings.indentUnit = some insertion

namespace EditBasis

variable {disk : Disk} {client : Client} {s : Server} {rule : Text}
  (b : EditBasis disk client s rule)

/-- The request for the indentation, which names the URI. -/
def configurationCall : Call :=
  ("workspace/configuration".toList,
    .obj [("items".toList,
      .arr [.obj [("scopeUri".toList, .str b.uri.text), ("section".toList, .str "editor".toList)]])])

/-- The one edit: an empty range at the position of the insertion, and its text. -/
def textEdit : Json :=
  .obj [("range".toList, emptyRange b.insertion.position),
    ("newText".toList, .str b.insertion.text)]

/-- The request for the edit. The edit of a copy is a change of the copy's version of the document,
and the edit of a file a change without a version. -/
def editCall : Call :=
  (applyEditMethod,
    match b.version with
    | some v =>
      .obj [("edit".toList,
        .obj [("documentChanges".toList,
          .arr [.obj
            [("textDocument".toList,
              .obj [("uri".toList, .str b.uri.text), ("version".toList, .int v)]),
            ("edits".toList, .arr [b.textEdit])]])])]
    | none =>
      .obj [("edit".toList,
        .obj [("changes".toList, .obj [(b.uri.text, .arr [b.textEdit])])])])

/-- The request to show the entry. -/
def showCall : Call :=
  ("window/showDocument".toList,
    .obj [("uri".toList, .str b.uri.text), ("external".toList, .bool false),
      ("takeFocus".toList, .bool true), ("selection".toList, emptyRange b.insertion.cursor)])

/-- The answer of the client to the edit. -/
def editAnswer : Answer :=
  client.answer (.applyEdit ⟨b.uri, b.version, b.insertion.position, b.insertion.text⟩)

end EditBasis

theorem eq_applyEdit_of_method {q : ClientRequest} (h : q.method = applyEditMethod) :
    ∃ e, q = .applyEdit e := by
  cases q with
  | applyEdit e => exact ⟨e, rfl⟩
  | configuration _ _ =>
    have differ : "workspace/configuration".toList ≠ applyEditMethod := by decide
    exact absurd h differ
  | showDocument _ _ =>
    have differ : "window/showDocument".toList ≠ applyEditMethod := by decide
    exact absurd h differ

section Stages

variable {disk : Disk} {client : Client} {s : Server} {path : Path} {u : Uri} {rule : Text}
  {versions : ClientEditor.ReadVersions} {i : Config.Insertion}

theorem requests_run_noting {α : Type} (s : Server) (r : Option LogRecord) (x : Exchange α) :
    requests (run disk client s (noting r x)).events = requests (run disk client s x).events := by
  cases r <;> rfl

theorem requests_run_revealing (connected : client.connected = true)
    (running : s.phase ≠ .exited) :
    requests (run disk client s (revealing path u rule versions i)).events =
      [.showDocument u (some i.cursor)] := by
  unfold revealing
  rw [requests_run_ask connected s _ _ running, requests_run_noting]
  split <;> rfl

theorem requests_run_pointing (connected : client.connected = true)
    (running : s.phase ≠ .exited) :
    requests (run disk client s (pointing path u versions)).events =
      [.showDocument u none] := by
  unfold pointing
  rw [requests_run_ask connected s _ _ running, requests_run_noting]
  split <;> rfl

theorem requests_run_inserting (connected : client.connected = true)
    (running : s.phase ≠ .exited) {a : Answer}
    (ha : client.answer (.applyEdit ⟨u, versions.get? u.text, i.position, i.text⟩) = a) :
    requests (run disk client s (inserting path u rule versions i)).events =
      .applyEdit ⟨u, versions.get? u.text, i.position, i.text⟩ ::
        if accepts a.reply ∧ stops a.before = false then [.showDocument u (some i.cursor)]
        else [] := by
  unfold inserting
  rw [requests_run_ask connected s _ _ running, ha]
  have exits := s.hearAll_phase_exited_iff running a.before
  by_cases hs : stops a.before = true
  · simp [hs]
  · by_cases hr : accepts a.reply = true
    · have made : editFailure? path a.reply = none := editFailure?_eq_none_iff.mpr hr
      have working : (s.hearAll a.before).1.phase ≠ .exited := fun he => hs (exits.mp he)
      simp only [made, requests_run_revealing connected working]
      simp [hs, hr]
    · cases failed : editFailure? path a.reply with
      | none => exact absurd (editFailure?_eq_none_iff.mp failed) hr
      | some e =>
        have ended : ∀ s : Server, requests (run disk client s
            (.done (.error e, versions) : Exchange Ending)).events = [] := fun _ => rfl
        simp [hs, hr, ended]

/-- A command that knows its text and sends an edit has planned it, with the indentation that the
client has reported. -/
theorem requests_run_planning (connected : client.connected = true)
    (running : s.phase ≠ .exited) {fallback : Settings} {t : Text} {e : DocumentEdit}
    (sent : .applyEdit e ∈
      requests (run disk client s (planning fallback path u rule versions t)).events) :
    ∃ i, Config.plan t (.ofPath path) rule
        (reported fallback
          (client.answer (.configuration u ClientEditor.editorSection)).reply).1.indentUnit =
          some i ∧
      ∀ a, client.answer (.applyEdit ⟨u, versions.get? u.text, i.position, i.text⟩) = a →
        requests (run disk client s (planning fallback path u rule versions t)).events =
          [.configuration u ClientEditor.editorSection,
            .applyEdit ⟨u, versions.get? u.text, i.position, i.text⟩] ++
          if accepts a.reply ∧ stops a.before = false then [.showDocument u (some i.cursor)]
          else [] := by
  unfold planning at sent ⊢
  rw [requests_run_ask connected s _ _ running] at sent ⊢
  generalize client.answer (.configuration u ClientEditor.editorSection) = told at sent ⊢
  have exits := s.hearAll_phase_exited_iff running told.before
  by_cases hs : stops told.before = true
  · rw [if_pos hs] at sent
    simp at sent
  · -- Only a server that is still running goes on to the plan.
    rw [if_neg hs, requests_run_noting] at sent ⊢
    have working : (s.hearAll told.before).1.phase ≠ .exited := fun he => hs (exits.mp he)
    cases planned : Config.plan t (.ofPath path) rule
        (reported fallback told.reply).1.indentUnit with
    | none =>
      rw [planned] at sent
      simp [requests_run_pointing connected working] at sent
    | some i =>
      refine ⟨i, rfl, fun a ha => ?_⟩
      dsimp only
      rw [requests_run_inserting connected working ha]
      rfl

/-- A command that sends anything has opened its document. -/
theorem exists_opens_of_requests {fallback : Settings}
    (sent : requests (run disk client s (opening fallback path u rule)).events ≠ []) :
    ∃ t version versions, Opens disk s path u t version ∧
      versions.get? u.text = version ∧
      requests (run disk client s (opening fallback path u rule)).events =
        requests (run disk client s (planning fallback path u rule versions t)).events := by
  cases tracked : s.document? u with
  | some d =>
    have opened : run disk client s (opening fallback path u rule) =
        run disk client s
          (planning fallback path u rule (Table.empty.insert u.text d.version) d.text) := by
      unfold opening
      rw [run_document, tracked]
    refine ⟨d.text, d.version, _, .copy tracked, ?_, by rw [opened]⟩
    rw [Table.get?_insert, if_pos rfl]
  | none =>
    cases contents : disk.read path with
    | ok t =>
      have opened : run disk client s (opening fallback path u rule) =
          run disk client s (planning fallback path u rule .empty t) := by
        unfold opening
        rw [run_document, tracked]
        simp only [run_readFile, contents]
        rfl
      exact ⟨t, none, .empty, .file tracked contents, rfl, by rw [opened]⟩
    | error reason =>
      refine absurd ?_ sent
      unfold opening
      rw [run_document, tracked]
      simp only [run_readFile, contents]
      rfl

/-- A command looks no further than the first candidate that is a file. -/
theorem run_locating (disk : Disk) (client : Client) (s : Server) (fallback : Settings)
    (root : Path) (rule : Text) (paths : List Path) :
    run disk client s (locating fallback root rule paths) =
      match paths.find? disk.isFile with
      | some path => run disk client s (addressing fallback path rule)
      | none => ⟨s, [], some (.error (.configNotFound root), .empty)⟩ := by
  induction paths with
  | nil => rfl
  | cons path paths ih =>
    unfold locating
    rw [run_isFile, List.find?_cons]
    cases disk.isFile path with
    | true => rfl
    | false => exact ih

/-- A command that sends anything in a folder has found its file there and opened it. -/
theorem exists_file_of_requests {fallback : Settings} {root : Path}
    (sent : requests (run disk client s
      (locating fallback root rule (Config.candidates.map root.join))).events ≠ []) :
    ∃ name u t version versions,
      Config.candidates.find? (fun n => disk.isFile (root.join n)) = some name ∧
      Uri.ofFilePath? (root.join name) = some u ∧
      Opens disk s (root.join name) u t version ∧ versions.get? u.text = version ∧
      requests (run disk client s
        (locating fallback root rule (Config.candidates.map root.join))).events =
          requests (run disk client s
            (planning fallback (root.join name) u rule versions t)).events := by
  rw [run_locating, List.find?_map] at sent ⊢
  cases file : Config.candidates.find? (disk.isFile ∘ root.join) with
  | none =>
    rw [file] at sent
    exact absurd rfl sent
  | some name =>
    rw [file] at sent
    simp only [Option.map_some] at sent ⊢
    unfold addressing at sent ⊢
    cases address : Uri.ofFilePath? (root.join name) with
    | none =>
      rw [address] at sent
      exact absurd rfl sent
    | some u =>
      rw [address] at sent
      obtain ⟨t, version, versions, opens, known, same⟩ := exists_opens_of_requests sent
      exact ⟨name, u, t, version, versions, file, address, opens, known, same⟩

end Stages

section Commands

variable {disk : Disk} {client : Client} {s : Server} {r : Invocation} {p : CommandParams}
  {rule : Text}

/-- A disable command changes nothing at once, and is answered when it is done. -/
theorem answer_disable (running : s.phase = .running)
    (method : Method.ofName r.method = .executeCommand)
    (decoded : Server.readParams? CommandParams.decode r.params = some p)
    (command : p.command = CodeAction.disableCommand)
    (argument : Server.ruleArgument? p.arguments = some rule) :
    s.answer r = (s, (s.disableRule rule).bind fun _ =>
      Exchange.done (some (Response.result .null))) := by
  unfold Server.answer Server.answerRunning Server.runCommand
  simp only [method, running, decoded, command, argument]
  rfl

/-- What a disable command sends is what its script sends. -/
theorem requests_receive (running : s.phase = .running)
    (method : Method.ofName r.method = .executeCommand)
    (decoded : Server.readParams? CommandParams.decode r.params = some p)
    (command : p.command = CodeAction.disableCommand)
    (argument : Server.ruleArgument? p.arguments = some rule) (id : MessageId) :
    requests (receive disk client s (.request id r)).2.1 =
      match s.folders.head? with
      | none => []
      | some root =>
        requests (run disk client s
          (locating s.settings root rule (Config.candidates.map root.join))).events := by
  have received : (receive disk client s (.request id r)).2.1 =
      (run disk client s ((s.disableRule rule).bind fun _ =>
        Exchange.done (some (Response.result .null)))).events := by
    unfold receive
    rw [if_neg (Server.ne_exited_of_running running)]
    dsimp only
    rw [answer_disable running method decoded command argument]
  -- After its script a command only writes to the log and notifies the client.
  rw [received, requests_run_bind fun _ _ => rfl]
  unfold Server.disableRule
  cases s.folders.head? with
  | none => rfl
  | some root =>
    dsimp only
    rw [disable_run]
    refine requests_run_bind (fun s ending => ?_) s _
    obtain ⟨outcome, versions⟩ := ending
    cases outcome <;> rfl

/-- A disable command that sends an edit to the client sends, in this order, the request for the
indentation, the edit that the planner makes of the configuration file, and the request to show
the entry, which is left out if the edit is not made or the server is stopped meanwhile. -/
theorem applyEdit_is_planned (running : s.phase = .running)
    (method : Method.ofName r.method = .executeCommand)
    (decoded : Server.readParams? CommandParams.decode r.params = some p)
    (command : p.command = CodeAction.disableCommand)
    (argument : Server.ruleArgument? p.arguments = some rule) (id : MessageId) {params : Json}
    (sent : (applyEditMethod, params) ∈
      (requests (receive disk client s (.request id r)).2.1).map call) :
    ∃ b : EditBasis disk client s rule,
      (requests (receive disk client s (.request id r)).2.1).map call =
        [b.configurationCall, b.editCall] ++
          if accepts b.editAnswer.reply ∧ stops b.editAnswer.before = false then [b.showCall]
          else [] := by
  obtain ⟨q, mem, hq⟩ := List.mem_map.mp sent
  obtain ⟨e, rfl⟩ := eq_applyEdit_of_method (congrArg Prod.fst hq)
  have working : s.phase ≠ .exited := by rw [running]; exact Phase.noConfusion
  rw [requests_receive running method decoded command argument id] at mem ⊢
  cases folder : s.folders.head? with
  | none =>
    rw [folder] at mem
    exact absurd mem List.not_mem_nil
  | some root =>
    rw [folder] at mem
    dsimp only at mem ⊢
    have connected : client.connected = true := by
      by_cases h : client.connected = true
      · exact h
      · rw [requests_run_of_not_connected h] at mem
        exact absurd mem List.not_mem_nil
    obtain ⟨name, u, t, version, versions, file, address, opens, known, same⟩ :=
      exists_file_of_requests (List.ne_nil_of_mem mem)
    rw [same] at mem ⊢
    obtain ⟨i, plan, all⟩ := requests_run_planning connected working mem
    rw [Config.Format.ofPath_join root (List.mem_of_find?_eq_some file)] at plan
    let b : EditBasis disk client s rule :=
      { root := root, name := name, uri := u, text := t, version := version, settings := _,
        insertion := i, folder := folder, file := file, address := address, opens := opens,
        indentation := rfl, plan := plan }
    have answer : client.answer
        (.applyEdit ⟨u, versions.get? u.text, i.position, i.text⟩) = b.editAnswer := by
      rw [known]
      rfl
    refine ⟨b, ?_⟩
    rw [all _ answer, known, List.map_append]
    -- The two shapes of an edit differ by whether the command has read a version.
    have edit : call (.applyEdit ⟨u, version, i.position, i.text⟩) = b.editCall := by
      unfold EditBasis.editCall
      cases version <;> rfl
    congr 1
    · exact congrArg (fun c => [b.configurationCall, c]) edit
    · split <;> rfl

end Commands

/-- A workspace whose second candidate is open with unsaved changes, and a client that makes the
edit. -/
theorem applyEdit_is_planned_in_open_file :
    let disk : Disk := ⟨[(["w".toList], .directory),
      (["w".toList, ".eslintrc.yml".toList], .file [])]⟩
    let client : Client :=
      { answer := fun q =>
          match q with
          | .applyEdit _ => ⟨[], .result (.obj [("applied".toList, .bool true)])⟩
          | _ => ⟨[], .result .null⟩ }
    let s : Server :=
      { phase := .running, folders := [⟨"/w".toList⟩]
        documents :=
          Table.empty.insert "file:///w/.eslintrc.yml".toList ⟨"rules:".toList, 3⟩ }
    let r : Invocation :=
      ⟨"workspace/executeCommand".toList,
        some (.obj [("command".toList, .str CodeAction.disableCommand),
          ("arguments".toList, .arr [.str "semi".toList])])⟩
    ∃ b : EditBasis disk client s "semi".toList,
      (requests (receive disk client s (.request .null r)).2.1).map call =
        [b.configurationCall, b.editCall] ++
          if accepts b.editAnswer.reply ∧ stops b.editAnswer.before = false then [b.showCall]
          else [] := by
  intro disk client s r
  let u : Uri := ⟨"file".toList, some ⟨[], [], none⟩, "/w/.eslintrc.yml".toList, none, none⟩
  have mem : .applyEdit ⟨u, some 3, ⟨0, 6⟩, "\n    semi: off\n".toList⟩ ∈
      requests (receive disk client s (.request .null r)).2.1 := by decide
  exact applyEdit_is_planned rfl (by decide) rfl (by decide) rfl .null
    (List.mem_map_of_mem (f := call) mem)

end Command

end RuleOff
