import RuleOff.Proofs.Command.Version
import RuleOff.Proofs.Session.Alike
import RuleOff.Proofs.Uri.Spelling

/-!
# Whether a command finds an open document

The server keeps the copies of documents under the texts of their URIs, and a disable command looks
for its file under the text that the path of the file has as a URI. A client that writes the URI in
another way has its document passed over: the command goes as if the document were not open.

## Main definitions

* `Command.EditOf`: the edit that a command sends of a text once it has opened it.

## Main statements

* `Command.receive_congr`: a disable command that comes to the same text goes the same way.
* `Command.mem_requests_receive_iff`: which edit a disable command sends.
* `Command.copy_used_if_plain`: an open document is used if its URI is plain, and only then.
-/

namespace RuleOff

namespace Script

variable {fallback : Settings} {path : Path} {u : Uri} {rule : Text}
  {versions : ClientEditor.ReadVersions}

theorem isTalk_noting {α : Type} {r : Option LogRecord} {x : Exchange α} (talk : x.IsTalk) :
    (noting r x).IsTalk := by
  cases r with
  | none => exact talk
  | some r => exact talk

theorem isTalk_pointing : (pointing path u versions).IsTalk :=
  fun _ => isTalk_noting trivial

theorem isTalk_inserting (i : Config.Insertion) : (inserting path u rule versions i).IsTalk := by
  intro reply
  dsimp only
  cases editFailure? path reply with
  | some e => trivial
  | none => exact fun shown => isTalk_noting trivial

/-- A command that knows its text looks nothing up any more. -/
theorem isTalk_planning (t : Text) : (planning fallback path u rule versions t).IsTalk := by
  intro reply
  apply isTalk_noting
  cases Config.plan t (.ofPath path) rule (reported fallback reply).1.indentUnit with
  | none => exact isTalk_pointing
  | some i => exact isTalk_inserting i

end Script

namespace Command

open Script Session

section Lookups

variable {disk disk' : Disk} {s s' : Server} {fallback : Settings} {path : Path} {c : Uri}
  {rule : Text}

theorem isTalk_settled_locating (disk : Disk) (s : Server) (fallback : Settings) (root : Path)
    (rule : Text) (names : List Text) :
    (settled disk s (locating fallback root rule (names.map root.join))).IsTalk := by
  have located := @settled_locating disk s fallback rule root names
  rcases located with ⟨e, ended⟩ | ⟨name, u, t, version, versions, -, -, -, -, ready⟩
  · rw [ended]
    trivial
  · rw [ready]
    exact isTalk_planning t

/-- Commands that look at the same files and open the first of them alike stand at the same place
when they have looked for their file. -/
theorem settled_locating_congr (files : ∀ p, disk'.isFile p = disk.isFile p) {root : Path}
    {names : List Text} {name : Text}
    (file : names.find? (fun n => disk.isFile (root.join n)) = some name)
    (address : Uri.ofFilePath? (root.join name) = some c)
    (opens : settled disk' s' (opening fallback (root.join name) c rule) =
      settled disk s (opening fallback (root.join name) c rule)) :
    settled disk' s' (locating fallback root rule (names.map root.join)) =
      settled disk s (locating fallback root rule (names.map root.join)) := by
  induction names with
  | nil => exact nomatch file
  | cons n names ih =>
    rw [List.map_cons, settled_locating_cons, settled_locating_cons, files]
    rw [List.find?_cons] at file
    cases here : disk.isFile (root.join n) with
    | true =>
      rw [here] at file
      obtain rfl := Option.some.inj file
      rw [if_pos rfl]
      unfold addressing
      rw [address]
      exact opens
    | false =>
      rw [here] at file
      rw [if_neg Bool.false_ne_true]
      exact ih file

theorem Opens.eq_copy_of_tracked {t : Text} {version : Option Int} {d : Document}
    (opens : Opens disk s path c t version) (tracked : s.document? c = some d) :
    t = d.text ∧ version = some d.version := by
  cases opens with
  | copy here =>
    obtain rfl := Option.some.inj (tracked.symm.trans here)
    exact ⟨rfl, rfl⟩
  | file untracked contents =>
    rw [tracked] at untracked
    exact nomatch untracked

theorem settled_opening_of_tracked {d : Document} (tracked : s.document? c = some d) :
    settled disk s (opening fallback path c rule) =
      planning fallback path c rule (Table.empty.insert c.text d.version) d.text := by
  unfold opening settled
  rw [tracked]
  rfl

theorem settled_opening_congr (copy : s'.document? c = s.document? c) :
    settled disk s' (opening fallback path c rule) =
      settled disk s (opening fallback path c rule) := by
  cases tracked : s.document? c with
  | some d =>
    rw [settled_opening_of_tracked tracked, settled_opening_of_tracked (copy.trans tracked)]
  | none =>
    unfold opening settled
    rw [copy, tracked]
    dsimp only
    unfold settled
    cases disk.read path <;> rfl

end Lookups

/-! ### The edits of a command -/

/-- The edit that a command sends of a text once it has opened it, under its URI and version. The
client is reached, it does not stop the server when it is asked for the indentation, and what it
reports is what the text is planned with. -/
structure EditOf (client : Client) (fallback : Settings) (path : Path) (u : Uri) (rule t : Text)
    (version : Option Int) (e : DocumentEdit) : Prop where
  connected : client.connected = true
  goes_on : stops (client.answer (.configuration u ClientEditor.editorSection)).before = false
  planned : ∃ i, Config.plan t (.ofPath path) rule
      (reported fallback
        (client.answer (.configuration u ClientEditor.editorSection)).reply).1.indentUnit = some i ∧
    e = ⟨u, version, i.position, i.text⟩

section Edits

variable {disk : Disk} {client : Client} {s : Server} {fallback : Settings} {path : Path} {c : Uri}
  {rule t : Text} {versions : ClientEditor.ReadVersions} {e : DocumentEdit}

theorem mem_requests_planning_iff (working : s.phase ≠ .exited) :
    .applyEdit e ∈
        requests (run disk client s (planning fallback path c rule versions t)).events ↔
      EditOf client fallback path c rule t (versions.get? c.text) e := by
  by_cases connected : client.connected = true
  · let told := client.answer (.configuration c ClientEditor.editorSection)
    have exits := s.hearAll_phase_exited_iff working told.before
    unfold planning
    rw [requests_run_ask connected s _ _ working, List.mem_cons,
      or_iff_right ClientRequest.noConfusion]
    cases stopped : stops told.before with
    | true =>
      rw [if_pos rfl]
      refine iff_of_false List.not_mem_nil fun made => ?_
      exact absurd (stopped.symm.trans made.goes_on) Bool.noConfusion
    | false =>
      have going : (s.hearAll told.before).1.phase ≠ .exited := fun he => by
        rw [exits.mp he] at stopped
        exact Bool.noConfusion stopped
      rw [if_neg Bool.false_ne_true, requests_run_noting]
      cases planned : Config.plan t (.ofPath path) rule
          (reported fallback told.reply).1.indentUnit with
      | none =>
        dsimp only
        rw [requests_run_pointing connected going, List.mem_singleton]
        refine iff_of_false ClientRequest.noConfusion fun made => ?_
        obtain ⟨i, here, -⟩ := made.planned
        exact absurd (planned.symm.trans here) (Option.some_ne_none i).symm
      | some i =>
        dsimp only
        rw [requests_run_inserting connected going rfl, List.mem_cons]
        -- All that may follow the edit is the request to show it.
        rw [or_iff_left (by split <;> simp)]
        constructor
        · intro same
          exact ⟨connected, stopped, i, planned, ClientRequest.applyEdit.inj same⟩
        · intro made
          obtain ⟨j, here, rfl⟩ := made.planned
          obtain rfl := Option.some.inj (planned.symm.trans here)
          rfl
  · rw [requests_run_of_not_connected connected]
    exact iff_of_false List.not_mem_nil fun made => connected made.connected

/-- The edit that a command sends of a document is that of the text that it opens. -/
theorem mem_requests_opening_iff (working : s.phase ≠ .exited) :
    .applyEdit e ∈ requests (run disk client s (opening fallback path c rule)).events ↔
      ∃ t version, Opens disk s path c t version ∧
        EditOf client fallback path c rule t version e := by
  cases tracked : s.document? c with
  | some d =>
    unfold opening
    rw [run_document, tracked]
    dsimp only
    rw [mem_requests_planning_iff working, Table.get?_insert, if_pos rfl]
    constructor
    · exact fun made => ⟨d.text, some d.version, .copy tracked, made⟩
    · rintro ⟨t, version, opens, made⟩
      obtain ⟨rfl, rfl⟩ := opens.eq_copy_of_tracked tracked
      exact made
  | none =>
    unfold opening
    rw [run_document, tracked]
    dsimp only
    rw [run_readFile]
    cases contents : disk.read path with
    | ok t =>
      change .applyEdit e ∈
        requests (run disk client s (planning fallback path c rule .empty t)).events ↔ _
      rw [mem_requests_planning_iff working, Table.get?_empty]
      constructor
      · exact fun made => ⟨t, none, .file tracked contents, made⟩
      · rintro ⟨t', version, opens, made⟩
        obtain ⟨rfl, read⟩ := opens.eq_file_of_untracked tracked
        rw [contents] at read
        obtain rfl := Except.ok.inj read
        exact made
    | error f =>
      refine iff_of_false List.not_mem_nil ?_
      rintro ⟨t, version, opens, -⟩
      obtain ⟨-, read⟩ := opens.eq_file_of_untracked tracked
      rw [contents] at read
      exact nomatch read

end Edits

section Commands

variable {disk disk' : Disk} {client : Client} {s s' : Server} {r : Invocation}
  {q : CommandParams} {rule : Text} {root : Path}

/-- A disable command that stands at the same place when it has looked for its file goes the same
way from there, and is answered alike. -/
theorem receive_congr (alike : s'.Alike s) (running : s.phase = .running)
    (method : Method.ofName r.method = .executeCommand)
    (decoded : Server.readParams? CommandParams.decode r.params = some q)
    (command : q.command = CodeAction.disableCommand)
    (argument : Server.ruleArgument? q.arguments = some rule)
    (folder : s.folders.head? = some root)
    (same : settled disk' s' (locating s.settings root rule (Config.candidates.map root.join)) =
      settled disk s (locating s.settings root rule (Config.candidates.map root.join)))
    (id : MessageId) :
    (receive disk' client s' (.request id r)).2 = (receive disk client s (.request id r)).2 := by
  have running' : s'.phase = .running := alike.phase.trans running
  have folder' : s'.folders.head? = some root := by rw [alike.folders, folder]
  rw [receive_request (Server.ne_exited_of_running running'),
    receive_request (Server.ne_exited_of_running running),
    answer_disable running' method decoded command argument,
    answer_disable running method decoded command argument,
    disableRule_of_folder folder', disableRule_of_folder folder, alike.settings,
    Exchange.bind_assoc]
  dsimp only
  -- From the same place on, both only talk.
  rw [← run_settled_bind disk', ← run_settled_bind disk, same]
  have talk : ((settled disk s (locating s.settings root rule
      (Config.candidates.map root.join))).bind fun ending =>
        (telling rule ending.1).bind fun _ =>
          Exchange.done (some (Response.result .null))).IsTalk := by
    apply (isTalk_settled_locating disk s s.settings root rule Config.candidates).bind
    rintro ⟨outcome, versions⟩
    cases outcome with
    | ok i => trivial
    | error e => trivial
  obtain ⟨events, value⟩ := run_talk talk alike disk' disk
  rw [events, value]

/-- The edit that a disable command sends is that of the text which it opens. -/
theorem mem_requests_receive_iff {name : Text} {c : Uri} {e : DocumentEdit}
    (running : s.phase = .running) (folder : s.folders.head? = some root)
    (file : Config.candidates.find? (fun n => disk.isFile (root.join n)) = some name)
    (address : Uri.ofFilePath? (root.join name) = some c)
    (method : Method.ofName r.method = .executeCommand)
    (decoded : Server.readParams? CommandParams.decode r.params = some q)
    (command : q.command = CodeAction.disableCommand)
    (argument : Server.ruleArgument? q.arguments = some rule) (client : Client) (id : MessageId) :
    .applyEdit e ∈ requests (receive disk client s (.request id r)).2.1 ↔
      ∃ t version, Opens disk s (root.join name) c t version ∧
        EditOf client s.settings (root.join name) c rule t version e := by
  have first : Config.candidates.find? (disk.isFile ∘ root.join) = some name := file
  rw [requests_receive running method decoded command argument, folder]
  dsimp only
  rw [run_locating, List.find?_map, first]
  dsimp only [Option.map_some]
  unfold addressing
  rw [address]
  exact mem_requests_opening_iff (Server.ne_exited_of_running running)

/-- A command that finds a copy goes the same way whatever the file holds. -/
theorem receive_eq_of_tracked {name : Text} {c : Uri} {d : Document} (running : s.phase = .running)
    (folder : s.folders.head? = some root)
    (file : Config.candidates.find? (fun n => disk.isFile (root.join n)) = some name)
    (address : Uri.ofFilePath? (root.join name) = some c) (tracked : s.document? c = some d)
    (method : Method.ofName r.method = .executeCommand)
    (decoded : Server.readParams? CommandParams.decode r.params = some q)
    (command : q.command = CodeAction.disableCommand)
    (argument : Server.ruleArgument? q.arguments = some rule) (client : Client) (id : MessageId)
    (files : ∀ path, disk'.isFile path = disk.isFile path) :
    (receive disk' client s (.request id r)).2 = (receive disk client s (.request id r)).2 := by
  refine receive_congr (.refl s) running method decoded command argument folder ?_ id
  apply settled_locating_congr files file address
  rw [settled_opening_of_tracked tracked, settled_opening_of_tracked tracked]

/-- A command passes over a document that stands under another text than its file has as a URI. -/
theorem receive_closeDocument {name : Text} {u c : Uri} (running : s.phase = .running)
    (folder : s.folders.head? = some root)
    (file : Config.candidates.find? (fun n => disk.isFile (root.join n)) = some name)
    (address : Uri.ofFilePath? (root.join name) = some c) (apart : u.text ≠ c.text)
    (method : Method.ofName r.method = .executeCommand)
    (decoded : Server.readParams? CommandParams.decode r.params = some q)
    (command : q.command = CodeAction.disableCommand)
    (argument : Server.ruleArgument? q.arguments = some rule) (client : Client) (id : MessageId) :
    (receive disk client (s.closeDocument u) (.request id r)).2 =
      (receive disk client s (.request id r)).2 := by
  refine receive_congr (Server.alike_closeDocument s u) running method decoded command argument
    folder ?_ id
  apply settled_locating_congr (fun _ => rfl) file address
  exact settled_opening_congr ((Table.get?_erase _ _ _).trans (if_neg apart))

/-- A disable command uses the copy of an open document if the URI of the document is plain: the
edit that it sends is that of the copy, with its version, whatever the file holds. Otherwise the
command goes as if the document were closed, although the URI stands for the file: unless the plain
one is open as well, the edit is that of the file, and has no version. -/
theorem copy_used_if_plain {name : Text} {u : Uri} {d : Document} {written : Text} {p : Path}
    (running : s.phase = .running) (folder : s.folders.head? = some root)
    (file : Config.candidates.find? (fun n => disk.isFile (root.join n)) = some name)
    (tracked : s.document? u = some d) (read : Uri.parse? written = some u)
    (scheme : u.scheme = "file".toList) (denotes : u.toFilePath? = some p)
    (same : p.same (root.join name) = true)
    (method : Method.ofName r.method = .executeCommand)
    (decoded : Server.readParams? CommandParams.decode r.params = some q)
    (command : q.command = CodeAction.disableCommand)
    (argument : Server.ruleArgument? q.arguments = some rule) (client : Client) (id : MessageId) :
    let after := receive disk client s (.request id r)
    (u.IsPlain →
      (∀ e, .applyEdit e ∈ requests after.2.1 ↔
        EditOf client s.settings (root.join name) u rule d.text (some d.version) e) ∧
      ∀ disk' : Disk, (∀ path, disk'.isFile path = disk.isFile path) →
        (receive disk' client s (.request id r)).2 = after.2) ∧
    (¬ u.IsPlain →
      (receive disk client (s.closeDocument u) (.request id r)).2 = after.2 ∧
      ∀ c, Uri.ofFilePath? (root.join name) = some c → s.document? c = none →
        ∀ e, .applyEdit e ∈ requests after.2.1 ↔
          ∃ t, disk.read (root.join name) = .ok t ∧
            EditOf client s.settings (root.join name) c rule t none e) := by
  intro after
  have absolute := Path.isAbsolute_of_same same (Uri.isAbsolute_of_toFilePath? denotes)
  obtain ⟨c, address⟩ : ∃ c, Uri.ofFilePath? (root.join name) = some c :=
    ⟨_, Uri.ofFilePath?_eq absolute⟩
  have edits := fun e => mem_requests_receive_iff (e := e) running folder file address method
    decoded command argument client id
  constructor
  · intro plain
    obtain rfl := Uri.eq_of_isPlain read scheme denotes same address plain
    refine ⟨fun e => (edits e).trans ⟨?_, fun made => ⟨_, _, .copy tracked, made⟩⟩,
      fun disk' => receive_eq_of_tracked running folder file address tracked method decoded command
        argument client id⟩
    rintro ⟨t, version, opens, made⟩
    obtain ⟨rfl, rfl⟩ := opens.eq_copy_of_tracked tracked
    exact made
  · intro other
    have apart : u.text ≠ c.text := fun text =>
      other ((Uri.text_eq_iff_isPlain read scheme denotes same address).mp text)
    refine ⟨receive_closeDocument running folder file address apart method decoded command argument
      client id, fun c' address' untracked e => ?_⟩
    obtain rfl := Option.some.inj (address.symm.trans address')
    refine (edits e).trans ⟨?_, fun ⟨t, contents, made⟩ => ⟨t, none, .file untracked contents, made⟩⟩
    rintro ⟨t, version, opens, made⟩
    obtain ⟨rfl, contents⟩ := opens.eq_file_of_untracked untracked
    exact ⟨t, contents, made⟩

end Commands

/-- The client has opened the file under the URI that its path has. -/
theorem copy_used_if_plain_of_open_file :
    let disk : Disk := ⟨[(["w".toList], .directory),
      (["w".toList, ".eslintrc.yml".toList], .file [])]⟩
    let client : Client := { answer := fun _ => ⟨[], .result .null⟩ }
    let written := "file:///w/.eslintrc.yml".toList
    let start : Step := .send client (.obj
      [("id".toList, .int 1), ("method".toList, .str "initialize".toList),
        ("params".toList, .obj
          [("capabilities".toList, .obj []), ("rootUri".toList, .str "file:///w".toList)])])
    let opening : Step := .send client (.obj
      [("method".toList, .str "textDocument/didOpen".toList),
        ("params".toList, .obj [("textDocument".toList, .obj
          [("uri".toList, .str written), ("languageId".toList, .str "yaml".toList),
            ("version".toList, .int 3), ("text".toList, .str "rules:".toList)])])])
    let s := (step disk (step disk {} start).2.1 opening).2.1
    let r : Invocation :=
      ⟨"workspace/executeCommand".toList,
        some (.obj [("command".toList, .str CodeAction.disableCommand),
          ("arguments".toList, .arr [.str "semi".toList])])⟩
    let after := receive disk client s (.request .null r)
    let path : Path := ⟨"/w/.eslintrc.yml".toList⟩
    ∃ u d, Uri.parse? written = some u ∧ s.document? u = some d ∧ u.IsPlain ∧
      (u.IsPlain →
        (∀ e, .applyEdit e ∈ requests after.2.1 ↔
          EditOf client s.settings path u "semi".toList d.text (some d.version) e) ∧
        ∀ disk' : Disk, (∀ path, disk'.isFile path = disk.isFile path) →
          (receive disk' client s (.request .null r)).2 = after.2) ∧
      (¬ u.IsPlain →
        (receive disk client (s.closeDocument u) (.request .null r)).2 = after.2 ∧
        ∀ c, Uri.ofFilePath? path = some c → s.document? c = none →
          ∀ e, .applyEdit e ∈ requests after.2.1 ↔
            ∃ t, disk.read path = .ok t ∧
              EditOf client s.settings path c "semi".toList t none e) := by
  intro disk client written start opening s r after path
  let u : Uri := ⟨"file".toList, some ⟨[], [], none⟩, "/w/.eslintrc.yml".toList, none, none⟩
  have plain : u.IsPlain := by
    refine ⟨rfl, rfl, ["w".toList, ".eslintrc.yml".toList], ?_, by decide⟩
    intro n mem
    rcases List.mem_cons.mp mem with rfl | mem
    · exact ⟨by decide, by decide, by decide⟩
    · rw [List.mem_singleton.mp mem]
      exact ⟨by decide, by decide, by decide⟩
  have read : Uri.parse? written = some u := by decide
  have file : Config.candidates.find? (fun n => disk.isFile ((⟨"/w".toList⟩ : Path).join n)) =
      some ".eslintrc.yml".toList := by decide
  have method : Method.ofName r.method = .executeCommand := by decide
  have decoded : Server.readParams? CommandParams.decode r.params =
      some ⟨CodeAction.disableCommand, [.str "semi".toList]⟩ := rfl
  have both := copy_used_if_plain (s := s) rfl rfl file rfl read rfl rfl (by decide) method decoded
    rfl rfl client .null
  exact ⟨u, ⟨"rules:".toList, 3⟩, read, rfl, plain, both⟩

/-- The client has opened the file under a URI in which one character is percent-encoded without
need. The command reads the file, although the server knows version 7 of the document, in which the
entry belongs on another line. -/
theorem copy_not_used_for_encoded_character :
    let disk : Disk := ⟨[(["w".toList], .directory), (["w".toList, "a@b".toList], .directory),
      (["w".toList, "a@b".toList, ".eslintrc.yaml".toList],
        .file ("rules:\n".toUTF8.data.toList))]⟩
    let client : Client :=
      { answer := fun q =>
          match q with
          | .configuration _ _ => ⟨[], .result (.arr [])⟩
          | .applyEdit _ => ⟨[], .result (.obj [("applied".toList, .bool true)])⟩
          | .showDocument _ _ => ⟨[], .result (.obj [("success".toList, .bool true)])⟩ }
    let start : Step := .send client (.obj
      [("id".toList, .int 1), ("method".toList, .str "initialize".toList),
        ("params".toList, .obj
          [("capabilities".toList, .obj []), ("rootUri".toList, .str "file:///w/a%40b".toList)])])
    let opening : Step := .send client (.obj
      [("method".toList, .str "textDocument/didOpen".toList),
        ("params".toList, .obj [("textDocument".toList, .obj
          [("uri".toList, .str "file:///w/a%40b/.eslintrc.yaml".toList),
            ("languageId".toList, .str "yaml".toList), ("version".toList, .int 7),
            ("text".toList, .str "root: true\nrules:\n".toList)])])])
    let s₁ := (step disk {} start).2.1
    let s := (step disk s₁ opening).2.1
    let r : Invocation :=
      ⟨"workspace/executeCommand".toList,
        some (.obj [("command".toList, .str CodeAction.disableCommand),
          ("arguments".toList, .arr [.str "semi".toList])])⟩
    let root : Path := ⟨"/w/a@b".toList⟩
    let copy : Document := ⟨"root: true\nrules:\n".toList, 7⟩
    Reached disk s (opening.heard disk s₁) ∧ s.folders.head? = some root ∧
      Config.candidates.find? (fun n => disk.isFile (root.join n)) =
        some ".eslintrc.yaml".toList ∧
      ∃ u e, Uri.parse? "file:///w/a%40b/.eslintrc.yaml".toList = some u ∧
        s.document? u = some copy ∧ u.scheme = "file".toList ∧
        u.toFilePath? = some (root.join ".eslintrc.yaml".toList) ∧
        .applyEdit e ∈ requests (receive disk client s (.request .null r)).2.1 ∧
        e.version = none ∧
        Config.plan "rules:\n".toList .yaml "semi".toList s.settings.indentUnit =
          some ⟨e.position, e.newText, e.position⟩ ∧
        Config.plan copy.text .yaml "semi".toList s.settings.indentUnit ≠
          some ⟨e.position, e.newText, e.position⟩ := by
  intro disk client start opening s₁ s r root copy
  let u : Uri :=
    ⟨"file".toList, some ⟨[], [], none⟩, "/w/a%40b/.eslintrc.yaml".toList, none, none⟩
  let c : Uri := ⟨"file".toList, some ⟨[], [], none⟩, "/w/a@b/.eslintrc.yaml".toList, none, none⟩
  have reached : Reached disk s (opening.heard disk s₁) :=
    .step (.step (.start disk) start) opening
  have sent : .applyEdit ⟨c, none, ⟨1, 0⟩, "    semi: off\n".toList⟩ ∈
      requests (receive disk client s (.request .null r)).2.1 :=
    List.mem_of_getElem? (i := 1) rfl
  have read : Uri.parse? "file:///w/a%40b/.eslintrc.yaml".toList = some u := by decide
  exact ⟨reached, rfl, by decide, u, _, read, rfl, rfl, rfl, sent, rfl, by decide, by decide⟩

end Command

end RuleOff
