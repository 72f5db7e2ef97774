import RuleOff.Proofs.Command.Version
import RuleOff.Proofs.Session.Folders
import RuleOff.Proofs.Session.Looked

/-!
# Where a command works

A disable command works in the first folder of the workspace alone. It looks for the candidates there,
reads one of them at most, and names no other document to the client. So what matters of the folders
is where the first one comes from, and how long it stays the first.

## Main definitions

* `Command.IsDisable`: a request with the command to switch a rule off.
* `Command.WorksIn`, `Command.Targets`: commands that keep to a folder.
* `Command.FromFileUri`: a path of an announced folder with the scheme of files.

## Main statements

* `Command.targets_head?`: disable commands keep to the first folder.
* `Command.folders_come_from_announced`: where the folders come from.
* `Command.first_folder_stays`: what becomes of the folders, and of the first in particular.
-/

namespace RuleOff

namespace Script

variable {files : Path → Prop} {documents : Uri → Prop} {fallback : Settings} {path : Path} {u : Uri}
  {rule : Text} {versions : ClientEditor.ReadVersions}

theorem within_noting {α : Type} {r : Option LogRecord} {x : Exchange α}
    (within : x.Within files documents) : (noting r x).Within files documents := by
  cases r <;> exact within

theorem within_pointing (mine : documents u) :
    (pointing path u versions).Within files documents :=
  ⟨⟨u, rfl, mine⟩, fun _ => within_noting trivial⟩

theorem within_inserting (mine : documents u) (i : Config.Insertion) :
    (inserting path u rule versions i).Within files documents := by
  refine ⟨⟨u, rfl, mine⟩, fun reply => ?_⟩
  dsimp only
  cases editFailure? path reply with
  | some e => trivial
  | none => exact ⟨⟨u, rfl, mine⟩, fun _ => within_noting trivial⟩

theorem within_planning (mine : documents u) (t : Text) :
    (planning fallback path u rule versions t).Within files documents := by
  refine ⟨⟨u, rfl, mine⟩, fun reply => within_noting ?_⟩
  cases Config.plan t (.ofPath path) rule (reported fallback reply).1.indentUnit with
  | none => exact within_pointing mine
  | some i => exact within_inserting mine i

theorem within_opening (here : files path) (mine : documents u) :
    (opening fallback path u rule).Within files documents := by
  refine ⟨mine, fun copy => ?_⟩
  cases copy with
  | some d => exact within_planning mine d.text
  | none =>
    refine ⟨here, fun contents => ?_⟩
    cases contents with
    | ok t => exact within_planning mine t
    | error reason => trivial

theorem within_locating (root : Path) {paths : List Path} (all : ∀ path ∈ paths, files path)
    (mine : ∀ path ∈ paths, ∀ u, Uri.ofFilePath? path = some u → documents u) :
    (locating fallback root rule paths).Within files documents := by
  induction paths with
  | nil => trivial
  | cons path paths ih =>
    refine ⟨all path List.mem_cons_self, fun found => ?_⟩
    cases found with
    | false =>
      exact ih (fun p mem => all p (List.mem_cons_of_mem path mem)) fun p mem =>
        mine p (List.mem_cons_of_mem path mem)
    | true =>
      show (addressing fallback path rule).Within files documents
      unfold addressing
      cases address : Uri.ofFilePath? path with
      | some u =>
        exact within_opening (all path List.mem_cons_self) (mine path List.mem_cons_self u address)
      | none => trivial

end Script

namespace Command

open Script Session

/-- The request is the command to switch the rule off. -/
structure IsDisable (rule : Text) (r : Invocation) : Prop where
  method : Method.ofName r.method = .executeCommand
  params : ∃ q, Server.readParams? CommandParams.decode r.params = some q ∧
    q.command = CodeAction.disableCommand ∧ Server.ruleArgument? q.arguments = some rule

/-- A command begins with the first candidate of a folder, looks at candidates of the folder only,
and sends requests about them only. -/
structure WorksIn (root : Path) (looked : List Path) (sent : List ClientRequest) : Prop where
  first : looked.head? = some (root.join ".eslintrc.yaml".toList)
  files : ∀ path ∈ looked, ∃ name ∈ Config.candidates, path = root.join name
  documents : ∀ q ∈ sent, ∃ name ∈ Config.candidates, ∃ u,
    Uri.ofFilePath? (root.join name) = some u ∧ q.document? = some u

section Commands

variable {disk : Disk} {client : Client} {s : Server} {r : Invocation} {rule : Text} {root : Path}

theorem within_disableRule (folder : s.folders.head? = some root) :
    (s.disableRule rule).Within (fun path => ∃ name ∈ Config.candidates, path = root.join name)
      fun u => ∃ name ∈ Config.candidates, Uri.ofFilePath? (root.join name) = some u := by
  rw [disableRule_of_folder folder]
  apply (within_locating root ?_ ?_).bind
  · rintro ⟨outcome, versions⟩
    cases outcome <;> trivial
  · intro path mem
    obtain ⟨name, candidate, rfl⟩ := List.mem_map.mp mem
    exact ⟨name, candidate, rfl⟩
  · intro path mem u address
    obtain ⟨name, candidate, rfl⟩ := List.mem_map.mp mem
    exact ⟨name, candidate, address⟩

theorem IsDisable.answer (disable : IsDisable rule r) (running : s.phase = .running) :
    s.answer r = (s, (s.disableRule rule).bind fun _ =>
      Exchange.done (some (Response.result .null))) := by
  obtain ⟨q, decoded, command, argument⟩ := disable.params
  exact answer_disable running disable.method decoded command argument

/-- Disable commands work in the folder, whatever the client answers. Without a folder they look at
nothing and send nothing. -/
def Targets (disk : Disk) (s : Server) (folder : Option Path) : Prop :=
  ∀ (rule : Text) (r : Invocation), IsDisable rule r → ∀ (client : Client) (id : MessageId),
    let looked := lookedWith disk client s (.request id r)
    let sent := requests (receive disk client s (.request id r)).2.1
    match folder with
    | some root => WorksIn root looked sent
    | none => looked = [] ∧ sent = []

/-- What a disable command does is what it does in the first folder. -/
theorem targets_head? (running : s.phase = .running) : Targets disk s s.folders.head? := by
  intro rule r disable client id
  have working := Server.ne_exited_of_running running
  dsimp only
  rw [← map_askedWith, askedWith_request working, lookedWith_request working,
    disable.answer running]
  cases folder : s.folders.head? with
  | none =>
    rw [disableRule_of_no_folder folder]
    exact ⟨rfl, rfl⟩
  | some root =>
    have script : (s.disableRule rule).Within _ _ := within_disableRule folder
    have within := script.bind (f := fun _ => Exchange.done (some (Response.result .null)))
      fun _ => trivial
    refine ⟨?_, looked_of_within within, fun q sent => ?_⟩
    · rw [disableRule_of_folder folder]
      rfl
    · obtain ⟨a, mem, rfl⟩ := List.mem_map.mp sent
      obtain ⟨u, about, name, candidate, address⟩ := asked_of_within within a mem
      exact ⟨name, candidate, u, address, about⟩

end Commands

section Folders

variable {p : StartParams} {disk : Disk} {s : Server} {heard ns ms : List Invocation} {path : Path}

/-- A folder with the path and the scheme of files was announced. -/
def FromFileUri (p : StartParams) (ns : List Invocation) (path : Path) : Prop :=
  ∃ u ∈ announcedFolders p ns, u.scheme = "file".toList ∧ u.toFilePath? = some path

theorem FromFileUri.of_isPrefix (announced : FromFileUri p ms path) (sofar : ms <+: ns) :
    FromFileUri p ns path := by
  obtain ⟨u, mem, rest⟩ := announced
  exact ⟨u, mem_announcedFolders_of_isPrefix mem sofar, rest⟩

/-- Every folder was announced, under a URI that has its path. Whether the scheme of the URI is that
of files does not matter: the folders of a session come from such URIs all the time if, and only if,
the path of whatever was announced is also that of such a URI. Commands work in the first of the
folders, wherever that comes from. -/
theorem folders_come_from_announced (moment : Moment p disk s heard) :
    (∀ path ∈ s.folders, ∃ u ∈ announcedFolders p heard, u.toFilePath? = some path) ∧
    ((∀ ns, ns <+: heard → ∀ path ∈ (started p ns).folders, FromFileUri p ns path) ↔
      ∀ ns, ns <+: heard → ∀ u ∈ announcedFolders p ns, ∀ path, u.toFilePath? = some path →
        FromFileUri p ns path) ∧
    Targets disk s s.folders.head? := by
  have now : s = started p heard := moment.eq_hearAll
  have running : (started p heard).phase = .running := now ▸ moment.running
  refine ⟨fun path mem => ?_, ⟨fun law ns sofar u announced path here => ?_,
    fun law ns sofar path mem => ?_⟩, targets_head? moment.running⟩
  · rw [now] at mem
    exact exists_announced_of_mem running mem
  · obtain ⟨ms, before, mem⟩ :=
      exists_mem_of_announced (running_of_isPrefix running sofar) announced here
    exact (law ms (before.trans sofar) path mem).of_isPrefix before
  · obtain ⟨u, announced, here⟩ :=
      exists_announced_of_mem (running_of_isPrefix running sofar) mem
    exact law ns sofar u announced path here

/-- A session that starts in `file:///w` and is told of `git:/v` and `file:///v` later. -/
theorem folders_come_from_announced_of_added :
    let disk : Disk := ⟨[]⟩
    let client : Client := { answer := fun _ => ⟨[], .result .null⟩ }
    let folder (uri : String) : Json :=
      .obj [("uri".toList, .str uri.toList), ("name".toList, .str [])]
    let start : Step := .send client (.obj
      [("id".toList, .int 1), ("method".toList, .str "initialize".toList),
        ("params".toList, .obj
          [("capabilities".toList, .obj []), ("rootUri".toList, .str "file:///w".toList)])])
    let adding : Step := .send client (.obj
      [("method".toList, .str "workspace/didChangeWorkspaceFolders".toList),
        ("params".toList, .obj [("event".toList, .obj
          [("added".toList, .arr [folder "git:/v", folder "file:///v"]),
            ("removed".toList, .arr [])])])])
    let w : Uri := ⟨"file".toList, some ⟨[], [], none⟩, "/w".toList, none, none⟩
    let p : StartParams := ⟨some w, none, none⟩
    let s₁ := (step disk {} start).2.1
    let s := (step disk s₁ adding).2.1
    let heard := adding.heard disk s₁
    Moment p disk s heard ∧
      s.folders = [⟨"/w".toList⟩, ⟨"/v".toList⟩, ⟨"/v".toList⟩] ∧
      FromFileUri p heard ⟨"/v".toList⟩ ∧
      (∀ path ∈ s.folders, ∃ u ∈ announcedFolders p heard, u.toFilePath? = some path) ∧
      ((∀ ns, ns <+: heard → ∀ path ∈ (started p ns).folders, FromFileUri p ns path) ↔
        ∀ ns, ns <+: heard → ∀ u ∈ announcedFolders p ns, ∀ path, u.toFilePath? = some path →
          FromFileUri p ns path) ∧
      Targets disk s s.folders.head? := by
  intro disk client folder start adding w p s₁ s heard
  have method : Method.ofName "initialize".toList = .start := by decide
  have starting : Working p (step disk {} start).1 s₁ [] :=
    .start (.start disk) rfl client rfl method rfl
  have moment : Moment p disk s heard := .between (.step starting adding rfl)
  have announced : FromFileUri p heard ⟨"/v".toList⟩ :=
    ⟨⟨"file".toList, some ⟨[], [], none⟩, "/v".toList, none, none⟩, by decide, rfl, by decide⟩
  exact ⟨moment, by decide, announced, folders_come_from_announced moment⟩

/-- The folder `memfs:/w` of a virtual file system has the path of a local directory. Commands edit
the file that lies there, although no folder of the session has the scheme of files. -/
theorem folder_of_virtual_file_system :
    let disk : Disk := ⟨[(["w".toList], .directory),
      (["w".toList, ".eslintrc.yaml".toList], .file ("rules:\n".toUTF8.data.toList))]⟩
    let client : Client := { answer := fun _ => ⟨[], .result (.arr [])⟩ }
    let start : Step := .send client (.obj
      [("id".toList, .int 1), ("method".toList, .str "initialize".toList),
        ("params".toList, .obj
          [("capabilities".toList, .obj []), ("workspaceFolders".toList, .arr [.obj
            [("uri".toList, .str "memfs:/w".toList), ("name".toList, .str "w".toList)]])])])
    let virtual : Uri := ⟨"memfs".toList, none, "/w".toList, none, none⟩
    let file : Uri := ⟨"file".toList, some ⟨[], [], none⟩, "/w/.eslintrc.yaml".toList, none, none⟩
    let p : StartParams := ⟨none, none, some [⟨virtual, "w".toList⟩]⟩
    let s := (step disk {} start).2.1
    let r : Invocation :=
      ⟨"workspace/executeCommand".toList,
        some (.obj [("command".toList, .str CodeAction.disableCommand),
          ("arguments".toList, .arr [.str "semi".toList])])⟩
    Moment p disk s [] ∧ announcedFolders p [] = [virtual] ∧
      ⟨"/w".toList⟩ ∈ s.folders ∧ ¬ FromFileUri p [] ⟨"/w".toList⟩ ∧
      ⟨"/w/.eslintrc.yaml".toList⟩ ∈ lookedWith disk client s (.request .null r) ∧
      .applyEdit ⟨file, none, ⟨1, 0⟩, "    semi: off\n".toList⟩ ∈
        requests (receive disk client s (.request .null r)).2.1 := by
  intro disk client start virtual file p s r
  have method : Method.ofName "initialize".toList = .start := by decide
  have starting : Working p (step disk {} start).1 s [] :=
    .start (.start disk) rfl client rfl method rfl
  have elsewhere : ¬ FromFileUri p [] ⟨"/w".toList⟩ := by
    rintro ⟨u, announced, scheme, -⟩
    obtain rfl := List.mem_singleton.mp announced
    exact absurd scheme (by decide)
  refine ⟨.between starting, rfl, by decide, elsewhere, ?_, ?_⟩
  · exact List.mem_of_getElem? (i := 0) rfl
  · exact List.mem_of_getElem? (i := 1) rfl

/-- A change of folders adds and removes what it says, and leaves the others in their order. The
first folder changes only if it is removed or if there was none. So commands work in one folder as
long as no notification removes it. -/
theorem first_folder_stays (moment : Moment p disk s heard) :
    (∀ (n : Invocation) (c : FolderChange), n.folderChange? = some c →
      c.Turns s.folders (s.hear n).1.folders) ∧
    (∀ n : Invocation, (s.hear n).1.folders.head? ≠ s.folders.head? →
      ∃ c, n.folderChange? = some c ∧
        (s.folders = [] ∨ ∃ root, s.folders.head? = some root ∧ c.Removes root)) ∧
    ∀ earlier later, heard = earlier ++ later → ∀ root,
      (started p earlier).folders.head? = some root →
      (∀ n ∈ later, ∀ c, n.folderChange? = some c → ¬ c.Removes root) →
      s.folders.head? = some root ∧ Targets disk s (some root) := by
  have running := moment.running
  refine ⟨fun n c change => ?_, fun n turned => ?_, ?_⟩
  · rw [Server.hear_folders running, change]
    exact Server.turns_changeFolders s c
  · rw [Server.hear_folders running] at turned
    cases change : n.folderChange? with
    | none =>
      rw [change] at turned
      exact absurd rfl turned
    | some c =>
      rw [change] at turned
      refine ⟨c, rfl, ?_⟩
      cases first : s.folders.head? with
      | none => exact .inl (List.head?_eq_none_iff.mp first)
      | some root =>
        refine .inr ⟨root, rfl, ?_⟩
        by_contra keeps
        rw [first] at turned
        exact turned (Server.head?_changeFolders first keeps)
  · rintro earlier later rfl root first keeps
    have now : s = ((started p earlier).hearAll later).1 :=
      moment.eq_hearAll.trans (Server.hearAll_append _ earlier later)
    have stays : s.folders.head? = some root := by
      rw [now] at running ⊢
      exact Server.head?_hearAll running first keeps
    exact ⟨stays, stays ▸ targets_head? running⟩

/-- A session with the folders `/v` and `/w`, and a change that removes the second of them, written
with a slash at its end, and adds it again behind another one. -/
theorem first_folder_stays_of_changed :
    let disk : Disk := ⟨[]⟩
    let client : Client := { answer := fun _ => ⟨[], .result .null⟩ }
    let folder (uri : String) : Json :=
      .obj [("uri".toList, .str uri.toList), ("name".toList, .str [])]
    let start : Step := .send client (.obj
      [("id".toList, .int 1), ("method".toList, .str "initialize".toList),
        ("params".toList, .obj
          [("capabilities".toList, .obj []),
            ("workspaceFolders".toList, .arr [folder "file:///v", folder "file:///w"])])])
    let changing : Step := .send client (.obj
      [("method".toList, .str "workspace/didChangeWorkspaceFolders".toList),
        ("params".toList, .obj [("event".toList, .obj
          [("added".toList, .arr [folder "file:///x", folder "file:///w"]),
            ("removed".toList, .arr [folder "file:///w/"])])])])
    let uri (path : String) : Uri :=
      ⟨"file".toList, some ⟨[], [], none⟩, path.toList, none, none⟩
    let p : StartParams := ⟨none, none, some [⟨uri "/v", []⟩, ⟨uri "/w", []⟩]⟩
    let s₁ := (step disk {} start).2.1
    let s := (step disk s₁ changing).2.1
    Moment p disk s (changing.heard disk s₁) ∧
      s.folders = [⟨"/v".toList⟩, ⟨"/x".toList⟩, ⟨"/w".toList⟩] ∧
      (started p []).folders.head? = some ⟨"/v".toList⟩ ∧
      Targets disk s (some ⟨"/v".toList⟩) ∧
      (∀ (n : Invocation) (c : FolderChange), n.folderChange? = some c →
        c.Turns s.folders (s.hear n).1.folders) ∧
      ∀ n : Invocation, (s.hear n).1.folders.head? ≠ s.folders.head? →
        ∃ c, n.folderChange? = some c ∧
          (s.folders = [] ∨ ∃ root, s.folders.head? = some root ∧ c.Removes root) := by
  intro disk client folder start changing uri p s₁ s
  have method : Method.ofName "initialize".toList = .start := by decide
  have starting : Working p (step disk {} start).1 s₁ [] :=
    .start (.start disk) rfl client rfl method rfl
  have moment : Moment p disk s (changing.heard disk s₁) := .between (.step starting changing rfl)
  have keeps : ∀ n ∈ changing.heard disk s₁, ∀ c, n.folderChange? = some c →
      ¬ c.Removes ⟨"/v".toList⟩ := by
    intro n mem c change
    obtain rfl := List.mem_singleton.mp mem
    obtain rfl := Option.some.inj change
    decide
  have first : (started p []).folders.head? = some ⟨"/v".toList⟩ := by decide
  obtain ⟨turns, head, stays⟩ := first_folder_stays moment
  obtain ⟨-, targets⟩ := stays [] (changing.heard disk s₁) rfl _ first keeps
  exact ⟨moment, by decide, first, targets, turns, head⟩

end Folders

end Command

end RuleOff
