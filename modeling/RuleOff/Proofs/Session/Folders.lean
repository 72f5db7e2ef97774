import Mathlib.Data.List.Induction
import RuleOff.Proofs.Session.Working

/-!
# The folders of a session

A server at work knows the folders that its start has named and that notifications have added since,
in this order, without those that were removed. Folders are the same if their paths have the same
components.

## Main definitions

* `Invocation.folderChange?`: the change of folders that a notification tells of.
* `FolderChange.Turns`: what a change makes of a list of folders.
* `Session.started`: the server behind a start and some notifications.
* `Session.announcedFolders`: the URIs that were named as folders.

## Main statements

* `Server.turns_changeFolders`: every change of folders is such.
* `Server.head?_hearAll`: the first folder stays the first until it is removed.
* `Session.exists_announced_of_mem`: every folder has the path of a URI that was announced.
* `Session.exists_mem_of_announced`: every such path was a folder at some time.
-/

namespace RuleOff

/-- The change of folders that a notification tells of. -/
def Invocation.folderChange? (n : Invocation) : Option FolderChange :=
  match Method.ofName n.method with
  | .didChangeFolders => Server.readParams? FolderChange.decode n.params
  | _ => none

namespace FolderChange

/-- The change removes the folder with the path, which may be written in another way there. -/
def Removes (c : FolderChange) (path : Path) : Prop :=
  ∃ p ∈ Server.localPaths c.removed, p.same path = true

instance (c : FolderChange) (path : Path) : Decidable (c.Removes path) :=
  inferInstanceAs (Decidable (∃ p ∈ Server.localPaths c.removed, p.same path = true))

/-- What a change makes of a list of folders. -/
structure Turns (c : FolderChange) (before after : List Path) : Prop where
  /-- What is added is there, even if the change removes it as well. -/
  added : ∀ path ∈ Server.localPaths c.added, path ∈ after
  /-- What is removed and not added is gone, with all its copies. -/
  removed : ∀ path ∈ Server.localPaths c.removed,
    (∀ p ∈ Server.localPaths c.added, ¬ p.same path = true) → ∀ p ∈ after, ¬ p.same path = true
  /-- All the others stay, in their order and in front of what is added. -/
  order : ∃ kept : List Path, kept.Sublist before ∧ after = kept ++ Server.localPaths c.added ∧
    ∀ path, kept.count path = if c.Removes path then 0 else before.count path

end FolderChange

namespace Server

variable {s : Server} {c : FolderChange} {path root : Path}

theorem any_removed_iff :
    ((localPaths c.removed).any fun p => p.same path) = true ↔ c.Removes path :=
  List.any_eq_true

theorem mem_changeFolders_iff :
    path ∈ (s.changeFolders c).folders ↔
      path ∈ s.folders ∧ ¬ c.Removes path ∨ path ∈ localPaths c.added := by
  unfold changeFolders
  rw [List.mem_append, List.mem_filter, Bool.not_eq_true', ← Bool.not_eq_true, any_removed_iff]

theorem turns_changeFolders (s : Server) (c : FolderChange) :
    c.Turns s.folders (s.changeFolders c).folders where
  added path mem := mem_changeFolders_iff.mpr (.inr mem)
  removed path mem unadded p here same := by
    rcases mem_changeFolders_iff.mp here with ⟨-, stays⟩ | added
    · refine stays ⟨path, mem, ?_⟩
      rw [Path.same_iff] at same ⊢
      exact same.symm
    · exact unadded p added same
  order := by
    refine ⟨_, List.filter_sublist, rfl, fun path => ?_⟩
    by_cases removes : c.Removes path
    · rw [if_pos removes, List.count_eq_zero, List.mem_filter]
      rintro ⟨-, stays⟩
      rw [any_removed_iff.mpr removes] at stays
      exact Bool.noConfusion stays
    · rw [if_neg removes, List.count_filter]
      rw [Bool.not_eq_true', ← Bool.not_eq_true, any_removed_iff]
      exact removes

/-- The first folder stays the first, unless it is removed. -/
theorem head?_changeFolders (first : s.folders.head? = some root) (keeps : ¬ c.Removes root) :
    (s.changeFolders c).folders.head? = some root := by
  obtain ⟨rest, folders⟩ := List.head?_eq_some_iff.mp first
  have stays : (!(localPaths c.removed).any fun p => p.same root) = true := by
    rw [Bool.not_eq_true', ← Bool.not_eq_true, any_removed_iff]
    exact keeps
  have kept : s.folders.filter (fun p => !(localPaths c.removed).any fun q => q.same p) =
      root :: rest.filter (fun p => !(localPaths c.removed).any fun q => q.same p) := by
    rw [folders]
    exact List.filter_cons_of_pos stays
  unfold changeFolders
  dsimp only
  rw [kept]
  rfl

theorem updateSettings_folders (s : Server) (v : Json) :
    (s.updateSettings v).1.folders = s.folders := by
  unfold updateSettings
  split <;> rfl

theorem start_folders (s : Server) (p : StartParams) :
    (s.start p).1.folders = initialFolders p := by
  unfold start
  cases p.options with
  | none => rfl
  | some v => exact updateSettings_folders _ v

/-- What a notification says of folders is what it does to them. -/
theorem hearRunning_folders (s : Server) (n : Invocation) :
    (s.hearRunning n).1.folders =
      n.folderChange?.elim s.folders fun c => (s.changeFolders c).folders := by
  unfold hearRunning Invocation.folderChange?
  generalize Method.ofName n.method = method
  cases method
  case didChangeFolders => cases readParams? FolderChange.decode n.params <;> rfl
  case didChangeConfiguration =>
    cases readParams? decodeConfiguration n.params with
    | none => rfl
    | some v => exact updateSettings_folders s v
  case didChange =>
    cases readParams? ChangeParams.decode n.params with
    | none => rfl
    | some p =>
      change (s.changeDocument p).folders = s.folders
      unfold changeDocument
      split <;> rfl
  -- The others leave the folders alone.
  all_goals first | rfl | (dsimp only; split <;> rfl)

theorem hear_folders (running : s.phase = .running) (n : Invocation) :
    (s.hear n).1.folders =
      n.folderChange?.elim s.folders fun c => (s.changeFolders c).folders := by
  rw [← hearRunning_folders]
  unfold hear
  by_cases exits : Method.ofName n.method = .exit
  · -- The server stops and keeps its folders, as one does that makes nothing of the method.
    rw [if_pos exits]
    unfold hearRunning
    rw [exits]
  · rw [if_neg exits, if_pos running]

/-- Notifications that do not remove the first folder leave it the first. -/
theorem head?_hearAll {ns : List Invocation} (running : (s.hearAll ns).1.phase = .running)
    (first : s.folders.head? = some root)
    (keeps : ∀ n ∈ ns, ∀ c, n.folderChange? = some c → ¬ c.Removes root) :
    (s.hearAll ns).1.folders.head? = some root := by
  induction ns generalizing s with
  | nil => exact first
  | cons n ns ih =>
    have rest : ((s.hear n).1.hearAll ns).1.phase = .running := running
    obtain ⟨working, -⟩ := hear_of_running (running_of_hearAll rest)
    have here : (s.hear n).1.folders.head? = some root := by
      rw [hear_folders working]
      cases change : n.folderChange? with
      | none => exact first
      | some c => exact head?_changeFolders first (keeps n List.mem_cons_self c change)
    exact ih rest here fun m mem => keeps m (List.mem_cons_of_mem n mem)

end Server

/-- The URIs that a start names as folders: those of its list, even if that is empty, and otherwise
the root. -/
def StartParams.folderUris (p : StartParams) : List Uri :=
  match p.folders with
  | some folders => folders.map WorkspaceFolder.uri
  | none => p.rootUri.toList

/-- The URIs that a notification adds as folders. -/
def Invocation.addedUris (n : Invocation) : List Uri :=
  match n.folderChange? with
  | some c => c.added.map WorkspaceFolder.uri
  | none => []

namespace Session

variable {p : StartParams} {ns : List Invocation} {path : Path}

/-- The server behind a start and some notifications. -/
def started (p : StartParams) (ns : List Invocation) : Server :=
  ((({} : Server).start p).1.hearAll ns).1

/-- The URIs that were named as folders, by the start and since. -/
def announcedFolders (p : StartParams) (ns : List Invocation) : List Uri :=
  p.folderUris ++ ns.flatMap Invocation.addedUris

theorem started_append_singleton (p : StartParams) (ns : List Invocation) (n : Invocation) :
    started p (ns ++ [n]) = ((started p ns).hear n).1 :=
  Server.hearAll_append _ ns [n]

theorem announcedFolders_append_singleton (p : StartParams) (ns : List Invocation)
    (n : Invocation) : announcedFolders p (ns ++ [n]) = announcedFolders p ns ++ n.addedUris := by
  unfold announcedFolders
  rw [List.flatMap_append, List.append_assoc, List.flatMap_singleton]

theorem mem_announcedFolders_of_isPrefix {ms : List Invocation} {u : Uri}
    (announced : u ∈ announcedFolders p ms) (sofar : ms <+: ns) : u ∈ announcedFolders p ns := by
  obtain ⟨more, rfl⟩ := sofar
  unfold announcedFolders at announced ⊢
  rw [List.flatMap_append, ← List.append_assoc]
  exact List.mem_append_left _ announced

theorem running_of_isPrefix {ms : List Invocation} (running : (started p ns).phase = .running)
    (sofar : ms <+: ns) : (started p ms).phase = .running := by
  obtain ⟨more, rfl⟩ := sofar
  unfold started at running ⊢
  rw [Server.hearAll_append] at running
  exact Server.running_of_hearAll running

theorem mem_localPaths_iff {folders : List WorkspaceFolder} :
    path ∈ Server.localPaths folders ↔
      ∃ u ∈ folders.map WorkspaceFolder.uri, u.toFilePath? = some path := by
  unfold Server.localPaths
  rw [List.mem_filterMap]
  constructor
  · rintro ⟨f, mem, here⟩
    exact ⟨f.uri, List.mem_map_of_mem mem, here⟩
  · rintro ⟨u, mem, here⟩
    obtain ⟨f, named, rfl⟩ := List.mem_map.mp mem
    exact ⟨f, named, here⟩

theorem mem_initialFolders_iff :
    path ∈ Server.initialFolders p ↔ ∃ u ∈ p.folderUris, u.toFilePath? = some path := by
  unfold Server.initialFolders StartParams.folderUris
  cases p.folders with
  | some folders => exact mem_localPaths_iff
  | none => simp [Option.bind_eq_some_iff]

theorem mem_folders_hear_iff {s : Server} (running : s.phase = .running) {n : Invocation} :
    path ∈ (s.hear n).1.folders ↔
      path ∈ s.folders ∧ (∀ c, n.folderChange? = some c → ¬ c.Removes path) ∨
        ∃ u ∈ n.addedUris, u.toFilePath? = some path := by
  rw [Server.hear_folders running]
  unfold Invocation.addedUris
  cases n.folderChange? with
  | none => simp
  | some c =>
    simp only [Option.elim_some, Server.mem_changeFolders_iff, mem_localPaths_iff,
      Option.some.injEq, forall_eq']

/-- Every folder of a server at work has the path of a URI that was announced. -/
theorem exists_announced_of_mem (running : (started p ns).phase = .running)
    (mem : path ∈ (started p ns).folders) :
    ∃ u ∈ announcedFolders p ns, u.toFilePath? = some path := by
  induction ns using List.reverseRecOn with
  | nil =>
    have initial : path ∈ (({} : Server).start p).1.folders := mem
    rw [Server.start_folders, mem_initialFolders_iff] at initial
    obtain ⟨u, named, here⟩ := initial
    exact ⟨u, List.mem_append_left _ named, here⟩
  | append_singleton ns n ih =>
    rw [started_append_singleton] at running mem
    rw [announcedFolders_append_singleton]
    obtain ⟨working, -⟩ := Server.hear_of_running running
    rcases (mem_folders_hear_iff working).mp mem with ⟨before, -⟩ | ⟨u, added, here⟩
    · obtain ⟨u, announced, here⟩ := ih working before
      exact ⟨u, List.mem_append_left _ announced, here⟩
    · exact ⟨u, List.mem_append_right _ added, here⟩

/-- Every URI that was announced and has a path was a folder at some time, whatever its scheme. -/
theorem exists_mem_of_announced (running : (started p ns).phase = .running) {u : Uri}
    (announced : u ∈ announcedFolders p ns) (here : u.toFilePath? = some path) :
    ∃ ms, ms <+: ns ∧ path ∈ (started p ms).folders := by
  induction ns using List.reverseRecOn with
  | nil =>
    rcases List.mem_append.mp announced with named | added
    · refine ⟨[], List.prefix_rfl, ?_⟩
      change path ∈ (({} : Server).start p).1.folders
      rw [Server.start_folders, mem_initialFolders_iff]
      exact ⟨u, named, here⟩
    · exact absurd added List.not_mem_nil
  | append_singleton ns n ih =>
    rw [announcedFolders_append_singleton] at announced
    have now := running
    rw [started_append_singleton] at now
    obtain ⟨working, -⟩ := Server.hear_of_running now
    rcases List.mem_append.mp announced with before | added
    · obtain ⟨ms, sofar, mem⟩ := ih working before
      exact ⟨ms, sofar.trans (List.prefix_append ns [n]), mem⟩
    · refine ⟨ns ++ [n], List.prefix_rfl, ?_⟩
      rw [started_append_singleton, mem_folders_hear_iff working]
      exact .inr ⟨u, added, here⟩

end Session

end RuleOff
