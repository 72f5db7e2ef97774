import Mathlib.Data.List.Induction
import RuleOff.Proofs.Command.Script
import RuleOff.Proofs.Session.Requests
import RuleOff.Proofs.Uri.Spelling
import RuleOff.Workspace

/-!
# The versions that an editor remembers

An editor remembers the version of a copy that it reads, and sends it with its edits of the document
from then on. A document that it reads from the file has no version, but what the editor remembers
of earlier readings stays. So an edit has the version of the latest reading from a copy, which need
not be the latest reading.

## Main definitions

* `ClientEditor.Use`: a call of an operation, with what it finds.
* `ClientEditor.versionsAfter`: what an editor remembers after some calls.
* `ClientEditor.readings`: where an editor has read a document from.

## Main statements

* `ClientEditor.Use.succeeds_iff`: the calls that read a document are those that do not fail.
* `ClientEditor.Use.get?_versionsAfter`: what a call does to the versions.
* `ClientEditor.get?_versionsAfter`: what an editor remembers of a document.
* `ClientEditor.insert_sends_latest_copy`: the version of an edit.
-/

namespace RuleOff

namespace Exchange

variable {α β : Type} {P : α → Prop}

/-- Whatever is looked up and replied, the value is such. -/
def Ends (P : α → Prop) : Exchange α → Prop
  | done a => P a
  | log _ next => next.Ends P
  | notify _ next => next.Ends P
  | ask _ next => ∀ reply, (next reply).Ends P
  | document _ next => ∀ copy, (next copy).Ends P
  | isFile _ next => ∀ found, (next found).Ends P
  | readFile _ next => ∀ contents, (next contents).Ends P

theorem Ends.noting {x : Exchange α} (ends : x.Ends P) (r : Option LogRecord) :
    (Script.noting r x).Ends P := by
  cases r <;> exact ends

theorem Ends.bind {Q : β → Prop} {x : Exchange α} (ends : x.Ends P) {f : α → Exchange β}
    (rest : ∀ a, P a → (f a).Ends Q) : (x.bind f).Ends Q := by
  induction x with
  | done a => exact rest a ends
  | log r next ih => exact ih ends
  | notify n next ih => exact ih ends
  | ask q next ih => exact fun reply => ih reply (ends reply)
  | document u next ih => exact fun copy => ih copy (ends copy)
  | isFile p next ih => exact fun found => ih found (ends found)
  | readFile p next ih => exact fun contents => ih contents (ends contents)

end Exchange

namespace Session

variable {α : Type} {disk : Disk} {client : Client} {s : Server} {P : α → Prop}

theorem of_value_of_ends {x : Exchange α} (ends : x.Ends P) {a : α}
    (value : (run disk client s x).value = some a) : P a := by
  induction x generalizing s with
  | done b =>
    obtain rfl := Option.some.inj value
    exact ends
  | log r next ih => exact ih ends value
  | notify n next ih => exact ih ends value
  | ask q next ih =>
    rw [run_ask] at value
    dsimp only at value
    split at value
    · split at value
      · exact absurd value (Option.some_ne_none a).symm
      · exact ih _ (ends _) value
    · exact ih _ (ends _) value
  | document u next ih => exact ih _ (ends _) value
  | isFile p next ih => exact ih _ (ends _) value
  | readFile p next ih => exact ih _ (ends _) value

end Session

namespace ClientEditor

open Script

/-- The operation that a call is for. Its value does not matter here, only whether it fails. -/
def perform : Call → ExceptT DisableError Talk Unit
  | .isFile p => do
    let _ ← ExceptT.lift (editor.isFile p)
    pure ()
  | .read p => do
    let _ ← editor.read p
    pure ()
  | .indentation p fallback => do
    let _ ← ExceptT.lift (editor.indentation p fallback)
    pure ()
  | .insert p place t => editor.insert p place t
  | .reveal p cursor => editor.reveal p cursor

/-- A call of an operation with the files, the client and the server that it finds. Between two
calls all of them may have changed in any way, and so may the server while a call waits. -/
structure Use where
  disk : Disk
  client : Client
  server : Server
  call : Call

/-- Where a document was read from. -/
inductive Source where
  /-- The server's copy, with its version. -/
  | copy (version : Int)
  | file
deriving DecidableEq

/-- The version under which a document was read. -/
def Source.version? : Source → Option Int
  | copy v => some v
  | file => none

namespace Use

variable (a : Use) (versions : ReadVersions)

/-- What comes of a call, for an editor that remembers the versions. -/
def outcome : Session.Outcome (Except DisableError Unit × ReadVersions) :=
  Session.run a.disk a.client a.server ((perform a.call).run.run versions)

/-- What an editor remembers after a call. A call that is stopped while it waits has read nothing. -/
def versionsAfter : ReadVersions := (a.outcome versions).value.elim versions Prod.snd

/-- Where the call reads the document from, if it is one that reads it. -/
def reading? (u : Uri) (a : Use) : Option Source :=
  match a.call with
  | .read p =>
    if Uri.ofFilePath? p = some u then
      match a.server.document? u with
      | some d => some (.copy d.version)
      | none => (a.disk.read p).toOption.map fun _ => .file
    else none
  | _ => none

end Use

/-! ### What calls do -/

section Operations

variable {p : Path} {u : Uri} (versions : ReadVersions)

/-- Only reading changes what is remembered. -/
theorem ends_perform {c : Call} (other : ∀ p, c ≠ .read p) :
    ((perform c).run.run versions).Ends fun ending => ending.2 = versions := by
  cases c with
  | isFile p => exact fun found => rfl
  | read p => exact absurd rfl (other p)
  | indentation p fallback =>
    change ((ExceptT.lift (indentation p fallback) >>= fun _ => pure ()).run.run versions).Ends _
    rw [lift_bind_run, indentation_run]
    intro reply
    change ((noting _ _).bind _).Ends _
    rw [noting_bind]
    refine .noting ?_ _
    rfl
  | insert p place t =>
    change ((ClientEditor.insert p place t).run.run versions).Ends _
    cases address : Uri.ofFilePath? p with
    | none =>
      unfold ClientEditor.insert
      rw [uriOf_bind_run_of_none address]
      rfl
    | some u =>
      rw [insert_run address]
      intro reply
      dsimp only
      cases editFailure? p reply <;> rfl
  | reveal p cursor =>
    change ((ClientEditor.reveal p cursor).run.run versions).Ends _
    cases address : Uri.ofFilePath? p with
    | none =>
      unfold reveal
      rw [uriOf_bind_run_of_none address]
      rfl
    | some u =>
      rw [reveal_run address]
      intro reply
      refine .noting ?_ _
      rfl

end Operations

namespace Use

variable {disk : Disk} {client : Client} {s : Server} {a : Use} {p q : Path} {u : Uri}
  (versions : ReadVersions)

theorem value_outcome_read_of_none (address : Uri.ofFilePath? p = none) :
    (outcome ⟨disk, client, s, .read p⟩ versions).value =
      some (.error (.invalidPath p), versions) := by
  change (Session.run disk client s
    ((ClientEditor.read p >>= fun _ => pure ()).run.run versions)).value = _
  rw [bind_run, read_run_of_none address]
  rfl

/-- How a call ends that reads a document. -/
theorem value_outcome_read (address : Uri.ofFilePath? p = some u) :
    (outcome ⟨disk, client, s, .read p⟩ versions).value =
      some (match s.document? u with
        | some d => (.ok (), versions.insert u.text d.version)
        | none =>
          match disk.read p with
          | .ok _ => (.ok (), versions)
          | .error reason => (.error (.readFailed p reason.message), versions)) := by
  change (Session.run disk client s
    ((ClientEditor.read p >>= fun _ => pure ()).run.run versions)).value = _
  rw [bind_run, read_run address]
  unfold Exchange.bind
  rw [Session.run_document]
  cases s.document? u with
  | some d => rfl
  | none =>
    dsimp only
    unfold Exchange.bind
    rw [Session.run_readFile]
    cases disk.read p <;> rfl

/-- The calls for a path with the URI that do not fail are those that have a source. -/
theorem succeeds_iff (address : Uri.ofFilePath? p = some u) :
    (∃ after, (outcome ⟨disk, client, s, .read p⟩ versions).value = some (.ok (), after)) ↔
      ∃ source, reading? u ⟨disk, client, s, .read p⟩ = some source := by
  rw [value_outcome_read versions address]
  unfold reading?
  dsimp only
  rw [if_pos address]
  cases s.document? u with
  | some d => simp
  | none => cases disk.read p <;> simp [Except.toOption]

theorem reading?_of_other (other : ∀ p, a.call ≠ .read p) : a.reading? u = none := by
  unfold reading?
  split
  · next p call => exact absurd call (other p)
  · rfl

theorem versionsAfter_of_other (other : ∀ p, a.call ≠ .read p) :
    a.versionsAfter versions = versions := by
  unfold versionsAfter
  cases value : (a.outcome versions).value with
  | none => rfl
  | some ending => exact Session.of_value_of_ends (ends_perform versions other) value

theorem get?_versionsAfter_read (address : Uri.ofFilePath? q = some u) :
    (versionsAfter ⟨disk, client, s, .read p⟩ versions).get? u.text =
      ((reading? u ⟨disk, client, s, .read p⟩).bind Source.version?).or (versions.get? u.text) := by
  unfold versionsAfter reading?
  dsimp only
  cases here : Uri.ofFilePath? p with
  | none =>
    rw [value_outcome_read_of_none versions here, if_neg (Option.some_ne_none u).symm]
    rfl
  | some v =>
    rw [value_outcome_read versions here]
    by_cases same : v = u
    · subst same
      rw [if_pos rfl]
      cases s.document? v with
      | some d =>
        change (versions.insert v.text d.version).get? v.text = _
        rw [Table.get?_insert, if_pos rfl]
        rfl
      | none => cases disk.read p <;> rfl
    · -- A copy of another document is stored under another text.
      have differ : v.text ≠ u.text := mt (Uri.text_eq_iff_of_ofFilePath? here address).mp same
      rw [if_neg (mt Option.some.inj same)]
      cases s.document? v with
      | some d =>
        change (versions.insert v.text d.version).get? u.text = _
        rw [Table.get?_insert, if_neg differ]
        rfl
      | none => cases disk.read p <;> rfl

/-- A call that reads the document from a copy leaves its version, and any other call leaves what is
there. -/
theorem get?_versionsAfter (a : Use) (address : Uri.ofFilePath? q = some u) :
    (a.versionsAfter versions).get? u.text =
      ((a.reading? u).bind Source.version?).or (versions.get? u.text) := by
  by_cases reads : ∃ p, a.call = .read p
  · obtain ⟨disk, client, s, call⟩ := a
    obtain ⟨p, rfl⟩ := reads
    exact get?_versionsAfter_read versions address
  · have other := not_exists.mp reads
    rw [versionsAfter_of_other versions other, reading?_of_other other]
    rfl

end Use

/-! ### What an editor remembers -/

/-- What an editor remembers after some calls, one after the other. -/
def versionsAfter (uses : List Use) : ReadVersions :=
  uses.foldl (fun versions a => a.versionsAfter versions) .empty

/-- Where the calls have read the document from, one after the other. -/
def readings (u : Uri) (uses : List Use) : List Source := uses.filterMap (Use.reading? u)

/-- The version of the latest copy among the sources. -/
def latestCopy? (sources : List Source) : Option Int := (sources.filterMap Source.version?).getLast?

section Runs

variable {p : Path} {u : Uri} {sources : List Source}

theorem latestCopy?_append_singleton (sources : List Source) (source : Source) :
    latestCopy? (sources ++ [source]) = source.version?.or (latestCopy? sources) := by
  unfold latestCopy?
  cases source with
  | copy v =>
    rw [List.filterMap_append]
    exact List.getLast?_concat
  | file =>
    rw [List.filterMap_append]
    exact congrArg List.getLast? (List.append_nil _)

theorem latestCopy?_eq_none_iff : latestCopy? sources = none ↔ ∀ v, .copy v ∉ sources := by
  unfold latestCopy?
  rw [List.getLast?_eq_none_iff, List.filterMap_eq_nil_iff]
  constructor
  · exact fun unversioned v mem => Option.some_ne_none v (unversioned _ mem)
  · intro files source mem
    cases source with
    | copy v => exact absurd mem (files v)
    | file => rfl

/-- The latest copy has the version of the latest source, unless that is the file and a copy comes
before it. -/
theorem latestCopy?_eq_iff :
    latestCopy? sources = sources.getLast?.bind Source.version? ↔
      ¬ (sources.getLast? = some .file ∧ ∃ v, .copy v ∈ sources) := by
  induction sources using List.reverseRecOn with
  | nil => simp [latestCopy?]
  | append_singleton before source =>
    rw [latestCopy?_append_singleton, List.getLast?_concat]
    cases source with
    | copy v => simp [Source.version?]
    | file => simp [Source.version?, latestCopy?_eq_none_iff]

theorem get?_versionsAfter (address : Uri.ofFilePath? p = some u) (uses : List Use) :
    (versionsAfter uses).get? u.text = latestCopy? (readings u uses) := by
  induction uses using List.reverseRecOn with
  | nil => rfl
  | append_singleton uses a ih =>
    unfold versionsAfter readings at ih ⊢
    rw [List.foldl_append, List.filterMap_append]
    change (a.versionsAfter _).get? u.text = _
    rw [a.get?_versionsAfter _ address, ih]
    cases reads : a.reading? u with
    | none => simp [reads]
    | some source => simp [reads, latestCopy?_append_singleton]

/-- The edit of a document carries the version under which the document was read last from a copy,
by any of the calls before. That is the version of the last reading of all, unless that one was of
the file and came behind one of a copy. A path without a URI and a client that is not reached get no
edit. -/
theorem insert_sends_latest_copy (uses : List Use) (disk : Disk) (client : Client) (s : Server)
    (p : Path) (place : Position) (t : Text) :
    requests (Use.outcome ⟨disk, client, s, .insert p place t⟩ (versionsAfter uses)).events =
        (match Uri.ofFilePath? p with
        | none => []
        | some u =>
          if client.connected then
            [.applyEdit ⟨u, latestCopy? (readings u uses), place, t⟩]
          else []) ∧
      ∀ u, latestCopy? (readings u uses) = (readings u uses).getLast?.bind Source.version? ↔
        ¬ ((readings u uses).getLast? = some .file ∧ ∃ v, .copy v ∈ readings u uses) := by
  refine ⟨?_, fun u => latestCopy?_eq_iff⟩
  change requests (Session.run disk client s
    ((ClientEditor.insert p place t).run.run (versionsAfter uses))).events = _
  cases address : Uri.ofFilePath? p with
  | none =>
    unfold ClientEditor.insert
    rw [uriOf_bind_run_of_none address]
    rfl
  | some u =>
    rw [insert_run address, get?_versionsAfter address]
    refine Session.requests_run_last s _ fun s reply => ?_
    cases editFailure? p reply <;> rfl

/-- A document is read from a copy under version 7, closed, and read again from the file. The edit
carries version 7 still. -/
theorem insert_with_version_of_closed_copy :
    let disk : Disk := ⟨[(["w".toList], .directory),
      (["w".toList, ".eslintrc.yaml".toList], .file ("rules:\n".toUTF8.data.toList))]⟩
    let client : Client := { answer := fun _ => ⟨[], .result .null⟩ }
    let path : Path := ⟨"/w/.eslintrc.yaml".toList⟩
    let u : Uri := ⟨"file".toList, some ⟨[], [], none⟩, "/w/.eslintrc.yaml".toList, none, none⟩
    let tracked : Server := ({} : Server).openDocument ⟨u, 7, "root: true\nrules:\n".toList⟩
    let closed : Server := tracked.closeDocument u
    let uses : List Use := [⟨disk, client, tracked, .read path⟩, ⟨disk, client, closed, .read path⟩]
    Uri.ofFilePath? path = some u ∧ readings u uses = [.copy 7, .file] ∧
      requests (Use.outcome ⟨disk, client, closed, .insert path ⟨1, 0⟩ "    semi: off\n".toList⟩
        (versionsAfter uses)).events =
          [.applyEdit ⟨u, some 7, ⟨1, 0⟩, "    semi: off\n".toList⟩] := by
  decide

end Runs

end ClientEditor

end RuleOff
