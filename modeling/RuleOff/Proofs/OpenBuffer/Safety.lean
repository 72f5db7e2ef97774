import RuleOff.Proofs.OpenBuffer.Interleaving

/-!
# Edits of an open buffer are safe

An edit that a disable command has planned from an old copy of an open buffer is never made. The
versions of the buffer only grow, so a copy of the buffer's version is a copy of the buffer; and the
version of an edit is that of the copy it was planned from, because a command reads both at once.

## Main definitions

* `OpenBuffer.Guarded`: conversations that ask only for edits planned from what they have read.
* `OpenBuffer.Invariant`: what holds at every moment.

## Main statements

* `OpenBuffer.guarded_locating`: the disable command is guarded.
* `OpenBuffer.edits_apply_to_planned_text`: the buffer comes of changes and of insertions that were
  planned from it.
-/

namespace RuleOff.OpenBuffer

open Script

section Guards

/-- The edit was planned from what the command has read, and the command fails if it is refused. -/
structure Asked (rule : Text) (read : Option Document) (e : DocumentEdit)
    (next : Reply → Exchange Ending) : Prop where
  planned : ∃ d, read = some d ∧ Planned rule d e
  rejected : ∀ v r, ApplyEditResult.decode v = .ok r → r.applied = false →
    ∃ path versions, next (.result v) = .done (.error (.editRejected path r.failureReason), versions)

/-- Whatever the conversation learns, the edits of the document that it asks for are planned from
the copy of the document that it has read last. -/
def Guarded (u : Uri) (rule : Text) : Option Document → Exchange Ending → Prop
  | _, .done _ => True
  | read, .log _ next => Guarded u rule read next
  | read, .notify _ next => Guarded u rule read next
  | read, .isFile _ next => ∀ found, Guarded u rule read (next found)
  | read, .readFile _ next => ∀ contents, Guarded u rule read (next contents)
  | read, .document v next =>
    if v.text = u.text then ∀ d, Guarded u rule (some d) (next (some d))
    else ∀ copy, Guarded u rule read (next copy)
  | read, .ask q next =>
    (∀ e, q = .applyEdit e → e.uri.text = u.text → Asked rule read e next) ∧
      ∀ reply, Guarded u rule read (next reply)

variable {u v : Uri} {rule : Text} {read : Option Document} {path : Path}
  {versions : ClientEditor.ReadVersions}

theorem guarded_noting {r : Option LogRecord} {x : Exchange Ending}
    (h : Guarded u rule read x) : Guarded u rule read (noting r x) := by
  cases r with
  | none => exact h
  | some r => exact h

theorem guarded_revealing (i : Config.Insertion) :
    Guarded u rule read (revealing path v rule versions i) := by
  refine ⟨fun e he => ClientRequest.noConfusion he, fun reply => ?_⟩
  exact guarded_noting trivial

theorem guarded_pointing : Guarded u rule read (pointing path v versions) := by
  refine ⟨fun e he => ClientRequest.noConfusion he, fun reply => ?_⟩
  exact guarded_noting trivial

theorem guarded_inserting {i : Config.Insertion}
    (planned : v.text = u.text →
      ∃ d, read = some d ∧ Planned rule d ⟨v, versions.get? v.text, i.position, i.text⟩) :
    Guarded u rule read (inserting path v rule versions i) := by
  refine ⟨fun e he same => ?_, fun reply => ?_⟩
  · cases he
    refine ⟨planned same, fun w r decoded no => ⟨path, versions, ?_⟩⟩
    simp only [editFailure?, decoded, no]
    rfl
  · dsimp only
    cases editFailure? path reply with
    | some e => trivial
    | none => exact guarded_revealing i

/-- The text and the version of an edit come from the same copy. -/
theorem guarded_planning {fallback : Settings} {t : Text}
    (address : Uri.ofFilePath? path = some v)
    (known : v.text = u.text →
      ∃ d, read = some d ∧ versions.get? v.text = some d.version ∧ d.text = t) :
    Guarded u rule read (planning fallback path v rule versions t) := by
  refine ⟨fun e he => ClientRequest.noConfusion he, fun reply => guarded_noting ?_⟩
  cases plan : Config.plan t (.ofPath path) rule (reported fallback reply).1.indentUnit with
  | none => exact guarded_pointing
  | some i =>
    refine guarded_inserting fun same => ?_
    obtain ⟨d, hd, version, text⟩ := known same
    refine ⟨d, hd, version, path, (reported fallback reply).1, i.cursor, address, ?_⟩
    rw [text]
    exact plan

theorem guarded_opening {fallback : Settings} (address : Uri.ofFilePath? path = some v) :
    Guarded u rule read (opening fallback path v rule) := by
  unfold opening Guarded
  by_cases same : v.text = u.text
  · -- The text and the version that the command goes on with are those of one copy.
    rw [if_pos same]
    intro d
    refine guarded_planning address fun _ => ⟨d, rfl, ?_, rfl⟩
    rw [Table.get?_insert, if_pos rfl]
  · rw [if_neg same]
    intro copy
    cases copy with
    | some d => exact guarded_planning address fun h => absurd h same
    | none =>
      intro contents
      cases contents with
      | ok t => exact guarded_planning address fun h => absurd h same
      | error reason => trivial

theorem guarded_addressing {fallback : Settings} :
    Guarded u rule read (addressing fallback path rule) := by
  unfold addressing
  cases address : Uri.ofFilePath? path with
  | some v => exact guarded_opening address
  | none => trivial

theorem guarded_locating (fallback : Settings) (root : Path) (paths : List Path) :
    Guarded u rule read (locating fallback root rule paths) := by
  induction paths with
  | nil => trivial
  | cons path paths ih =>
    intro found
    cases found with
    | true => exact guarded_addressing
    | false => exact ih

end Guards

section Buffers

variable {initial d : Document} {cs : List Change}

/-- All states of the buffer so far. -/
def snapshots (initial : Document) (cs : List Change) : List Document :=
  cs.map Change.after ++ [initial]

theorem snapshots_cons (c : Change) :
    snapshots initial (c :: cs) = c.after :: snapshots initial cs := rfl

theorem Replays.mem (h : Replays initial cs d) : d ∈ snapshots initial cs := by
  cases h <;> simp [snapshots, Change.after]

theorem Replays.version_le (h : Replays initial cs d) :
    ∀ d' ∈ snapshots initial cs, d'.version ≤ d.version := by
  induction h with
  | initial =>
    intro d' mem
    exact Int.le_of_eq (congrArg Document.version (List.mem_singleton.mp mem))
  | typed before newer ih =>
    intro d' mem
    rcases List.mem_cons.mp mem with rfl | mem
    · exact Int.le_refl _
    · exact Int.le_of_lt (Int.lt_of_le_of_lt (ih d' mem) newer)
  | inserted before newer planned spliced ih =>
    intro d' mem
    rcases List.mem_cons.mp mem with rfl | mem
    · exact Int.le_refl _
    · exact Int.le_of_lt (Int.lt_of_le_of_lt (ih d' mem) newer)

/-- A state of the buffer that has the version of the buffer is the buffer. -/
theorem Replays.eq_of_version_eq (h : Replays initial cs d) {d' : Document}
    (mem : d' ∈ snapshots initial cs) (same : d'.version = d.version) : d' = d := by
  cases h with
  | initial => exact List.mem_singleton.mp mem
  | typed before newer =>
    rcases List.mem_cons.mp mem with rfl | mem
    · rfl
    · have := before.version_le d' mem
      omega
  | inserted before newer planned spliced =>
    rcases List.mem_cons.mp mem with rfl | mem
    · rfl
    · have := before.version_le d' mem
      omega

theorem Replays.plannedVersions_lt (h : Replays initial cs d) :
    ∀ v ∈ plannedVersions cs, v < d.version := by
  induction h with
  | initial => exact fun v mem => absurd mem List.not_mem_nil
  | typed before newer ih => exact fun v mem => Int.lt_trans (ih v mem) newer
  | inserted before newer planned spliced ih =>
    intro v mem
    rcases List.mem_cons.mp mem with rfl | mem
    · exact newer
    · exact Int.lt_trans (ih v mem) newer

/-- No two insertions were planned from one version. -/
theorem Replays.nodup (h : Replays initial cs d) : (plannedVersions cs).Nodup := by
  induction h with
  | initial => exact List.nodup_nil
  | typed before newer ih => exact ih
  | inserted before newer planned spliced ih =>
    refine List.nodup_cons.mpr ⟨fun mem => ?_, ih⟩
    exact Int.lt_irrefl _ (before.plannedVersions_lt _ mem)

end Buffers

variable {u : Uri}

/-- An announcement gives the server the announced copy, unless it is not listening. -/
theorem document?_hear (s : Server) (a : Announcement u) :
    (s.hear a.message).1.document? u = s.document? u ∨
      (s.hear a.message).1.document? u = some a.copy := by
  obtain ⟨p, decoded, uri, version, text⟩ := a.params
  have named : s.document? p.uri = s.document? u := congrArg s.documents.get? uri
  have changed : (s.changeDocument p).document? u = s.document? u ∨
      (s.changeDocument p).document? u = some a.copy := by
    unfold Server.changeDocument
    rw [named, text]
    cases tracked : s.document? u with
    | none => exact .inl tracked
    | some d =>
      refine .inr ?_
      change (s.documents.insert p.uri.text ⟨a.copy.text, p.version⟩).get? u.text = _
      rw [Table.get?_insert, if_pos uri, version]
  unfold Server.hear
  rw [if_neg (by rw [a.method]; exact Method.noConfusion)]
  by_cases running : s.phase = .running
  · rw [if_pos running]
    unfold Server.hearRunning
    simp only [a.method, decoded]
    exact changed
  · rw [if_neg running]
    exact .inl rfl

/-- What holds of a command: it has read some state of the buffer, what is left of it is guarded,
and it fails if its edit was refused. -/
structure Command.Sound (u : Uri) (seen : List Document) (c : Command) : Prop where
  read : ∀ d, c.read = some d → d ∈ seen
  guarded : Guarded u c.rule c.read c.script
  rejected : c.refused = true → c.Rejected

namespace Command

variable {seen : List Document} {c c' : Command}

theorem sound_start (fallback : Settings) (root : Path) (rule : Text) :
    (start fallback root rule).Sound u seen where
  read := nofun
  guarded := by
    unfold start
    rw [disable_run]
    exact guarded_locating fallback root _
  rejected := fun h => Bool.noConfusion h

theorem Sound.mono (h : c.Sound u seen) {more : List Document} (sub : seen ⊆ more) :
    c.Sound u more :=
  ⟨fun d hd => sub (h.read d hd), h.guarded, h.rejected⟩

/-- A command that waits for the client has not been refused anything. -/
theorem Sound.not_refused (h : c.Sound u seen) {q : ClientRequest}
    {next : Reply → Exchange Ending} (asks : c.Asks q next) : c.refused = false := by
  cases refused : c.refused with
  | false => rfl
  | true =>
    obtain ⟨path, reason, versions, ended⟩ := h.rejected refused
    unfold remaining at ended
    rw [asks.now, asks.unanswered] at ended
    cases ended

/-- A move leaves what remains of a refused command as it is. -/
theorem Rejected.of_move {s : Server} (h : c.Rejected) (moved : c.Move u s c') :
    c'.Rejected := by
  obtain ⟨path, reason, versions, ended⟩ := h
  refine ⟨path, reason, versions, ?_⟩
  unfold remaining at ended
  cases moved with
  | resume now replied =>
    -- The command gets the reply that it had not got yet, and that was all that was left.
    rw [now, replied] at ended
    unfold remaining
    dsimp only at ended ⊢
    rw [ended]
  | log now | notify now | isFile now | readFile now | document now =>
    rw [now] at ended
    cases ended

/-- A move of a sound command is sound if the server's copy is a state of the buffer. -/
theorem Sound.move {s : Server} (h : c.Sound u seen) {copy : Document}
    (tracked : s.document? u = some copy) (known : copy ∈ seen) (moved : c.Move u s c') :
    c'.Sound u seen := by
  have guarded := h.guarded
  have rejected : c'.refused = true → c'.Rejected := by
    intro refused
    refine Rejected.of_move (h.rejected ?_) moved
    cases moved <;> exact refused
  cases moved with
  | log now =>
    rw [now] at guarded
    exact ⟨h.read, guarded, rejected⟩
  | notify now =>
    rw [now] at guarded
    exact ⟨h.read, guarded, rejected⟩
  | isFile now found =>
    rw [now] at guarded
    exact ⟨h.read, guarded found, rejected⟩
  | readFile now contents =>
    rw [now] at guarded
    exact ⟨h.read, guarded contents, rejected⟩
  | resume now replied =>
    rw [now] at guarded
    exact ⟨h.read, guarded.2 _, rejected⟩
  | @document v next now =>
    rw [now] at guarded
    unfold Guarded at guarded
    by_cases same : v.text = u.text
    · have found : s.document? v = some copy := by
        rw [← tracked]
        exact congrArg s.documents.get? same
      rw [if_pos same] at guarded
      refine ⟨?_, ?_, rejected⟩
      · dsimp only
        rw [if_pos same, found]
        intro d hd
        rw [← Option.some.inj hd]
        exact known
      · dsimp only
        rw [if_pos same, found]
        exact guarded copy
    · rw [if_neg same] at guarded
      refine ⟨?_, ?_, rejected⟩
      · dsimp only
        rw [if_neg same]
        exact h.read
      · dsimp only
        rw [if_neg same]
        exact guarded _

theorem Sound.reply (h : c.Sound u seen) {q : ClientRequest} {next : Reply → Exchange Ending}
    (asks : c.Asks q next) (reply : Reply) :
    ({ c with reply := some reply } : Command).Sound u seen := by
  refine ⟨h.read, h.guarded, fun refused => ?_⟩
  rw [h.not_refused asks] at refused
  exact Bool.noConfusion refused

end Command

/-- What holds at every moment: the server's copy, the copies that are announced to it and those
that the commands have read are states of the buffer. -/
structure Invariant (initial : Document) (σ : State u) : Prop where
  replays : Replays initial σ.changes σ.buffer
  tracked : ∃ copy, σ.server.document? u = some copy ∧ copy ∈ snapshots initial σ.changes
  pending : ∀ a ∈ σ.pending, a.copy ∈ snapshots initial σ.changes
  commands : ∀ c ∈ σ.commands, c.Sound u (snapshots initial σ.changes)

namespace Invariant

variable {initial : Document} {σ τ : State u} {k : Nat} {c c' : Command}

theorem of_initial (h : σ.Initial) : Invariant σ.buffer σ where
  replays := by
    rw [h.changes]
    exact .initial
  tracked := ⟨σ.buffer, h.tracked, by rw [h.changes]; exact List.mem_singleton.mpr rfl⟩
  pending := by
    rw [h.pending]
    exact fun a mem => absurd mem List.not_mem_nil
  commands := by
    rw [h.commands]
    exact fun c mem => absurd mem List.not_mem_nil

theorem sound (h : Invariant initial σ) (command : σ.commands[k]? = some c) :
    c.Sound u (snapshots initial σ.changes) :=
  h.commands c (List.mem_of_getElem? command)

theorem commands_set (h : Invariant initial σ)
    (sound : c'.Sound u (snapshots initial σ.changes)) :
    ∀ c ∈ σ.commands.set k c', c.Sound u (snapshots initial σ.changes) := by
  intro c mem
  rcases List.mem_or_eq_of_mem_set mem with mem | rfl
  · exact h.commands c mem
  · exact sound

/-- A change of the buffer that is announced keeps the invariant, whatever was known before. -/
theorem change (h : Invariant initial σ) (a : Announcement u) {change : Change}
    (after : change.after = a.copy) (replays : Replays initial (change :: σ.changes) a.copy)
    {commands : List Command}
    (sound : ∀ c ∈ commands, c.Sound u (snapshots initial σ.changes)) :
    Invariant initial { σ with
      buffer := a.copy
      pending := σ.pending ++ [a]
      commands := commands
      changes := change :: σ.changes } := by
  have grows : snapshots initial σ.changes ⊆ snapshots initial (change :: σ.changes) := by
    rw [snapshots_cons]
    exact List.subset_cons_self _ _
  obtain ⟨copy, tracked, known⟩ := h.tracked
  refine ⟨replays, ⟨copy, tracked, grows known⟩, ?_, fun c mem => (sound c mem).mono grows⟩
  intro b mem
  rcases List.mem_append.mp mem with mem | mem
  · exact grows (h.pending b mem)
  · rw [List.mem_singleton.mp mem, snapshots_cons, after]
    exact List.mem_cons_self

theorem planned_of_accept (h : Invariant initial σ) {e : DocumentEdit}
    {next : Reply → Exchange Ending} (command : σ.commands[k]? = some c)
    (asks : c.Asks (.applyEdit e) next) (same : e.uri.text = u.text)
    (current : ∀ v, e.version = some v → v = σ.buffer.version) :
    c.read = some σ.buffer ∧ Planned c.rule σ.buffer e := by
  have guarded := (h.sound command).guarded
  rw [asks.now] at guarded
  obtain ⟨d, read, planned⟩ := (guarded.1 e rfl same).planned
  -- The client has compared the version of the copy that was read with that of the buffer.
  have fresh : d = σ.buffer :=
    h.replays.eq_of_version_eq ((h.sound command).read d read) (current _ planned.version)
  rw [← fresh]
  exact ⟨read, planned⟩

theorem sound_of_refuse (h : Invariant initial σ) {e : DocumentEdit}
    {next : Reply → Exchange Ending} {v : Json} {r : ApplyEditResult}
    (command : σ.commands[k]? = some c) (asks : c.Asks (.applyEdit e) next)
    (same : e.uri.text = u.text) (decoded : ApplyEditResult.decode v = .ok r)
    (no : r.applied = false) :
    ({ c with reply := some (.result v), refused := true } : Command).Sound u
      (snapshots initial σ.changes) := by
  have sound := h.sound command
  have guarded := sound.guarded
  rw [asks.now] at guarded
  obtain ⟨path, versions, ended⟩ := (guarded.1 e rfl same).rejected v r decoded no
  refine ⟨sound.read, sound.guarded, fun _ => ⟨path, r.failureReason, versions, ?_⟩⟩
  unfold Command.remaining
  dsimp only
  rw [asks.now]
  exact ended

/-- Nothing that happens breaks the invariant. -/
theorem step (h : Invariant initial σ) (step : Step σ τ) : Invariant initial τ := by
  obtain ⟨copy, tracked, known⟩ := h.tracked
  cases step with
  | type a newer => exact h.change a rfl (.typed h.replays newer) h.commands
  | @deliver a rest oldest =>
    -- The server's copy becomes an earlier state of the buffer, and may still be an old one.
    have announced := h.pending
    rw [oldest] at announced
    refine ⟨h.replays, ?_, fun b mem => announced b (List.mem_cons_of_mem _ mem), h.commands⟩
    rcases document?_hear σ.server a with kept | got
    · exact ⟨copy, kept.trans tracked, known⟩
    · exact ⟨a.copy, got, announced a List.mem_cons_self⟩
  | elsewhere s kept =>
    exact ⟨h.replays, ⟨copy, kept.trans tracked, known⟩, h.pending, h.commands⟩
  | @start root folder rule =>
    refine ⟨h.replays, h.tracked, h.pending, fun c mem => ?_⟩
    rcases List.mem_append.mp mem with mem | mem
    · exact h.commands c mem
    · rw [List.mem_singleton.mp mem]
      exact Command.sound_start σ.server.settings root rule
  | move command moved =>
    exact ⟨h.replays, h.tracked, h.pending,
      h.commands_set ((h.sound command).move tracked known moved)⟩
  | answer command asks other reply =>
    exact ⟨h.replays, h.tracked, h.pending,
      h.commands_set ((h.sound command).reply asks reply)⟩
  | @accept k c e next reply a command asks same current newer spliced yes =>
    obtain ⟨read, planned⟩ := h.planned_of_accept command asks same current
    have replays : Replays initial (.inserted c.rule c.read e a.copy :: σ.changes) a.copy := by
      rw [read]
      exact .inserted h.replays newer planned spliced
    exact h.change a rfl replays (h.commands_set ((h.sound command).reply asks reply))
  | refuse command asks same stale decoded no =>
    exact ⟨h.replays, h.tracked, h.pending,
      h.commands_set (h.sound_of_refuse command asks same decoded no)⟩

/-- The invariant holds at every moment of a run. -/
theorem run (h : Invariant initial σ) (run : Relation.ReflTransGen Step σ τ) :
    Invariant initial τ := by
  induction run with
  | refl => exact h
  | tail _ step ih => exact ih.step step

end Invariant

section Progress

variable {σ : State u} {cs : List Command} {c c' : Command}

theorem move_last (moved : c.Move u σ.server c') :
    Step { σ with commands := cs ++ [c] } { σ with commands := cs ++ [c'] } := by
  have command : (cs ++ [c])[cs.length]? = some c := List.getElem?_concat_length
  have step : Step { σ with commands := cs ++ [c] }
      { σ with commands := (cs ++ [c]).set cs.length c' } := .move command moved
  rwa [List.set_append_right _ _ (Nat.le_refl _), Nat.sub_self] at step

theorem answer_last {q : ClientRequest} {next : Reply → Exchange Ending} (asks : c.Asks q next)
    (other : ∀ e, q = .applyEdit e → e.uri.text ≠ u.text) (reply : Reply) :
    Step { σ with commands := cs ++ [c] }
      { σ with commands := cs ++ [{ c with reply := some reply }] } := by
  have command : (cs ++ [c])[cs.length]? = some c := List.getElem?_concat_length
  have step : Step { σ with commands := cs ++ [c] }
      { σ with commands := (cs ++ [c]).set cs.length { c with reply := some reply } } :=
    .answer command asks other reply
  rwa [List.set_append_right _ _ (Nat.le_refl _), Nat.sub_self] at step

/-- A command that asks for the insertion `i` into the copy `d` of a document. -/
def Command.asking (path : Path) (v : Uri) (rule : Text) (d : Document) (i : Config.Insertion) :
    Command :=
  { rule := rule
    script := inserting path v rule (Table.empty.insert v.text d.version) i
    read := some d }

/-- A command that is started on the open document comes to ask for its edit. -/
theorem reaches_asking (path : Path) (v : Uri) (rule : Text) (d : Document)
    (i : Config.Insertion) {root : Path} {rest : List Path} (folder : σ.server.folders.head? = some root)
    (first : Config.candidates.map root.join = path :: rest)
    (address : Uri.ofFilePath? path = some v) (same : v.text = u.text)
    (tracked : σ.server.document? u = some d)
    (plan : Config.plan d.text (.ofPath path) rule σ.server.settings.indentUnit = some i) :
    Relation.ReflTransGen Step σ
      { σ with commands := σ.commands ++ [.asking path v rule d i] } := by
  have started : (Command.start σ.server.settings root rule).script =
      locating σ.server.settings root rule (path :: rest) := by
    unfold Command.start
    rw [disable_run, first]
  have addressed : addressing σ.server.settings path rule = opening σ.server.settings path v rule := by
    unfold addressing
    rw [address]
  have found : σ.server.document? v = some d := by
    rw [← tracked]
    exact congrArg σ.server.documents.get? same
  have opened : (if v.text = u.text then σ.server.document? v else none) = some d := by
    rw [if_pos same, found]
  refine .head (.start folder rule) (.head (move_last (.isFile started true)) ?_)
  rw [if_pos rfl, addressed]
  refine .head (move_last (.document rfl)) ?_
  dsimp only
  simp only [Command.start]
  rw [opened, found]
  refine .head (answer_last ⟨rfl, rfl⟩ (fun e he => ClientRequest.noConfusion he)
    (.failure .notInitialized)) (.head (move_last (.resume rfl rfl)) ?_)
  dsimp only [reported, noting]
  rw [plan]
  exact .refl

end Progress

/-- However the changes of the client, the announcements and the commands are interleaved, the
buffer comes of the initial one by the client's changes and by insertions, each of them planned
from the buffer that it was made in. No two of the insertions were planned from the same version,
and a command whose edit is refused fails because of that. -/
theorem edits_apply_to_planned_text {σ₀ σ : State u} (initial : σ₀.Initial)
    (run : Relation.ReflTransGen Step σ₀ σ) :
    Replays σ₀.buffer σ.changes σ.buffer ∧ (plannedVersions σ.changes).Nodup ∧
      ∀ c ∈ σ.commands, c.refused = true → c.Rejected := by
  have kept := (Invariant.of_initial initial).run run
  exact ⟨kept.replays, kept.replays.nodup, fun c mem => (kept.commands c mem).rejected⟩

/-- Two commands have read the same copy. The edit of one is made, and that of the other is
refused. -/
theorem edits_apply_to_planned_text_of_two_commands :
    let u : Uri := ⟨"file".toList, some ⟨[], [], none⟩, "/w/.eslintrc.yaml".toList, none, none⟩
    let σ₀ : State u :=
      { server :=
          { phase := .running, folders := [⟨"/w".toList⟩]
            documents := Table.empty.insert u.text ⟨"rules:".toList, 1⟩ }
        buffer := ⟨"rules:".toList, 1⟩ }
    ∃ σ : State u, plannedVersions σ.changes = [1] ∧
      (∃ c ∈ σ.commands, c.refused = true) ∧ Relation.ReflTransGen Step σ₀ σ ∧
      Replays σ₀.buffer σ.changes σ.buffer ∧ (plannedVersions σ.changes).Nodup ∧
        ∀ c ∈ σ.commands, c.refused = true → c.Rejected := by
  intro u σ₀
  let path : Path := ⟨"/w/.eslintrc.yaml".toList⟩
  let i : Config.Insertion := ⟨⟨0, 6⟩, "\n    semi: off\n".toList, ⟨1, 0⟩⟩
  let j : Config.Insertion := ⟨⟨0, 6⟩, "\n    eqeqeq: off\n".toList, ⟨1, 0⟩⟩
  let after : Document := ⟨"rules:\n    semi: off\n".toList, 2⟩
  let a : Announcement u :=
    { message := ⟨"textDocument/didChange".toList, some (.obj
        [("textDocument".toList, .obj [("uri".toList, .str u.text), ("version".toList, .int 2)]),
          ("contentChanges".toList, .arr [.obj [("text".toList, .str after.text)]])])⟩
      copy := after
      method := by decide
      params := ⟨⟨u, 2, [after.text]⟩, by decide, rfl, rfl, rfl⟩ }
  have first : Relation.ReflTransGen Step σ₀ _ :=
    reaches_asking path u "semi".toList σ₀.buffer i rfl rfl (by decide) rfl (by decide)
      (by decide)
  have second : Relation.ReflTransGen Step σ₀ _ :=
    first.trans (reaches_asking path u "eqeqeq".toList σ₀.buffer j rfl rfl (by decide) rfl
      (by decide) (by decide))
  have yes : accepts (.result (.obj [("applied".toList, .bool true)])) = true := by decide
  have third : Relation.ReflTransGen Step σ₀ _ :=
    second.tail (.accept (k := 0) (a := a) rfl ⟨rfl, rfl⟩ rfl (by decide) (by decide) (by decide)
      yes)
  have fourth : Relation.ReflTransGen Step σ₀ _ :=
    third.tail (.refuse (k := 1) (v := .obj [("applied".toList, .bool false)]) rfl
      ⟨rfl, rfl⟩ rfl (by decide) rfl rfl)
  refine ⟨_, by decide, ⟨_, List.mem_of_getElem? (i := 1) rfl, rfl⟩, fourth, ?_⟩
  exact edits_apply_to_planned_text ⟨by decide, rfl, rfl, rfl⟩ fourth

end RuleOff.OpenBuffer
