import Mathlib.Data.List.Induction
import RuleOff.Proofs.Session.Working

/-!
# The copies of open documents

What a server at work has for a document depends on the notifications about that document alone.
There is a copy if the latest of those that open or close it opens it, and the copy is the latest
text given since, together with the version that was given in the same notification.

## Main definitions

* `Word`, `Invocation.word?`: what a notification says of a document.
* `Word.Tell`: some words tell of an open document what it is.

## Main statements

* `Server.get?_hearRunning`: what a notification says of a document is what it does to the copy.
* `Session.Moment.document_tracked`: what a server at work has for a document.
-/

namespace RuleOff

/-- What a notification says of a document. -/
inductive Word where
  | opened (d : Document)
  /-- It is so from now on, if it is open. -/
  | changed (d : Document)
  | closed
deriving DecidableEq, Repr

/-- What a notification says of the document with a URI. A change without a text says nothing. -/
def Invocation.word? (key : Text) (n : Invocation) : Option Word :=
  match Method.ofName n.method with
  | .didOpen => do
    let p ← Server.readParams? OpenParams.decode n.params
    if p.uri.text = key then some (.opened ⟨p.text, p.version⟩) else none
  | .didChange => do
    let p ← Server.readParams? ChangeParams.decode n.params
    if p.uri.text = key then p.texts.getLast?.map fun t => .changed ⟨t, p.version⟩ else none
  | .didClose => do
    let u ← Server.readParams? decodeDocument n.params
    if u.text = key then some .closed else none
  | _ => none

namespace Word

/-- The document that is given. -/
def document? : Word → Option Document
  | opened d => some d
  | changed d => some d
  | closed => none

def IsChange (w : Word) : Prop := ∃ d, w = changed d

/-- The copy of a document behind a word about it. -/
def apply (copy : Option Document) : Word → Option Document
  | opened d => some d
  | changed d => copy.map fun _ => d
  | closed => none

/-- Of the words that open or close the document the latest opens it, and the document is given by
the latest change since then, or else by the opening. -/
def Tell (ws : List Word) (d : Document) : Prop :=
  ∃ before x since, ws = before ++ opened x :: since ∧ (∀ w ∈ since, w.IsChange) ∧
    d = ((since.filterMap document?).getLast?).getD x

/-- What is told comes from one of the words. -/
theorem Tell.exists_word {ws : List Word} {d : Document} (told : Tell ws d) :
    ∃ w ∈ ws, w.document? = some d := by
  obtain ⟨before, x, since, rfl, -, rfl⟩ := told
  cases latest : (since.filterMap document?).getLast? with
  | none => exact ⟨opened x, List.mem_append_right _ List.mem_cons_self, rfl⟩
  | some y =>
    obtain ⟨w, mem, given⟩ := List.mem_filterMap.mp (List.mem_of_getLast? latest)
    exact ⟨w, List.mem_append_right _ (List.mem_cons_of_mem _ mem), given⟩

/-- The latest word decides, and a change does so only for a document that is open. -/
theorem tell_append_singleton {ws : List Word} {w : Word} {d : Document} :
    Tell (ws ++ [w]) d ↔ w = opened d ∨ w = changed d ∧ ∃ x, Tell ws x := by
  constructor
  · rintro ⟨before, x, since, all, changes, rfl⟩
    obtain rfl | ⟨since, last, rfl⟩ := List.eq_nil_or_concat since
    · obtain ⟨-, same⟩ := List.append_inj' all rfl
      exact .inl (List.cons.inj same).1
    · rw [List.concat_eq_append] at all changes ⊢
      rw [← List.cons_append, ← List.append_assoc] at all
      obtain ⟨front, same⟩ := List.append_inj' all rfl
      obtain rfl := (List.cons.inj same).1
      obtain ⟨y, rfl⟩ := changes w (List.mem_append_right _ (List.mem_singleton.mpr rfl))
      refine .inr ⟨?_, _, before, x, since, front, fun w mem => ?_, rfl⟩
      · rw [List.filterMap_append]
        exact congrArg (fun y => changed (Option.getD y x)) List.getLast?_concat.symm
      · exact changes w (List.mem_append_left _ mem)
  · rintro (rfl | ⟨rfl, y, before, x, since, rfl, changes, -⟩)
    · exact ⟨ws, d, [], rfl, fun w mem => absurd mem List.not_mem_nil, rfl⟩
    · refine ⟨before, x, since ++ [changed d], by rw [List.append_assoc]; rfl, fun w mem => ?_, ?_⟩
      · rcases List.mem_append.mp mem with earlier | last
        · exact changes w earlier
        · exact ⟨d, List.mem_singleton.mp last⟩
      · rw [List.filterMap_append]
        exact congrArg (Option.getD · x) List.getLast?_concat.symm

/-- The words about a document come to what they tell of it. -/
theorem foldl_apply_eq_some_iff {ws : List Word} {d : Document} :
    ws.foldl apply none = some d ↔ Tell ws d := by
  induction ws using List.reverseRecOn generalizing d with
  | nil =>
    constructor
    · intro known
      exact nomatch known
    · rintro ⟨before, x, since, all, -, -⟩
      exact absurd all (by simp)
  | append_singleton ws w ih =>
    rw [List.foldl_append, tell_append_singleton]
    simp only [← ih]
    cases w with
    | opened x => simp [apply]
    | changed x => simp [apply, Option.map_eq_some_iff, and_comm]
    | closed => simp [apply]

end Word

/-- A document that a notification gives is announced by it. -/
theorem Invocation.announces_of_word {n : Invocation} {key : Text} {w : Word} {d : Document}
    (word : n.word? key = some w) (given : w.document? = some d) : Announces key d n := by
  unfold word? at word
  split at word
  case h_1 method =>
    obtain ⟨p, params, rest⟩ := Option.bind_eq_some_iff.mp word
    split at rest
    · next uri =>
      obtain rfl := Option.some.inj rest
      exact .opened method params uri (Option.some.inj given).symm
    · exact nomatch rest
  case h_2 method =>
    obtain ⟨p, params, rest⟩ := Option.bind_eq_some_iff.mp word
    split at rest
    · next uri =>
      obtain ⟨t, text, rfl⟩ := Option.map_eq_some_iff.mp rest
      obtain rfl := Option.some.inj given
      exact .changed method params uri text rfl
    · exact nomatch rest
  case h_3 =>
    obtain ⟨u, -, rest⟩ := Option.bind_eq_some_iff.mp word
    split at rest
    · obtain rfl := Option.some.inj rest
      exact nomatch given
    · exact nomatch rest
  case h_4 => exact nomatch word

namespace Server

variable {s : Server} {key : Text}

theorem get?_openDocument (s : Server) (p : OpenParams) (key : Text) :
    (s.openDocument p).documents.get? key =
      if p.uri.text = key then some ⟨p.text, p.version⟩ else s.documents.get? key :=
  Table.get?_insert _ _ _ _

theorem get?_closeDocument (s : Server) (u : Uri) (key : Text) :
    (s.closeDocument u).documents.get? key =
      if u.text = key then none else s.documents.get? key :=
  Table.get?_erase _ _ _

/-- A change of a document that is not open has no effect. -/
theorem changeDocument_of_untracked {p : ChangeParams} (untracked : s.document? p.uri = none) :
    s.changeDocument p = s := by
  unfold changeDocument
  rw [untracked]

theorem get?_changeDocument (s : Server) (p : ChangeParams) (key : Text) :
    (s.changeDocument p).documents.get? key =
      if p.uri.text = key then
        match p.texts.getLast? with
        | some t => (s.documents.get? key).map fun _ => ⟨t, p.version⟩
        | none => s.documents.get? key
      else s.documents.get? key := by
  by_cases same : p.uri.text = key
  · subst same
    rw [if_pos rfl]
    cases tracked : s.documents.get? p.uri.text with
    | none =>
      rw [changeDocument_of_untracked tracked, tracked]
      cases p.texts.getLast? <;> rfl
    | some d =>
      have known : s.document? p.uri = some d := tracked
      unfold changeDocument
      rw [known]
      cases p.texts.getLast? with
      | none => exact tracked
      | some t =>
        exact (Table.get?_insert _ _ _ _).trans (if_pos rfl)
  · rw [if_neg same]
    unfold changeDocument
    split
    · exact (Table.get?_insert _ _ _ _).trans (if_neg same)
    · rfl

/-- What a notification says of a document is what it does to the copy of it. -/
theorem get?_hearRunning (s : Server) (n : Invocation) (key : Text) :
    (s.hearRunning n).1.documents.get? key =
      (n.word? key).elim (s.documents.get? key) (Word.apply (s.documents.get? key)) := by
  unfold hearRunning Invocation.word?
  generalize Method.ofName n.method = method
  cases method
  case didOpen =>
    cases readParams? OpenParams.decode n.params with
    | none => rfl
    | some p =>
      dsimp only
      rw [get?_openDocument]
      by_cases same : p.uri.text = key <;> simp [same, Word.apply]
  case didChange =>
    cases readParams? ChangeParams.decode n.params with
    | none => rfl
    | some p =>
      dsimp only
      rw [get?_changeDocument]
      by_cases same : p.uri.text = key
      · cases text : p.texts.getLast? <;> simp [same, text, Word.apply]
      · simp [same]
  case didClose =>
    cases readParams? decodeDocument n.params with
    | none => rfl
    | some u =>
      dsimp only
      rw [get?_closeDocument]
      by_cases same : u.text = key <;> simp [same, Word.apply]
  case didChangeConfiguration =>
    cases readParams? decodeConfiguration n.params with
    | none => rfl
    | some v => exact congrArg (Table.get? · key) (updateSettings_documents s v)
  -- The others leave the table alone.
  all_goals first | rfl | (dsimp only; split <;> rfl)

theorem get?_hear_of_silent (s : Server) {n : Invocation} (silent : n.word? key = none) :
    (s.hear n).1.documents.get? key = s.documents.get? key := by
  unfold hear
  split
  · rfl
  · split
    · rw [get?_hearRunning, silent]
      rfl
    · rfl

theorem get?_hearAll_of_silent (s : Server) {ns : List Invocation}
    (silent : ∀ n ∈ ns, n.word? key = none) :
    (s.hearAll ns).1.documents.get? key = s.documents.get? key := by
  induction ns generalizing s with
  | nil => rfl
  | cons n ns ih =>
    have rest := ih (s.hear n).1 fun m mem => silent m (List.mem_cons_of_mem n mem)
    exact rest.trans (s.get?_hear_of_silent (silent n List.mem_cons_self))

end Server

namespace Session

variable {disk : Disk} {s : Server} {p : StartParams} {heard : List Invocation}

/-- The words about a document tell what a server at work has for it. -/
theorem Moment.document?_eq_some_iff (moment : Moment p disk s heard) (u : Uri) (d : Document) :
    s.document? u = some d ↔ Word.Tell (heard.filterMap (·.word? u.text)) d := by
  have running := moment.running
  have since := moment.eq_hearAll
  rw [since] at running ⊢
  have copy := Server.hearAll_eq_foldl (fun s => s.documents.get? u.text)
    (fun s n => s.get?_hearRunning n u.text) running
  unfold Server.document?
  rw [copy, Server.start_documents]
  exact Word.foldl_apply_eq_some_iff

/-- A message touches the copies of those documents only that its notifications say something of. -/
theorem get?_receive_of_silent (disk : Disk) (client : Client) (s : Server) {m : Message}
    {key : Text} (silent : ∀ n ∈ heardWith disk client s m, n.word? key = none) :
    (receive disk client s m).1.documents.get? key = s.documents.get? key := by
  by_cases exited : s.phase = .exited
  · have stopped : receive disk client s m = (s, [], .stopped) := if_pos exited
    rw [stopped]
  · cases m with
    | notification n =>
      rw [receive_notification exited]
      exact s.get?_hear_of_silent (silent n (List.mem_singleton.mpr rfl))
    | request id r =>
      rw [receive_request_server exited, Server.get?_hearAll_of_silent _ silent, s.answer_documents]

/-- At every moment of its work, the server has a copy of a document if the latest notification
that opens or closes it opens it. The copy is given by the latest change since, or else by the
opening, both its text and its version. A change of a document that is not open has no effect, and
what is not about the document leaves its copy alone. -/
theorem Moment.document_tracked (moment : Moment p disk s heard) (u : Uri) :
    (∀ d, s.document? u = some d ↔ Word.Tell (heard.filterMap (·.word? u.text)) d) ∧
      (∀ d, s.document? u = some d → ∃ n ∈ heard, Announces u.text d n) ∧
      (∀ (n : Invocation) (q : ChangeParams), Method.ofName n.method = .didChange →
        Server.readParams? ChangeParams.decode n.params = some q →
        s.document? q.uri = none → (s.hear n).1 = s) ∧
      ∀ (client : Client) (m : Message),
        (∀ n ∈ heardWith disk client s m, n.word? u.text = none) →
        (receive disk client s m).1.document? u = s.document? u := by
  refine ⟨moment.document?_eq_some_iff u, fun d known => ?_, fun n q method params untracked => ?_,
    fun client m silent => get?_receive_of_silent disk client s silent⟩
  · have told : Word.Tell (heard.filterMap (·.word? u.text)) d :=
      (moment.document?_eq_some_iff u d).mp known
    obtain ⟨w, mem, given⟩ := told.exists_word
    obtain ⟨n, heard_n, word⟩ := List.mem_filterMap.mp mem
    exact ⟨n, heard_n, Invocation.announces_of_word word given⟩
  · have changed : (s.hear n).1 = s.changeDocument q := by
      simp [Server.hear, Server.hearRunning, method, moment.running, params]
    rw [changed]
    exact Server.changeDocument_of_untracked untracked

/-- A document that is opened and then changed twice at once. -/
theorem Moment.document_tracked_of_changed :
    let disk : Disk := ⟨[]⟩
    let client : Client := { answer := fun _ => ⟨[], .result .null⟩ }
    let uri : Json := .str "file:///a".toList
    let start : Step := .send client (.obj
      [("id".toList, .int 1), ("method".toList, .str "initialize".toList),
        ("params".toList, .obj [("capabilities".toList, .obj [])])])
    let opening : Step := .send client (.obj
      [("method".toList, .str "textDocument/didOpen".toList),
        ("params".toList, .obj [("textDocument".toList, .obj
          [("uri".toList, uri), ("languageId".toList, .str "yaml".toList),
            ("version".toList, .int 1), ("text".toList, .str "one".toList)])])])
    let change : Step := .send client (.obj
      [("method".toList, .str "textDocument/didChange".toList),
        ("params".toList, .obj
          [("textDocument".toList, .obj [("uri".toList, uri), ("version".toList, .int 2)]),
            ("contentChanges".toList, .arr
              [.obj [("text".toList, .str "two".toList)],
                .obj [("text".toList, .str "three".toList)]])])])
    let u : Uri := ⟨"file".toList, some ⟨[], [], none⟩, "/a".toList, none, none⟩
    let s₁ := (step disk {} start).2.1
    let s₂ := (step disk s₁ opening).2.1
    let s := (step disk s₂ change).2.1
    let heard := opening.heard disk s₁ ++ change.heard disk s₂
    Moment ⟨none, none, none⟩ disk s heard ∧ s.document? u = some ⟨"three".toList, 2⟩ ∧
      (∀ d, s.document? u = some d ↔ Word.Tell (heard.filterMap (·.word? u.text)) d) ∧
      (∀ d, s.document? u = some d → ∃ n ∈ heard, Announces u.text d n) ∧
      (∀ (n : Invocation) (q : ChangeParams), Method.ofName n.method = .didChange →
        Server.readParams? ChangeParams.decode n.params = some q →
        s.document? q.uri = none → (s.hear n).1 = s) ∧
      ∀ (client : Client) (m : Message),
        (∀ n ∈ heardWith disk client s m, n.word? u.text = none) →
        (receive disk client s m).1.document? u = s.document? u := by
  intro disk client uri start opening change u s₁ s₂ s heard
  have method : Method.ofName "initialize".toList = .start := by decide
  have started : Working ⟨none, none, none⟩ (step disk {} start).1 s₁ [] :=
    .start (.start disk) rfl client rfl method rfl
  have moment : Moment ⟨none, none, none⟩ disk s heard :=
    .between (.step (.step started opening rfl) change rfl)
  exact ⟨moment, rfl, Moment.document_tracked moment u⟩

end Session

end RuleOff
