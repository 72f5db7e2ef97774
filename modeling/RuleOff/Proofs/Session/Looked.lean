import RuleOff.Proofs.Session.History

/-!
# What a session looks at

A conversation looks at files and at open documents, and names documents in its requests. Some keep
to few of them, whatever the client replies.

## Main definitions

* `Exchange.Within`: a conversation that keeps to some files and documents.
* `Session.looked`, `Session.lookedWith`: the files that are looked at.

## Main statements

* `Session.run_eq_of_looked`: a run depends on the files that are looked at only.
* `Session.looked_of_within`, `Session.asked_of_within`: where a conversation keeps to.
-/

namespace RuleOff

/-- The document that a request is about. -/
def ClientRequest.document? : ClientRequest → Option Uri
  | configuration scope _ => scope
  | applyEdit e => some e.uri
  | showDocument u _ => some u

namespace Exchange

variable {α β : Type} {files : Path → Prop} {documents : Uri → Prop}

/-- The conversation looks at some files only, and looks up and names some documents only. -/
def Within (files : Path → Prop) (documents : Uri → Prop) : Exchange α → Prop
  | done _ => True
  | log _ next => next.Within files documents
  | notify _ next => next.Within files documents
  | ask q next =>
    (∃ u, q.document? = some u ∧ documents u) ∧ ∀ reply, (next reply).Within files documents
  | document u next => documents u ∧ ∀ copy, (next copy).Within files documents
  | isFile p next => files p ∧ ∀ found, (next found).Within files documents
  | readFile p next => files p ∧ ∀ contents, (next contents).Within files documents

theorem Within.bind {x : Exchange α} (within : x.Within files documents) {f : α → Exchange β}
    (rest : ∀ a, (f a).Within files documents) : (x.bind f).Within files documents := by
  induction x with
  | done a => exact rest a
  | log r next ih => exact ih within
  | notify n next ih => exact ih within
  | ask q next ih => exact ⟨within.1, fun reply => ih reply (within.2 reply)⟩
  | document u next ih => exact ⟨within.1, fun copy => ih copy (within.2 copy)⟩
  | isFile p next ih => exact ⟨within.1, fun found => ih found (within.2 found)⟩
  | readFile p next ih => exact ⟨within.1, fun contents => ih contents (within.2 contents)⟩

end Exchange

namespace Session

variable {α : Type} {disk : Disk} {client : Client} {s : Server} {files : Path → Prop}
  {documents : Uri → Prop}

/-- The files that a conversation looks at while it runs. -/
def looked (disk : Disk) (client : Client) : Server → Exchange α → List Path
  | _, .done _ => []
  | s, .log _ next => looked disk client s next
  | s, .notify _ next => looked disk client s next
  | s, .ask q next =>
    if client.connected then
      let later := (s.hearAll (client.answer q).before).1
      if later.phase = .exited then [] else looked disk client later (next (client.answer q).reply)
    else looked disk client s (next (.failure .notInitialized))
  | s, .document u next => looked disk client s (next (s.document? u))
  | s, .isFile p next => p :: looked disk client s (next (disk.isFile p))
  | s, .readFile p next =>
    p :: looked disk client s (next ((disk.read p).mapError Disk.Failure.message))

/-- The files that are looked at on account of a message. -/
def lookedWith (disk : Disk) (client : Client) (s : Server) : Message → List Path
  | .notification _ => []
  | .request _ r =>
    if s.phase = .exited then [] else looked disk client (s.answer r).1 (s.answer r).2

theorem lookedWith_request (working : s.phase ≠ .exited) (id : MessageId) (r : Invocation) :
    lookedWith disk client s (.request id r) = looked disk client (s.answer r).1 (s.answer r).2 :=
  if_neg working

theorem looked_of_within {x : Exchange α} (within : x.Within files documents) :
    ∀ path ∈ looked disk client s x, files path := by
  induction x generalizing s with
  | done a => exact fun path mem => absurd mem List.not_mem_nil
  | log r next ih => exact ih within
  | notify n next ih => exact ih within
  | ask q next ih =>
    unfold looked
    dsimp only
    split
    · split
      · exact fun path mem => absurd mem List.not_mem_nil
      · exact ih _ (within.2 _)
    · exact ih _ (within.2 _)
  | document u next ih => exact ih _ (within.2 _)
  | isFile p next ih => exact List.forall_mem_cons.mpr ⟨within.1, ih _ (within.2 _)⟩
  | readFile p next ih => exact List.forall_mem_cons.mpr ⟨within.1, ih _ (within.2 _)⟩

/-- What is not looked at does not matter. -/
theorem run_eq_of_looked {disk' : Disk} {x : Exchange α}
    (same : ∀ path ∈ looked disk client s x,
      disk'.isFile path = disk.isFile path ∧ disk'.read path = disk.read path) :
    run disk' client s x = run disk client s x := by
  induction x generalizing s with
  | done a => rfl
  | log r next ih => exact congrArg (Outcome.after _) (ih same)
  | notify n next ih => exact congrArg (Outcome.after _) (ih same)
  | ask q next ih =>
    unfold looked at same
    rw [run_ask, run_ask]
    by_cases connected : client.connected = true
    · rw [if_pos connected] at same
      rw [if_pos connected, if_pos connected]
      dsimp only at same ⊢
      by_cases exited : (s.hearAll (client.answer q).before).1.phase = .exited
      · rw [if_pos exited, if_pos exited]
      · rw [if_neg exited] at same
        rw [if_neg exited, if_neg exited, ih _ same]
    · rw [if_neg connected] at same
      rw [if_neg connected, if_neg connected]
      exact ih _ same
  | document u next ih => exact ih _ same
  | isFile p next ih =>
    obtain ⟨here, rest⟩ := List.forall_mem_cons.mp same
    rw [run_isFile, run_isFile, here.1]
    exact ih _ rest
  | readFile p next ih =>
    obtain ⟨here, rest⟩ := List.forall_mem_cons.mp same
    rw [run_readFile, run_readFile, here.2]
    exact ih _ rest

theorem asked_of_within {x : Exchange α} (within : x.Within files documents) :
    ∀ a ∈ asked disk client s x, ∃ u, a.2.document? = some u ∧ documents u := by
  induction x generalizing s with
  | done a => exact fun a mem => absurd mem List.not_mem_nil
  | log r next ih => exact ih within
  | notify n next ih => exact ih within
  | ask q next ih =>
    rw [asked_ask]
    split
    · refine List.forall_mem_cons.mpr ⟨within.1, ?_⟩
      split
      · exact fun a mem => absurd mem List.not_mem_nil
      · exact ih _ (within.2 _)
    · exact ih _ (within.2 _)
  | document u next ih => exact ih _ (within.2 _)
  | isFile p next ih => exact ih _ (within.2 _)
  | readFile p next ih => exact ih _ (within.2 _)

end Session

end RuleOff
