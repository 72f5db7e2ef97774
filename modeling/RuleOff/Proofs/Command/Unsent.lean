import RuleOff.Proofs.Command.QuickFix
import RuleOff.Proofs.Command.Report
import RuleOff.Proofs.Session.Refusal

/-!
# Sessions without their refused messages

Refused messages may as well not be sent. This module takes them out of a session, and with them the
notifications that are refused while the server waits for a reply, and compares what is left with the
session as it was.

A client answers requests one by one, whenever they come. To leave notifications out of the answer to
a request, one has to know when it is sent, and so the proof needs that no command sends a request
twice.

## Main definitions

* `Exchange.AsksFrom`: a conversation whose requests come in a fixed order of their kinds.
* `Client.spared`: the client without the notifications that are refused.
* `Session.Step.IsRefused`: a step whose message is refused.
* `Session.heeded`, `Session.playHeeded`: the other steps of a session, and what is seen of them.

## Main statements

* `Session.nodup_askedWith`: no message has the server send a request twice.
* `Session.refused_as_if_unsent`: refused messages change nothing, neither at once nor later.
-/

namespace RuleOff

/-- The place of a request among those of a command. -/
def ClientRequest.stage : ClientRequest → Nat
  | configuration _ _ => 0
  | applyEdit _ => 1
  | showDocument _ _ => 2

/-! ### Every request once -/

namespace Exchange

variable {α β : Type}

/-- The requests of the conversation come stage by stage, from the given one on. -/
def AsksFrom : Exchange α → Nat → Prop
  | done _, _ => True
  | log _ next, k => next.AsksFrom k
  | notify _ next, k => next.AsksFrom k
  | ask q next, k => k ≤ q.stage ∧ ∀ reply, (next reply).AsksFrom (q.stage + 1)
  | document _ next, k => ∀ copy, (next copy).AsksFrom k
  | isFile _ next, k => ∀ found, (next found).AsksFrom k
  | readFile _ next, k => ∀ contents, (next contents).AsksFrom k

theorem AsksFrom.bind {x : Exchange α} {k : Nat} (asks : x.AsksFrom k) {f : α → Exchange β}
    (silent : ∀ a k, (f a).AsksFrom k) : (x.bind f).AsksFrom k := by
  induction x generalizing k with
  | done a => exact silent a k
  | log r next ih => exact ih asks
  | notify n next ih => exact ih asks
  | ask q next ih => exact ⟨asks.1, fun reply => ih reply (asks.2 reply)⟩
  | document u next ih => exact fun copy => ih copy (asks copy)
  | isFile p next ih => exact fun found => ih found (asks found)
  | readFile p next ih => exact fun contents => ih contents (asks contents)

end Exchange

namespace Script

variable {fallback : Settings} {path : Path} {u : Uri} {rule : Text}
  {versions : ClientEditor.ReadVersions} {k : Nat}

theorem asksFrom_noting {α : Type} {r : Option LogRecord} {x : Exchange α} (asks : x.AsksFrom k) :
    (noting r x).AsksFrom k := by
  cases r with
  | none => exact asks
  | some r => exact asks

theorem asksFrom_pointing : (pointing path u versions).AsksFrom 1 :=
  ⟨Nat.le_succ 1, fun _ => asksFrom_noting trivial⟩

theorem asksFrom_revealing (i : Config.Insertion) :
    (revealing path u rule versions i).AsksFrom 2 :=
  ⟨Nat.le_refl 2, fun _ => asksFrom_noting trivial⟩

theorem asksFrom_inserting (i : Config.Insertion) :
    (inserting path u rule versions i).AsksFrom 1 := by
  refine ⟨Nat.le_refl 1, fun reply => ?_⟩
  dsimp only
  cases editFailure? path reply with
  | some e => trivial
  | none => exact asksFrom_revealing i

theorem asksFrom_planning (t : Text) :
    (planning fallback path u rule versions t).AsksFrom 0 := by
  refine ⟨Nat.le_refl 0, fun reply => asksFrom_noting ?_⟩
  cases Config.plan t (.ofPath path) rule (reported fallback reply).1.indentUnit with
  | none => exact asksFrom_pointing
  | some i => exact asksFrom_inserting i

theorem asksFrom_opening : (opening fallback path u rule).AsksFrom 0 := by
  intro copy
  cases copy with
  | some d => exact asksFrom_planning d.text
  | none =>
    intro contents
    cases contents with
    | ok t => exact asksFrom_planning t
    | error reason => trivial

theorem asksFrom_locating (root : Path) (paths : List Path) :
    (locating fallback root rule paths).AsksFrom 0 := by
  induction paths with
  | nil => trivial
  | cons path paths ih =>
    intro found
    cases found with
    | false => exact ih
    | true =>
      show (addressing fallback path rule).AsksFrom 0
      unfold addressing
      cases Uri.ofFilePath? path with
      | some u => exact asksFrom_opening
      | none => trivial

end Script

namespace Command

variable {s : Server} {r : Invocation}

theorem asksFrom_disableRule (s : Server) (rule : Text) : (s.disableRule rule).AsksFrom 0 := by
  cases folder : s.folders.head? with
  | none =>
    rw [disableRule_of_no_folder folder]
    trivial
  | some root =>
    rw [disableRule_of_folder folder]
    apply (Script.asksFrom_locating root _).bind
    rintro ⟨outcome, versions⟩ k
    cases outcome with
    | ok i => trivial
    | error e => trivial

theorem asksFrom_answer (method : Method.ofName r.method = .executeCommand) :
    (s.answer r).2.AsksFrom 0 := by
  unfold Server.answer
  simp only [method]
  split
  · show (s.answerRunning r).AsksFrom 0
    unfold Server.answerRunning
    simp only [method]
    split
    · next p _ =>
      unfold Server.runCommand
      split
      · trivial
      · split
        · trivial
        · exact (asksFrom_disableRule s _).bind fun _ _ => trivial
    · trivial
  · trivial

end Command

namespace Session

variable {α : Type} {disk : Disk} {client : Client} {s s' now : Server} {q : ClientRequest}

theorem asked_of_asksFrom {x : Exchange α} {k : Nat} (asks : x.AsksFrom k) :
    (∀ a ∈ asked disk client s x, k ≤ a.2.stage) ∧
      (asked disk client s x).Pairwise fun a b => a.2.stage < b.2.stage := by
  induction x generalizing s k with
  | done a => exact ⟨fun a mem => absurd mem List.not_mem_nil, .nil⟩
  | log r next ih => exact ih asks
  | notify n next ih => exact ih asks
  | ask q next ih =>
    by_cases connected : client.connected = true
    · rw [asked_ask, if_pos connected]
      dsimp only
      split
      · exact ⟨fun a mem => by rw [List.mem_singleton.mp mem]; exact asks.1,
          List.pairwise_singleton _ _⟩
      · obtain ⟨later, rest⟩ :=
          @ih (client.answer q).reply (s.hearAll (client.answer q).before).1 _ (asks.2 _)
        refine ⟨fun a mem => ?_, .cons (fun a mem => later a mem) rest⟩
        rcases List.mem_cons.mp mem with rfl | mem
        · exact asks.1
        · exact Nat.le_trans asks.1 (Nat.le_of_succ_le (later a mem))
    · rw [asked_of_not_connected connected]
      exact ⟨fun a mem => absurd mem List.not_mem_nil, .nil⟩
  | document u next ih => exact ih _ (asks _)
  | isFile p next ih => exact ih _ (asks _)
  | readFile p next ih => exact ih _ (asks _)

/-- Requests of different stages are different. -/
theorem nodup_asked {x : Exchange α} {k : Nat} (asks : x.AsksFrom k) :
    ((asked disk client s x).map Prod.snd).Nodup := by
  refine List.pairwise_map.mpr ((asked_of_asksFrom asks).2.imp fun lt same => ?_)
  rw [same] at lt
  exact Nat.lt_irrefl _ lt

/-- No message has the server send a request twice. -/
theorem nodup_askedWith (disk : Disk) (client : Client) (s : Server) (m : Message) :
    ((askedWith disk client s m).map Prod.snd).Nodup := by
  by_cases command : ∃ id r, m = .request id r ∧ Method.ofName r.method = .executeCommand
  · obtain ⟨id, r, rfl, method⟩ := command
    by_cases exited : s.phase = .exited
    · have none : askedWith disk client s (.request id r) = [] := if_pos exited
      rw [none]
      exact List.nodup_nil
    · rw [askedWith_request exited]
      exact nodup_asked (Command.asksFrom_answer method)
  · rw [map_askedWith]
    have silent : requests (receive disk client s m).2.1 = [] :=
      List.eq_nil_iff_forall_not_mem.mpr fun q sent =>
        command (Command.executeCommand_of_requests sent)
    rw [silent]
    exact List.nodup_nil

theorem find?_eq_some_of_nodup {α β : Type} [DecidableEq β] {l : List (α × β)}
    (nodup : (l.map Prod.snd).Nodup) {a : α} {b : β} (mem : (a, b) ∈ l) :
    l.find? (fun p => p.2 = b) = some (a, b) := by
  induction l with
  | nil => exact absurd mem List.not_mem_nil
  | cons p l ih =>
    obtain ⟨fresh, rest⟩ := List.nodup_cons.mp nodup
    rcases List.mem_cons.mp mem with rfl | mem
    · exact List.find?_cons_of_pos (decide_eq_true rfl)
    · have differ : p.2 ≠ b := fun e => fresh (e ▸ List.mem_map_of_mem mem)
      rw [List.find?_cons_of_neg (by simpa using differ)]
      exact ih rest mem

end Session

/-- The client without the notifications that the server refuses while it waits for replies on account
of the message. -/
def Client.spared (disk : Disk) (client : Client) (s : Server) (m : Message) : Client where
  connected := client.connected
  answer q :=
    match (Session.askedWith disk client s m).find? fun a => a.2 = q with
    | some (now, _) => ⟨now.heeded (client.answer q).before, (client.answer q).reply⟩
    | none => client.answer q

namespace Session

variable {disk : Disk} {client : Client} {s s' : Server} {a : Step}

theorem spares_spared (disk : Disk) (client : Client) (s : Server) (m : Message) :
    Spares client (client.spared disk s m) (askedWith disk client s m) := by
  refine ⟨rfl, ?_⟩
  rintro ⟨now, q⟩ mem
  simp only [Client.spared, find?_eq_some_of_nodup (nodup_askedWith disk client s m) mem]

/-! ### Steps -/

/-- The step is a message that the server refuses, or no message at all. -/
def Step.IsRefused (s : Server) : Step → Prop
  | .change _ => False
  | .send _ v => ∀ m ∈ Message.ofJson? v, s.Refuses m

instance (s : Server) : (a : Step) → Decidable (a.IsRefused s)
  | .change _ => inferInstanceAs (Decidable False)
  | .send _ v => inferInstanceAs (Decidable (∀ m ∈ Message.ofJson? v, s.Refuses m))

/-- The step without the notifications that are refused in it. -/
def Step.spared (disk : Disk) (s : Server) : Step → Step
  | .change c => .change c
  | .send client v =>
    match Message.ofJson? v with
    | some m => .send (client.spared disk s m) v
    | none => .send client v

/-- The steps of a session without its refused messages. -/
def heeded : Disk → Server → List Step → List Step
  | _, _, [] => []
  | disk, s, a :: as =>
    let (disk', s', _) := step disk s a
    if a.IsRefused s then heeded disk' s' as else a.spared disk s :: heeded disk' s' as

/-- What is seen of some steps, one after the other, apart from the refused messages. -/
def playHeeded : Disk → Server → List Step → List (List Event × Reaction)
  | _, _, [] => []
  | disk, s, a :: as =>
    let (disk', s', seen) := step disk s a
    if a.IsRefused s then playHeeded disk' s' as else seen :: playHeeded disk' s' as

theorem step_send {v : Json} {m : Message} (message : Message.ofJson? v = some m) :
    step disk s (.send client v) = (disk, receive disk client s m) := by
  simp only [step, message]

theorem step_of_refused (disk : Disk) (refused : a.IsRefused s) :
    (step disk s a).1 = disk ∧ IsRefused s (step disk s a).2 := by
  cases a with
  | change c => exact refused.elim
  | send client v =>
    cases message : Message.ofJson? v with
    | none =>
      have unreadable : step disk s (.send client v) = (disk, s, [], .unreadable) := by
        simp only [step, message]
      rw [unreadable]
      exact ⟨rfl, .same, rfl, .inr (.inr (.inl rfl))⟩
    | some m =>
      rw [step_send message]
      exact ⟨rfl, receive_of_refuses (refused m message)⟩

/-- A message that is heeded comes to the same with a server that has not got the refused ones. -/
theorem receive_of_heeds (disk : Disk) (client : Client) {m : Message} (h : s.Matches s')
    (heeds : ¬ s.Refuses m) :
    (receive disk client s m).1.Matches (receive disk (client.spared disk s m) s' m).1 ∧
      (receive disk (client.spared disk s m) s' m).2 = (receive disk client s m).2 := by
  have going : s.phase ≠ .exited := fun phase => heeds (.stopped m phase)
  have going' : s'.phase ≠ .exited := fun phase => going (h.exited_iff.mpr phase)
  cases m with
  | notification n =>
    obtain ⟨server, seen⟩ := h.hear heeds
    rw [receive_notification going, receive_notification going', seen]
    exact ⟨server, rfl⟩
  | request id r =>
    -- A request is heeded before the shutdown only, where the servers are the same.
    have early : s.phase ≠ .shutDown := fun shut => by
      by_cases method : Method.ofName r.method = .start
      · exact heeds (.secondStart (by rw [shut]; exact Phase.noConfusion) method)
      · exact heeds (.untimely (by rw [shut]; exact Phase.noConfusion) method)
    have same : s = s' := h.eq early
    rw [← same]
    have spares := spares_spared disk client s (.request id r)
    rw [askedWith_request going] at spares
    obtain ⟨server, events, value⟩ := run_matches (.refl (s.answer r).1) spares
    rw [receive_request going, receive_request going]
    dsimp only
    rw [events, value]
    exact ⟨server, rfl⟩

theorem step_of_heeds (disk : Disk) (h : s.Matches s' ∨ s.phase = .exited)
    (heeds : ¬ a.IsRefused s) :
    let o := step disk s a
    let o' := step disk s' (a.spared disk s)
    o'.1 = o.1 ∧ (o.2.1.Matches o'.2.1 ∨ o.2.1.phase = .exited) ∧ o'.2.2 = o.2.2 := by
  cases a with
  | change c => exact ⟨rfl, h, rfl⟩
  | send client v =>
    obtain ⟨m, message, heeds⟩ : ∃ m, Message.ofJson? v = some m ∧ ¬ s.Refuses m := by
      by_contra none
      exact heeds fun m message => Decidable.byContradiction fun h => none ⟨m, message, h⟩
    have alike : s.Matches s' := h.resolve_right fun phase => heeds (.stopped m phase)
    have spared : (Step.send client v).spared disk s = .send (client.spared disk s m) v := by
      simp only [Step.spared, message]
    obtain ⟨server, seen⟩ := receive_of_heeds disk client alike heeds
    rw [spared, step_send message, step_send message]
    exact ⟨rfl, .inl server, seen⟩

/-- A session comes to the same without its refused messages. -/
theorem play_heeded (steps : List Step) (h : s.Matches s' ∨ s.phase = .exited) :
    play disk s' (heeded disk s steps) = playHeeded disk s steps := by
  induction steps generalizing disk s s' with
  | nil => rfl
  | cons a as ih =>
    unfold heeded playHeeded
    dsimp only
    by_cases refused : a.IsRefused s
    · rw [if_pos refused, if_pos refused]
      obtain ⟨kept, nothing⟩ := step_of_refused disk refused
      rw [kept]
      refine ih ?_
      rcases h with still | exited
      · exact still.remembers nothing.memory
      · exact .inr (nothing.memory.phase_of_exited exited)
    · rw [if_neg refused, if_neg refused]
      obtain ⟨kept, later, seen⟩ := step_of_heeds disk h refused
      unfold play
      dsimp only
      rw [kept, ih later]
      exact congrArg (· :: _) seen

/-! ### Requests that are not refused -/

theorem value_run_logThen (disk : Disk) (client : Client) (s : Server) (records : List LogRecord)
    (response : Response) :
    (run disk client s (Server.logThen records response)).value = some (some response) := by
  induction records with
  | nil => rfl
  | cons r records ih => exact ih

theorem answered_of_value {id : MessageId} {r : Invocation} {v : Json} (going : s.phase ≠ .exited)
    (value : (run disk client (s.answer r).1 (s.answer r).2).value = some (some (.result v))) :
    (receive disk client s (.request id r)).2.2 = .answered (.result v) := by
  rw [receive_request going]
  exact congrArg reactionTo value

/-- A request that is not refused gets a result, unless the server is stopped meanwhile. -/
theorem reaction_of_heeds (disk : Disk) (client : Client) {id : MessageId} {r : Invocation}
    (heeds : ¬ s.Refuses (.request id r)) :
    let o := receive disk client s (.request id r)
    (∃ v, o.2.2 = .answered (.result v)) ∨
      o.1.phase = .exited ∧ o.2.2 = .answered (.refused .cancelled) := by
  have going : s.phase ≠ .exited := fun phase => heeds (.stopped _ phase)
  have heeded := Server.heeds_of_not_refuses heeds
  simp only [Server.heeds, Invocation.isDecodable] at heeded
  cases method : Method.ofName r.method
  case start =>
    simp only [method, Bool.and_eq_true, decide_eq_true_eq] at heeded
    obtain ⟨fresh, decodes⟩ := heeded
    obtain ⟨p, decoded⟩ := Option.isSome_iff_exists.mp decodes
    have started : s.answer r = s.start p := by
      simp only [Server.answer, method, fresh, decoded, if_true]
    refine .inl ⟨Server.greeting, answered_of_value going ?_⟩
    rw [started, Server.start]
    cases p.options with
    | none => exact value_run_logThen _ _ _ _ _
    | some v => exact value_run_logThen _ _ _ _ _
  case shutdown =>
    simp only [method, Bool.and_eq_true, decide_eq_true_eq] at heeded
    obtain ⟨running, none⟩ := heeded
    refine .inl ⟨.null, answered_of_value going ?_⟩
    simp only [Server.answer, method, running, none, if_true]
    exact value_run_logThen _ _ _ _ _
  case codeAction =>
    simp only [method, Bool.and_eq_true, decide_eq_true_eq] at heeded
    obtain ⟨running, decodes⟩ := heeded
    obtain ⟨p, decoded⟩ := Option.isSome_iff_exists.mp decodes
    refine .inl ⟨Server.codeActionResult p, answered_of_value going ?_⟩
    rw [Command.answer_codeAction running method decoded]
    rfl
  case executeCommand =>
    simp only [method, Bool.and_eq_true, decide_eq_true_eq] at heeded
    obtain ⟨running, known⟩ := heeded
    split at known
    · next p decoded =>
      rw [Bool.and_eq_true, decide_eq_true_eq] at known
      obtain ⟨rule, argument⟩ := Option.isSome_iff_exists.mp known.2
      have switches := Command.switchesOff_of_decode method decoded known.1 argument
      exact ((switches s running).2 disk client id).imp_left fun done => ⟨.null, done⟩
    · exact absurd known Bool.false_ne_true
  all_goals
    rw [method] at heeded
    exact absurd heeded Bool.false_ne_true

/-- Refused messages change nothing, neither at once nor later.

* A message that is refused leaves the documents, the folders and the settings as they are, and has
  nothing sent to the client. It gets an error or no answer, and the same goes for what is no message.
* A request that is not refused is answered with a result, unless the server is stopped while it
  is at work on it.
* A notification that is refused while a reply is awaited has no effect either.
* The other messages come to the same in a session in which nothing was ever refused. -/
theorem refused_as_if_unsent :
    (∀ (disk : Disk) (s : Server) (a : Step), a.IsRefused s →
      (step disk s a).1 = disk ∧ IsRefused s (step disk s a).2) ∧
    (∀ (disk : Disk) (client : Client) (s : Server) (id : MessageId) (r : Invocation),
      ¬ s.Refuses (.request id r) →
        let o := receive disk client s (.request id r)
        (∃ v, o.2.2 = .answered (.result v)) ∨
          o.1.phase = .exited ∧ o.2.2 = .answered (.refused .cancelled)) ∧
    (∀ (s : Server) (n : Invocation), s.Refuses (.notification n) →
      s.Remembers (s.hear n).1 ∧ (s.hear n).2 = []) ∧
    ∀ (disk : Disk) (s : Server) (steps : List Step),
      play disk s (heeded disk s steps) = playHeeded disk s steps := by
  refine ⟨fun disk s a => step_of_refused disk, ?_, fun s n => Server.hear_of_refuses, ?_⟩
  · exact fun disk client s id r => reaction_of_heeds disk client
  · exact fun disk s steps => play_heeded steps (.inl (.refl s))

end Session

end RuleOff
