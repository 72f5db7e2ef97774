import RuleOff.Proofs.Session.History

/-!
# Sessions at work

Between the request that starts it and its shutdown, the server knows what the parameters of the
start have told it and what it has heard since. Nothing from before the start counts, and neither
does any request, nor any reply to a request of the server.

## Main definitions

* `Session.Working`: the states of sessions at work, each with what was heard since the start.
* `Session.Moment`: the same, and the states in which a request of the client waits.

## Main statements

* `Session.Moment.eq_hearAll`: the server is what the start and the notifications make of it.
* `Session.Working.moment_of_asked`: requests of the server are sent at such moments.
-/

namespace RuleOff

namespace Server

variable {s : Server}

/-- A notification that leaves the server waiting for its start changes nothing. -/
theorem hear_eq_of_fresh {n : Invocation} (h : (s.hear n).1.phase = .fresh) :
    (s.hear n).1 = s := by
  unfold hear at h ⊢
  split at h
  · exact Phase.noConfusion h
  · next other =>
    rw [if_neg other]
    split at h
    · next running =>
      rcases s.hearRunning_phase n with same | shut
      · rw [same, running] at h
        exact Phase.noConfusion h
      · rw [shut] at h
        exact Phase.noConfusion h
    · next waiting => rw [if_neg waiting]

theorem hearAll_eq_of_fresh {ns : List Invocation} (h : (s.hearAll ns).1.phase = .fresh) :
    (s.hearAll ns).1 = s := by
  induction ns generalizing s with
  | nil => rfl
  | cons n ns ih =>
    have rest : ((s.hear n).1.hearAll ns).1 = (s.hear n).1 := ih h
    have first : (s.hear n).1.phase = .fresh := by
      rw [← rest]
      exact h
    exact rest.trans (hear_eq_of_fresh first)

theorem start_phase (s : Server) (p : StartParams) : (s.start p).1.phase = .running := by
  unfold start
  cases p.options with
  | none => rfl
  | some v => exact updateSettings_phase _ v

/-- A request leaves the server as it is, unless it starts it or ends its work. -/
theorem answer_server (s : Server) (r : Invocation) :
    (s.answer r).1 = s ∨ (s.answer r).1.phase ≠ .fresh ∧
      (s.phase = .running → (s.answer r).1.phase ≠ .running) := by
  unfold answer
  split
  case h_1 => exact .inl rfl
  case h_2 => exact .inr ⟨Phase.noConfusion, fun _ => Phase.noConfusion⟩
  case h_3 =>
    split
    · next fresh =>
      split
      · next p _ =>
        refine .inr ⟨?_, fun running => ?_⟩
        · rw [start_phase]
          exact Phase.noConfusion
        · rw [fresh] at running
          exact Phase.noConfusion running
      · exact .inl rfl
    · exact .inl rfl
  case h_4 =>
    split
    · exact .inr ⟨Phase.noConfusion, fun _ => Phase.noConfusion⟩
    · exact .inl rfl
  case h_5 => split <;> exact .inl rfl

theorem answer_eq_of_running {r : Invocation} (running : s.phase = .running)
    (still : (s.answer r).1.phase = .running) : (s.answer r).1 = s := by
  rcases s.answer_server r with same | ⟨-, ends⟩
  · exact same
  · exact absurd still (ends running)

theorem answer_eq_of_fresh {r : Invocation} (still : (s.answer r).1.phase = .fresh) :
    (s.answer r).1 = s := by
  rcases s.answer_server r with same | ⟨starts, -⟩
  · exact same
  · exact absurd still starts

end Server

namespace Session

variable {disk : Disk} {client : Client} {s now : Server} {p : StartParams}
  {heard ns : List Invocation}

/-- A session that still waits for its start knows nothing. -/
theorem Reached.eq_of_fresh (reached : Reached disk s heard) (fresh : s.phase = .fresh) :
    s = {} := by
  induction reached with
  | start disk => rfl
  | @step disk s heard before a ih =>
    have same : (Session.step disk s a).2.1 = s := by
      cases a with
      | change c => rfl
      | send client v =>
        cases message : Message.ofJson? v with
        | none => simp only [Session.step, message]
        | some m =>
          simp only [Session.step, message] at fresh ⊢
          by_cases exited : s.phase = .exited
          · have stopped : receive disk client s m = (s, [], .stopped) := if_pos exited
            rw [stopped]
          · cases m with
            | notification n =>
              rw [receive_notification exited] at fresh ⊢
              exact Server.hear_eq_of_fresh fresh
            | request id r =>
              rw [receive_request_server exited] at fresh ⊢
              have waited := Server.hearAll_eq_of_fresh fresh
              rw [waited] at fresh ⊢
              exact Server.answer_eq_of_fresh fresh
    rw [same] at fresh ⊢
    exact ih fresh

/-- The states of sessions between their start, with the given parameters, and their shutdown, each
with the notifications heard since the start. -/
inductive Working (p : StartParams) : Disk → Server → List Invocation → Prop
  | start {disk : Disk} {s : Server} {heard : List Invocation} {v : Json} {id : MessageId}
    {r : Invocation} (before : Reached disk s heard) (fresh : s.phase = .fresh) (client : Client)
    (message : Message.ofJson? v = some (.request id r)) (method : Method.ofName r.method = .start)
    (decoded : Server.readParams? StartParams.decode r.params = some p) :
    Working p (step disk s (.send client v)).1 (step disk s (.send client v)).2.1 []
  | step {disk : Disk} {s : Server} {heard : List Invocation} (before : Working p disk s heard)
    (a : Step) (running : (step disk s a).2.1.phase = .running) :
    Working p (step disk s a).1 (step disk s a).2.1 (heard ++ a.heard disk s)

/-- A step that leaves a server at work consists of what is heard in it. -/
theorem step_eq_hearAll {a : Step} (before : s.phase = .running)
    (running : (step disk s a).2.1.phase = .running) :
    (step disk s a).2.1 = (s.hearAll (a.heard disk s)).1 := by
  have working := Server.ne_exited_of_running before
  cases a with
  | change c => rfl
  | send client v =>
    cases message : Message.ofJson? v with
    | none => simp only [step, Step.heard, message, Server.hearAll]
    | some m =>
      simp only [step, message] at running
      simp only [step, Step.heard, message]
      cases m with
      | notification n =>
        rw [receive_notification working]
        rfl
      | request id r =>
        rw [receive_request_server working] at running ⊢
        rw [Server.answer_eq_of_running before (Server.running_of_hearAll running)]

/-- The server after a start. -/
theorem step_start {v : Json} {id : MessageId} {r : Invocation} (fresh : s.phase = .fresh)
    (client : Client) (message : Message.ofJson? v = some (.request id r))
    (method : Method.ofName r.method = .start)
    (decoded : Server.readParams? StartParams.decode r.params = some p) :
    (step disk s (.send client v)).2.1 = (s.start p).1 := by
  have working : s.phase ≠ .exited := by
    rw [fresh]
    exact Phase.noConfusion
  have answered : s.answer r = s.start p := by
    unfold Server.answer
    simp only [method, fresh, decoded, if_true]
  -- The conversation of a start only writes to the log.
  have silent : ∀ (records : List LogRecord) (s : Server) (response : Response),
      (run disk client s (Server.logThen records response)).server = s := by
    intro records s response
    induction records with
    | nil => rfl
    | cons r records ih => exact ih
  simp only [step, message]
  rw [receive_request working, answered]
  exact silent _ _ _

theorem Working.running (working : Working p disk s heard) : s.phase = .running := by
  cases working with
  | start before fresh client message method decoded =>
    rw [step_start fresh client message method decoded]
    exact Server.start_phase _ p
  | step before a running => exact running

/-- A server at work is what its start and the notifications since make of it. -/
theorem Working.eq_hearAll (working : Working p disk s heard) :
    s = ((({} : Server).start p).1.hearAll heard).1 := by
  induction working with
  | start before fresh client message method decoded =>
    rw [step_start fresh client message method decoded, before.eq_of_fresh fresh]
    rfl
  | step before a running ih =>
    rw [step_eq_hearAll before.running running, Server.hearAll_append, ← ih]

/-- The states of a session at work, between two messages of the client or while a request of the
client waits, each with the notifications heard since the start. -/
inductive Moment (p : StartParams) (disk : Disk) : Server → List Invocation → Prop
  | between {s : Server} {heard : List Invocation} (working : Working p disk s heard) :
    Moment p disk s heard
  | waiting {s : Server} {heard ns : List Invocation} (working : Working p disk s heard)
    (client : Client) (id : MessageId) (r : Invocation)
    (sofar : ns <+: heardWith disk client s (.request id r))
    (running : ((s.answer r).1.hearAll ns).1.phase = .running) :
    Moment p disk ((s.answer r).1.hearAll ns).1 (heard ++ ns)

theorem Moment.running (moment : Moment p disk s heard) : s.phase = .running := by
  cases moment with
  | between working => exact working.running
  | waiting _ _ _ _ _ running => exact running

/-- A server at work is what its start and the notifications since make of it, also while a request
waits. -/
theorem Moment.eq_hearAll (moment : Moment p disk s heard) :
    s = ((({} : Server).start p).1.hearAll heard).1 := by
  cases moment with
  | between working => exact working.eq_hearAll
  | waiting working client id r sofar running =>
    rw [Server.answer_eq_of_running working.running (Server.running_of_hearAll running),
      Server.hearAll_append, ← working.eq_hearAll]

/-- The state in which a request is sent is what the notifications before it lead to. -/
theorem exists_isPrefix_of_asked {α : Type} {x : Exchange α} {q : ClientRequest}
    (sent : (now, q) ∈ asked disk client s x) :
    ∃ ns, ns <+: meanwhile client (requests (run disk client s x).events) ∧
      now = (s.hearAll ns).1 := by
  induction x generalizing s with
  | done a => exact absurd sent List.not_mem_nil
  | log r next ih => exact ih sent
  | notify n next ih => exact ih sent
  | ask q' next ih =>
    by_cases connected : client.connected = true
    · rw [asked_ask, if_pos connected] at sent
      rw [run_ask, if_pos connected]
      dsimp only at sent ⊢
      rcases List.mem_cons.mp sent with first | later
      · exact ⟨[], List.nil_prefix, congrArg Prod.fst first⟩
      · by_cases exited : (s.hearAll (client.answer q').before).1.phase = .exited
        · rw [if_pos exited] at later
          exact absurd later List.not_mem_nil
        · rw [if_neg exited] at later ⊢
          obtain ⟨ns, sofar, rfl⟩ := ih _ later
          refine ⟨(client.answer q').before ++ ns, ?_, (s.hearAll_append _ _).symm⟩
          change _ <+: meanwhile client (q' :: requests (_ ++ _))
          rw [requests_append, s.requests_hearAll]
          exact (List.prefix_append_right_inj _).mpr sofar
    · rw [asked_ask, if_neg connected] at sent
      rw [run_ask, if_neg connected]
      exact ih _ sent
  | document u next ih => exact ih _ sent
  | isFile p next ih => exact ih _ sent
  | readFile p next ih => exact ih _ sent

/-- The server sends its requests at moments of its work, unless it is shut down before. -/
theorem Working.moment_of_asked (working : Working p disk s heard) {id : MessageId}
    {r : Invocation} {q : ClientRequest} (running : now.phase = .running)
    (sent : (now, q) ∈ askedWith disk client s (.request id r)) :
    ∃ ns, ns <+: heardWith disk client s (.request id r) ∧ Moment p disk now (heard ++ ns) := by
  have at_work := Server.ne_exited_of_running working.running
  rw [askedWith_request at_work] at sent
  obtain ⟨ns, sofar, rfl⟩ := exists_isPrefix_of_asked sent
  have waited : ns <+: heardWith disk client s (.request id r) := by
    change _ <+: meanwhile client (requests (receive disk client s (.request id r)).2.1)
    rw [receive_request at_work]
    exact sofar
  exact ⟨ns, waited, .waiting working client id r waited running⟩

end Session

end RuleOff
