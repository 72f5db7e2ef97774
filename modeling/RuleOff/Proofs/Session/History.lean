import RuleOff.Proofs.Session.Snapshot

/-!
# Histories of sessions

The server knows of documents what notifications have told it. This module keeps, beside the state
of a session, the notifications that have led to it, and beside each request of a conversation the
state in which it is sent.

## Main definitions

* `Announces`: a notification that gives the text and the version of a document.
* `Session.Reached`: the states of sessions, with the notifications heard so far.
* `Session.asked`, `Session.askedWith`: requests, with the states in which they are sent.

## Main statements

* `Session.Reached.announced`: each copy of a document was announced.
* `Session.map_askedWith`: the requests with states are those of the session.
-/

namespace RuleOff

/-- The notification gives a document, under the text of its URI, as it is from now on. -/
inductive Announces (key : Text) (d : Document) (n : Invocation) : Prop
  | opened {p : OpenParams} (method : Method.ofName n.method = .didOpen)
    (params : Server.readParams? OpenParams.decode n.params = some p) (uri : p.uri.text = key)
    (copy : d = ⟨p.text, p.version⟩)
  | changed {p : ChangeParams} (method : Method.ofName n.method = .didChange)
    (params : Server.readParams? ChangeParams.decode n.params = some p) (uri : p.uri.text = key)
    (text : p.texts.getLast? = some d.text) (version : p.version = d.version)

namespace Server

variable {s : Server} {key : Text} {d : Document}

theorem updateSettings_documents (s : Server) (v : Json) :
    (s.updateSettings v).1.documents = s.documents := by
  unfold updateSettings
  split <;> rfl

theorem announced_of_openDocument {n : Invocation} {p : OpenParams}
    (method : Method.ofName n.method = .didOpen)
    (params : readParams? OpenParams.decode n.params = some p)
    (known : (s.openDocument p).documents.get? key = some d) :
    s.documents.get? key = some d ∨ Announces key d n := by
  have inserted : (s.documents.insert p.uri.text ⟨p.text, p.version⟩).get? key = some d := known
  rw [Table.get?_insert] at inserted
  by_cases uri : p.uri.text = key
  · rw [if_pos uri] at inserted
    exact .inr (.opened method params uri (Option.some.inj inserted).symm)
  · rw [if_neg uri] at inserted
    exact .inl inserted

theorem announced_of_changeDocument {n : Invocation} {p : ChangeParams}
    (method : Method.ofName n.method = .didChange)
    (params : readParams? ChangeParams.decode n.params = some p)
    (known : (s.changeDocument p).documents.get? key = some d) :
    s.documents.get? key = some d ∨ Announces key d n := by
  unfold changeDocument at known
  split at known
  · next t _ text =>
    have inserted : (s.documents.insert p.uri.text ⟨t, p.version⟩).get? key = some d := known
    rw [Table.get?_insert] at inserted
    by_cases uri : p.uri.text = key
    · rw [if_pos uri] at inserted
      obtain rfl := Option.some.inj inserted
      exact .inr (.changed method params uri text rfl)
    · rw [if_neg uri] at inserted
      exact .inl inserted
  · exact .inl known

theorem known_of_closeDocument {u : Uri}
    (known : (s.closeDocument u).documents.get? key = some d) :
    s.documents.get? key = some d := by
  have erased : (s.documents.erase u.text).get? key = some d := known
  rw [Table.get?_erase] at erased
  by_cases uri : u.text = key
  · rw [if_pos uri] at erased
    exact absurd erased (Option.some_ne_none d).symm
  · rwa [if_neg uri] at erased

/-- A copy that is there behind a notification was there before, or is what was announced. -/
theorem announced_of_hear {n : Invocation} (known : (s.hear n).1.documents.get? key = some d) :
    s.documents.get? key = some d ∨ Announces key d n := by
  unfold hear at known
  split at known
  · exact .inl known
  · split at known
    · obtain ⟨f, hearing, same⟩ := exists_hearing n
      rw [same] at known
      cases hearing with
      | opened method params => exact announced_of_openDocument method params known
      | changed method params => exact announced_of_changeDocument method params known
      | closed u => exact .inl (known_of_closeDocument known)
      | configured v =>
        rw [← updateSettings_documents s v]
        exact .inl known
      | _ => exact .inl known
    · exact .inl known

theorem announced_of_hearAll {ns : List Invocation}
    (known : (s.hearAll ns).1.documents.get? key = some d) :
    s.documents.get? key = some d ∨ ∃ n ∈ ns, Announces key d n := by
  induction ns generalizing s with
  | nil => exact .inl known
  | cons n ns ih =>
    have later : ((s.hear n).1.hearAll ns).1.documents.get? key = some d := known
    rcases ih later with before | ⟨m, mem, announces⟩
    · rcases announced_of_hear before with before | announces
      · exact .inl before
      · exact .inr ⟨n, List.mem_cons_self, announces⟩
    · exact .inr ⟨m, List.mem_cons_of_mem n mem, announces⟩

theorem start_documents (s : Server) (p : StartParams) :
    (s.start p).1.documents = s.documents := by
  unfold start
  cases p.options with
  | none => rfl
  | some v => exact updateSettings_documents _ v

/-- Requests change no documents. -/
theorem answer_documents (s : Server) (r : Invocation) :
    (s.answer r).1.documents = s.documents := by
  unfold answer
  split
  case h_3 =>
    split
    · split
      · exact start_documents s _
      · rfl
    · rfl
  all_goals first | rfl | (split <;> rfl)

end Server

namespace Session

variable {α β : Type} {disk : Disk} {client : Client} {s : Server}

/-- The notifications that the server hears on account of a message. -/
def heardWith (disk : Disk) (client : Client) (s : Server) : Message → List Invocation
  | .notification n => [n]
  | .request id r => meanwhile client (requests (receive disk client s (.request id r)).2.1)

def Step.heard (disk : Disk) (s : Server) : Step → List Invocation
  | .change _ => []
  | .send client v =>
    match Message.ofJson? v with
    | some m => heardWith disk client s m
    | none => []

/-- The states that sessions come to, each with the notifications heard so far. -/
inductive Reached : Disk → Server → List Invocation → Prop
  | start (disk : Disk) : Reached disk {} []
  | step {disk : Disk} {s : Server} {heard : List Invocation} (before : Reached disk s heard)
    (a : Step) : Reached (step disk s a).1 (step disk s a).2.1 (heard ++ a.heard disk s)

/-- What a request leaves is what its notifications leave of the server that has answered it. -/
theorem receive_request_server (working : s.phase ≠ .exited) {id : MessageId} {r : Invocation} :
    (receive disk client s (.request id r)).1 =
      ((s.answer r).1.hearAll (heardWith disk client s (.request id r))).1 := by
  show _ = (Server.hearAll _ (meanwhile client (requests (receive _ _ _ _).2.1))).1
  rw [receive_request working]
  exact run_server disk client _ _

theorem announced_of_receive {m : Message} {key : Text} {d : Document}
    (known : (receive disk client s m).1.documents.get? key = some d) :
    s.documents.get? key = some d ∨ ∃ n ∈ heardWith disk client s m, Announces key d n := by
  by_cases exited : s.phase = .exited
  · have stopped : receive disk client s m = (s, [], .stopped) := if_pos exited
    rw [stopped] at known
    exact .inl known
  · cases m with
    | notification n =>
      rw [receive_notification exited] at known
      rcases Server.announced_of_hear known with before | announces
      · exact .inl before
      · exact .inr ⟨n, List.mem_singleton.mpr rfl, announces⟩
    | request id r =>
      rw [receive_request_server exited] at known
      rcases Server.announced_of_hearAll known with before | announced
      · rw [s.answer_documents r] at before
        exact .inl before
      · exact .inr announced

theorem announced_of_step {a : Step} {key : Text} {d : Document}
    (known : (step disk s a).2.1.documents.get? key = some d) :
    s.documents.get? key = some d ∨ ∃ n ∈ a.heard disk s, Announces key d n := by
  cases a with
  | change c => exact .inl known
  | send client v =>
    cases message : Message.ofJson? v with
    | none =>
      simp only [step, message] at known
      exact .inl known
    | some m =>
      simp only [step, message] at known
      simp only [Step.heard, message]
      exact announced_of_receive known

/-- Whatever the server takes for the text of a document, the client has announced it. -/
theorem Reached.announced {heard : List Invocation} (reached : Reached disk s heard) {key : Text}
    {d : Document} (known : s.documents.get? key = some d) : ∃ n ∈ heard, Announces key d n := by
  induction reached with
  | start disk => exact absurd known (Option.some_ne_none d).symm
  | step before a ih =>
    rcases announced_of_step known with earlier | ⟨n, mem, announces⟩
    · obtain ⟨n, mem, announces⟩ := ih earlier
      exact ⟨n, List.mem_append_left _ mem, announces⟩
    · exact ⟨n, List.mem_append_right _ mem, announces⟩

/-! ### The moment of a request -/

/-- The requests of a conversation, each with the state of the server in which it is sent. -/
def asked (disk : Disk) (client : Client) : Server → Exchange α → List (Server × ClientRequest)
  | _, .done _ => []
  | s, .log _ next => asked disk client s next
  | s, .notify _ next => asked disk client s next
  | s, .ask q next =>
    if client.connected then
      let later := (s.hearAll (client.answer q).before).1
      (s, q) ::
        if later.phase = .exited then [] else asked disk client later (next (client.answer q).reply)
    else asked disk client s (next (.failure .notInitialized))
  | s, .document u next => asked disk client s (next (s.document? u))
  | s, .isFile p next => asked disk client s (next (disk.isFile p))
  | s, .readFile p next => asked disk client s (next ((disk.read p).mapError Disk.Failure.message))

theorem asked_ask (s : Server) (q : ClientRequest) (next : Reply → Exchange α) :
    asked disk client s (.ask q next) =
      if client.connected then
        let later := (s.hearAll (client.answer q).before).1
        (s, q) ::
          if later.phase = .exited then []
          else asked disk client later (next (client.answer q).reply)
      else asked disk client s (next (.failure .notInitialized)) := rfl

/-- A client that is not reached gets no request. -/
theorem asked_of_not_connected (h : client.connected ≠ true) (s : Server) (x : Exchange α) :
    asked disk client s x = [] := by
  induction x generalizing s with
  | ask q next ih =>
    rw [asked_ask, if_neg h]
    exact ih _ s
  | done a => rfl
  | log r next ih => exact ih s
  | notify n next ih => exact ih s
  | document u next ih => exact ih _ s
  | isFile p next ih => exact ih _ s
  | readFile p next ih => exact ih _ s

theorem mem_asked_ask (connected : client.connected = true) {s now : Server} {q q' : ClientRequest}
    {next : Reply → Exchange α} (sent : (now, q') ∈ asked disk client s (.ask q next)) :
    (now = s ∧ q' = q) ∨
      (now, q') ∈ asked disk client (s.hearAll (client.answer q).before).1
        (next (client.answer q).reply) := by
  rw [asked_ask, if_pos connected] at sent
  rcases List.mem_cons.mp sent with first | later
  · exact .inl (Prod.ext_iff.mp first)
  · split at later
    · exact absurd later List.not_mem_nil
    · exact .inr later

theorem map_asked (s : Server) (x : Exchange α) :
    (asked disk client s x).map Prod.snd = requests (run disk client s x).events := by
  induction x generalizing s with
  | done a => rfl
  | log r next ih => exact ih s
  | notify n next ih => exact ih s
  | ask q next ih =>
    rw [asked_ask, run_ask]
    by_cases connected : client.connected = true
    · rw [if_pos connected, if_pos connected]
      dsimp only
      rw [List.map_cons]
      by_cases exited : (s.hearAll (client.answer q).before).1.phase = .exited
      · rw [if_pos exited, if_pos exited]
        exact congrArg (q :: ·) (requests_filter_isLogged _).symm
      · rw [if_neg exited, if_neg exited, ih]
        show _ = q :: requests ((s.hearAll (client.answer q).before).2 ++ _)
        rw [requests_append, s.requests_hearAll]
        rfl
    · rw [if_neg connected, if_neg connected]
      exact ih _ s
  | document u next ih => exact ih _ s
  | isFile p next ih => exact ih _ s
  | readFile p next ih => exact ih _ s

theorem asked_settled (s : Server) (x : Exchange α) :
    asked disk client s (settled disk s x) = asked disk client s x := by
  induction x with
  | document u next ih => exact ih _
  | isFile p next ih => exact ih _
  | readFile p next ih => exact ih _
  | _ => rfl

/-- What follows a conversation and asks nothing adds no requests. -/
theorem asked_bind {f : α → Exchange β} (silent : ∀ s a, asked disk client s (f a) = [])
    (s : Server) (x : Exchange α) : asked disk client s (x.bind f) = asked disk client s x := by
  induction x generalizing s with
  | done a => exact silent s a
  | log r next ih => exact ih s
  | notify n next ih => exact ih s
  | ask q next ih =>
    unfold Exchange.bind
    rw [asked_ask, asked_ask]
    simp only [ih]
  | document u next ih => exact ih _ s
  | isFile p next ih => exact ih _ s
  | readFile p next ih => exact ih _ s

/-- The requests that a message of the client brings about, each with the state in which it is
sent. -/
def askedWith (disk : Disk) (client : Client) (s : Server) : Message → List (Server × ClientRequest)
  | .notification _ => []
  | .request _ r =>
    if s.phase = .exited then [] else asked disk client (s.answer r).1 (s.answer r).2

theorem askedWith_request {s : Server} (working : s.phase ≠ .exited) (id : MessageId)
    (r : Invocation) :
    askedWith disk client s (.request id r) = asked disk client (s.answer r).1 (s.answer r).2 :=
  if_neg working

theorem map_askedWith (m : Message) :
    (askedWith disk client s m).map Prod.snd = requests (receive disk client s m).2.1 := by
  by_cases exited : s.phase = .exited
  · have stopped : receive disk client s m = (s, [], .stopped) := if_pos exited
    rw [stopped]
    cases m with
    | notification n => rfl
    | request id r =>
      show (if s.phase = .exited then _ else _ : List (Server × ClientRequest)).map _ = _
      rw [if_pos exited]
      rfl
  · cases m with
    | notification n =>
      rw [receive_notification exited]
      exact (s.requests_hear n).symm
    | request id r =>
      rw [receive_request exited, askedWith_request exited]
      exact map_asked _ _

end Session

end RuleOff
