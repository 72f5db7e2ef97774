import RuleOff.Proofs.Session.Requests

/-!
# Conversations on a snapshot

While a conversation waits for a reply, the server hears notifications, and what it knows of the
documents changes. A conversation that looks at documents before its first request only does not
notice: it sends and answers what it would if nothing had happened. Nor do the notifications notice
the conversation, which leaves the server in the state that they leave it in by themselves.

## Main definitions

* `messages`: the messages among what was seen.
* `Invocation.IsQuiet`: a notification that neither stops the server nor has it send anything.
* `Exchange.LooksFirst`: no document is looked up behind a request.
* `Session.frozen`: what a conversation comes to where the documents stay as they are.
* `Session.settled`: what is left of a conversation behind its first look-ups.
* `Session.meanwhile`: the notifications that come in while some requests wait.

## Main statements

* `Session.run_looksFirst`: such a conversation comes to the same as with frozen documents.
* `Session.run_server`: the state of the server after any conversation.
-/

namespace RuleOff

def Event.message? : Event → Option Outgoing
  | sent m => some m
  | logged _ => none

/-- The messages among what was seen, in their order. -/
def messages (events : List Event) : List Outgoing := events.filterMap Event.message?

theorem messages_append (xs ys : List Event) :
    messages (xs ++ ys) = messages xs ++ messages ys := List.filterMap_append

theorem messages_map_logged (rs : List LogRecord) : messages (rs.map .logged) = [] := by
  show (rs.map Event.logged).filterMap Event.message? = []
  rw [List.filterMap_map, List.filterMap_eq_nil_iff]
  intro r _
  rfl

theorem mem_messages {m : Outgoing} {events : List Event} :
    m ∈ messages events ↔ .sent m ∈ events := by
  show m ∈ events.filterMap Event.message? ↔ _
  rw [List.mem_filterMap]
  constructor
  · rintro ⟨event, mem, he⟩
    cases event with
    | logged r => exact absurd he (by simp [Event.message?])
    | sent m' => rwa [← Option.some.inj he]
  · intro mem
    exact ⟨.sent m, mem, rfl⟩

theorem mem_requests {q : ClientRequest} {events : List Event} :
    q ∈ requests events ↔ .request q ∈ messages events := by
  rw [mem_messages]
  show q ∈ events.filterMap Event.request? ↔ _
  rw [List.mem_filterMap]
  constructor
  · rintro ⟨event, mem, he⟩
    match event with
    | .logged r => exact absurd he (by simp [Event.request?])
    | .sent (.notification n) => exact absurd he (by simp [Event.request?])
    | .sent (.request q') => rwa [← Option.some.inj he]
  · intro mem
    exact ⟨.sent (.request q), mem, rfl⟩

/-! ### Quiet notifications -/

/-- Neither stops the server nor has it send anything, as is so for all notifications about
documents, the configuration and folders. -/
def Invocation.IsQuiet (n : Invocation) : Prop :=
  Method.ofName n.method ≠ .exit ∧ Method.ofName n.method ≠ .ready

instance (n : Invocation) : Decidable n.IsQuiet :=
  inferInstanceAs (Decidable (Method.ofName n.method ≠ .exit ∧ Method.ofName n.method ≠ .ready))

/-- All that comes from the client while a request waits is quiet. -/
def Client.IsQuiet (client : Client) : Prop := ∀ q, ∀ n ∈ (client.answer q).before, n.IsQuiet

namespace Server

theorem messages_hear (s : Server) {n : Invocation} (quiet : n.IsQuiet) :
    messages (s.hear n).2 = [] := by
  unfold hear
  split
  · rfl
  · split
    · obtain ⟨f, hearing, same⟩ := exists_hearing n
      rw [same]
      cases hearing with
      | ready method => exact absurd method quiet.2
      | configured v => exact messages_map_logged _
      | _ => rfl
    · rfl

theorem messages_hearAll (s : Server) {ns : List Invocation} (quiet : ∀ n ∈ ns, n.IsQuiet) :
    messages (s.hearAll ns).2 = [] := by
  induction ns generalizing s with
  | nil => rfl
  | cons n ns ih =>
    show messages ((s.hear n).2 ++ ((s.hear n).1.hearAll ns).2) = []
    rw [messages_append, messages_hear s (quiet n List.mem_cons_self),
      ih _ fun m mem => quiet m (List.mem_cons_of_mem n mem)]
    rfl

theorem hearAll_phase_ne_exited {s : Server} (working : s.phase ≠ .exited)
    {ns : List Invocation} (quiet : ∀ n ∈ ns, n.IsQuiet) :
    (s.hearAll ns).1.phase ≠ .exited := by
  intro exited
  have stopped := (hearAll_phase_exited_iff working ns).mp exited
  obtain ⟨n, mem, exit⟩ := List.any_eq_true.mp stopped
  exact (quiet n mem).1 (of_decide_eq_true exit)

end Server

/-! ### Looking first -/

namespace Exchange

variable {α β : Type}

/-- No document is looked up. -/
def IsBlind : Exchange α → Prop
  | done _ => True
  | log _ next => next.IsBlind
  | notify _ next => next.IsBlind
  | ask _ next => ∀ reply, (next reply).IsBlind
  | document _ _ => False
  | isFile _ next => ∀ found, (next found).IsBlind
  | readFile _ next => ∀ contents, (next contents).IsBlind

/-- No document is looked up behind a request. -/
def LooksFirst : Exchange α → Prop
  | done _ => True
  | log _ next => next.LooksFirst
  | notify _ next => next.LooksFirst
  | ask _ next => ∀ reply, (next reply).IsBlind
  | document _ next => ∀ copy, (next copy).LooksFirst
  | isFile _ next => ∀ found, (next found).LooksFirst
  | readFile _ next => ∀ contents, (next contents).LooksFirst

theorem IsBlind.looksFirst {x : Exchange α} (blind : x.IsBlind) : x.LooksFirst := by
  induction x with
  | done a => trivial
  | log r next ih => exact ih blind
  | notify n next ih => exact ih blind
  | ask q next _ => exact blind
  | document u next _ => exact blind.elim
  | isFile p next ih => exact fun found => ih found (blind found)
  | readFile p next ih => exact fun contents => ih contents (blind contents)

theorem IsBlind.bind {x : Exchange α} (blind : x.IsBlind) {f : α → Exchange β}
    (then_blind : ∀ a, (f a).IsBlind) : (x.bind f).IsBlind := by
  induction x with
  | done a => exact then_blind a
  | log r next ih => exact ih blind
  | notify n next ih => exact ih blind
  | ask q next ih => exact fun reply => ih reply (blind reply)
  | document u next _ => exact blind.elim
  | isFile p next ih => exact fun found => ih found (blind found)
  | readFile p next ih => exact fun contents => ih contents (blind contents)

theorem LooksFirst.bind {x : Exchange α} (first : x.LooksFirst) {f : α → Exchange β}
    (then_blind : ∀ a, (f a).IsBlind) : (x.bind f).LooksFirst := by
  induction x with
  | done a => exact (then_blind a).looksFirst
  | log r next ih => exact ih first
  | notify n next ih => exact ih first
  | ask q next _ => exact fun reply => (first reply).bind then_blind
  | document u next ih => exact fun copy => ih copy (first copy)
  | isFile p next ih => exact fun found => ih found (first found)
  | readFile p next ih => exact fun contents => ih contents (first contents)

end Exchange

namespace Session

variable {α β : Type} {disk : Disk} {client : Client}

/-- What a conversation comes to where the documents stay as they are: the messages that it sends,
and its value. -/
def frozen (disk : Disk) (client : Client) (s : Server) : Exchange α → List Outgoing × α
  | .done a => ([], a)
  | .log _ next => frozen disk client s next
  | .notify n next =>
    let o := frozen disk client s next
    (.notification n :: o.1, o.2)
  | .ask q next =>
    if client.connected then
      let o := frozen disk client s (next (client.answer q).reply)
      (.request q :: o.1, o.2)
    else frozen disk client s (next (.failure .notInitialized))
  | .document u next => frozen disk client s (next (s.document? u))
  | .isFile p next => frozen disk client s (next (disk.isFile p))
  | .readFile p next => frozen disk client s (next ((disk.read p).mapError Disk.Failure.message))

theorem frozen_ask (connected : client.connected = true) (s : Server) (q : ClientRequest)
    (next : Reply → Exchange α) :
    frozen disk client s (.ask q next) =
      (.request q :: (frozen disk client s (next (client.answer q).reply)).1,
        (frozen disk client s (next (client.answer q).reply)).2) := by
  show (if client.connected then _ else _) = _
  rw [if_pos connected]

theorem frozen_ask_of_not_connected (h : client.connected ≠ true) (s : Server) (q : ClientRequest)
    (next : Reply → Exchange α) :
    frozen disk client s (.ask q next) = frozen disk client s (next (.failure .notInitialized)) :=
  if_neg h

theorem frozen_bind (s : Server) (x : Exchange α) (f : α → Exchange β) :
    frozen disk client s (x.bind f) =
      ((frozen disk client s x).1 ++ (frozen disk client s (f (frozen disk client s x).2)).1,
        (frozen disk client s (f (frozen disk client s x).2)).2) := by
  induction x with
  | done a => rfl
  | log r next ih => exact ih
  | notify n next ih =>
    show (_ :: (frozen disk client s (next.bind f)).1, (frozen disk client s (next.bind f)).2) = _
    rw [ih]
    rfl
  | ask q next ih =>
    show frozen disk client s (.ask q fun reply => (next reply).bind f) = _
    by_cases connected : client.connected = true
    · rw [frozen_ask connected, frozen_ask connected, ih]
      rfl
    · rw [frozen_ask_of_not_connected connected, frozen_ask_of_not_connected connected, ih]
  | document u next ih => exact ih _
  | isFile p next ih => exact ih _
  | readFile p next ih => exact ih _

/-- What is left of a conversation when it has looked up what it looks up first. -/
def settled (disk : Disk) (s : Server) : Exchange α → Exchange α
  | .document u next => settled disk s (next (s.document? u))
  | .isFile p next => settled disk s (next (disk.isFile p))
  | .readFile p next => settled disk s (next ((disk.read p).mapError Disk.Failure.message))
  | x => x

theorem frozen_settled (s : Server) (x : Exchange α) :
    frozen disk client s (settled disk s x) = frozen disk client s x := by
  induction x with
  | document u next ih => exact ih _
  | isFile p next ih => exact ih _
  | readFile p next ih => exact ih _
  | _ => rfl

/-- Of a client, only the replies matter. -/
theorem frozen_congr {c₁ c₂ : Client} (connected : c₁.connected = c₂.connected)
    (replies : ∀ q, (c₁.answer q).reply = (c₂.answer q).reply) (s : Server) (x : Exchange α) :
    frozen disk c₁ s x = frozen disk c₂ s x := by
  induction x with
  | done a => rfl
  | log r next ih => exact ih
  | notify n next ih => simp only [frozen, ih]
  | ask q next ih => simp only [frozen, connected, replies, ih]
  | document u next ih => exact ih _
  | isFile p next ih => exact ih _
  | readFile p next ih => exact ih _

/-- What is seen of a conversation while it runs: its messages, and its value if it comes to an
end. -/
def Outcome.seen (o : Outcome α) : List Outgoing × Option α := (messages o.events, o.value)

theorem seen_ask (connected : client.connected = true) (quiet : client.IsQuiet) {s : Server}
    (working : s.phase ≠ .exited) (q : ClientRequest) (next : Reply → Exchange α) :
    (run disk client s (.ask q next)).seen =
      let later := run disk client (s.hearAll (client.answer q).before).1
        (next (client.answer q).reply)
      (.request q :: later.seen.1, later.seen.2) := by
  have goes_on := Server.hearAll_phase_ne_exited working (quiet q)
  rw [run_ask, if_pos connected]
  dsimp only
  rw [if_neg goes_on]
  show (messages (.sent (.request q) :: (s.hearAll (client.answer q).before).2 ++ _), _) = _
  rw [messages_append]
  show (.request q :: (messages (s.hearAll (client.answer q).before).2 ++ _), _) = _
  rw [Server.messages_hearAll s (quiet q)]
  rfl

/-- A conversation that looks up no document comes to the same whatever the documents are. -/
theorem run_isBlind (quiet : client.IsQuiet) {x : Exchange α} (blind : x.IsBlind) {s : Server}
    (working : s.phase ≠ .exited) (s₀ : Server) :
    (run disk client s x).seen =
      ((frozen disk client s₀ x).1, some (frozen disk client s₀ x).2) := by
  induction x generalizing s with
  | done a => rfl
  | log r next ih => exact ih blind working
  | notify n next ih =>
    have later := ih blind working
    show (.notification n :: (run disk client s next).seen.1, (run disk client s next).seen.2) = _
    rw [later]
    rfl
  | ask q next ih =>
    by_cases connected : client.connected = true
    · have goes_on := Server.hearAll_phase_ne_exited working (quiet q)
      rw [seen_ask connected quiet working, frozen_ask connected]
      dsimp only
      rw [ih _ (blind _) goes_on]
    · have later := ih (.failure .notInitialized) (blind _) working
      rw [run_ask, if_neg connected, later, frozen_ask_of_not_connected connected]
  | document u next _ => exact blind.elim
  | isFile p next ih => exact ih _ (blind _) working
  | readFile p next ih => exact ih _ (blind _) working

/-- A conversation that looks up documents before its first request only comes to the same as if
the documents stayed as it finds them. -/
theorem run_looksFirst (quiet : client.IsQuiet) {x : Exchange α} (first : x.LooksFirst)
    {s : Server} (working : s.phase ≠ .exited) :
    (run disk client s x).seen = ((frozen disk client s x).1, some (frozen disk client s x).2) := by
  induction x with
  | done a => rfl
  | log r next ih => exact ih first
  | notify n next ih =>
    have later := ih first
    show (.notification n :: (run disk client s next).seen.1, (run disk client s next).seen.2) = _
    rw [later]
    rfl
  | ask q next _ =>
    -- From here on no document is looked up, so the state after the wait does not matter.
    have blind : (Exchange.ask q next).IsBlind := first
    exact run_isBlind quiet blind working s
  | document u next ih => exact ih _ (first _)
  | isFile p next ih => exact ih _ (first _)
  | readFile p next ih => exact ih _ (first _)

/-- What the client learns from the value of a conversation, if that came to an end. -/
def reactionTo : Option (Option Response) → Reaction
  | some (some response) => .answered response
  | some none => .silent
  | none => .answered (.refused .cancelled)

/-- A request brings about the conversation for it, unless the server has stopped. -/
theorem receive_request {s : Server} (working : s.phase ≠ .exited) (id : MessageId)
    (r : Invocation) :
    receive disk client s (.request id r) =
      let o := run disk client (s.answer r).1 (s.answer r).2
      (o.server, o.events, reactionTo o.value) := by
  unfold receive
  rw [if_neg working]
  rfl

theorem receive_notification {s : Server} (working : s.phase ≠ .exited) (n : Invocation) :
    receive disk client s (.notification n) = ((s.hear n).1, (s.hear n).2, .silent) := by
  unfold receive
  rw [if_neg working]

/-- The notifications that come in while the requests wait. -/
def meanwhile (client : Client) (qs : List ClientRequest) : List Invocation :=
  qs.flatMap fun q => (client.answer q).before

/-- A conversation leaves the server in the state that the notifications leave it in. -/
theorem run_server (disk : Disk) (client : Client) (s : Server) (x : Exchange α) :
    (run disk client s x).server =
      (s.hearAll (meanwhile client (requests (run disk client s x).events))).1 := by
  induction x generalizing s with
  | done a => rfl
  | log r next ih => exact ih s
  | notify n next ih => exact ih s
  | ask q next ih =>
    rw [run_ask]
    split
    · dsimp only
      split
      · have alone : requests (.sent (.request q) ::
            (s.hearAll (client.answer q).before).2.filter Event.isLogged) = [q] :=
          congrArg (q :: ·) (requests_filter_isLogged _)
        rw [alone]
        show _ = (s.hearAll ((client.answer q).before ++ [])).1
        rw [List.append_nil]
      · have heard := s.requests_hearAll (client.answer q).before
        show (run _ _ _ _).server = (s.hearAll (meanwhile client (q :: requests (_ ++ _)))).1
        rw [requests_append, heard, List.nil_append, ih]
        exact (s.hearAll_append _ _).symm
    · exact ih _ s
  | document u next ih => exact ih _ s
  | isFile p next ih => exact ih _ s
  | readFile p next ih => exact ih _ s

end Session

end RuleOff
