import RuleOff.Proofs.Session.Hearing
import RuleOff.Session

/-!
# Requests of a session

Which requests a session sends to its client. Hearing a notification sends none, so the requests of
a conversation are those it asks itself, up to the point where the server is stopped.

## Main definitions

* `requests`: the requests among what was seen.

## Main statements

* `Session.requests_run_ask`: the requests of a conversation, one after the other.
-/

namespace RuleOff

/-- The request that was seen, if it was one. -/
def Event.request? : Event → Option ClientRequest
  | sent (.request q) => some q
  | _ => none

/-- The requests among what was seen, in their order. -/
def requests (events : List Event) : List ClientRequest := events.filterMap Event.request?

theorem requests_append (xs ys : List Event) :
    requests (xs ++ ys) = requests xs ++ requests ys := List.filterMap_append

theorem requests_map_logged (rs : List LogRecord) : requests (rs.map .logged) = [] := by
  unfold requests
  rw [List.filterMap_map, List.filterMap_eq_nil_iff]
  intro r _
  rfl

/-- The log holds no requests. -/
theorem requests_filter_isLogged (events : List Event) :
    requests (events.filter Event.isLogged) = [] := by
  unfold requests
  rw [List.filterMap_eq_nil_iff]
  intro event mem
  cases event with
  | logged r => rfl
  | sent m => exact Bool.noConfusion (List.mem_filter.mp mem).2

namespace Server

theorem requests_hearRunning (s : Server) (n : Invocation) :
    requests (s.hearRunning n).2 = [] := by
  obtain ⟨f, hearing, same⟩ := exists_hearing n
  rw [same]
  cases hearing with
  | configured v => exact requests_map_logged _
  | _ => rfl

theorem requests_hear (s : Server) (n : Invocation) : requests (s.hear n).2 = [] := by
  unfold hear
  split
  · rfl
  · split
    · exact requests_hearRunning s n
    · rfl

theorem requests_hearAll (s : Server) (ns : List Invocation) :
    requests (s.hearAll ns).2 = [] := by
  induction ns generalizing s with
  | nil => rfl
  | cons n ns ih =>
    unfold hearAll
    rw [requests_append, requests_hear, ih]
    rfl

end Server

namespace Session

variable {α β : Type} {disk : Disk} {client : Client}

theorem run_ask (s : Server) (q : ClientRequest) (next : Reply → Exchange α) :
    run disk client s (.ask q next) =
      if client.connected then
        let a := client.answer q
        let (s, heard) := s.hearAll a.before
        if s.phase = .exited then ⟨s, .sent (.request q) :: heard.filter Event.isLogged, none⟩
        else (run disk client s (next a.reply)).after (.sent (.request q) :: heard)
      else run disk client s (next (.failure .notInitialized)) := rfl

theorem run_document (s : Server) (u : Uri) (next : Option Document → Exchange α) :
    run disk client s (.document u next) = run disk client s (next (s.document? u)) := rfl

theorem run_isFile (s : Server) (p : Path) (next : Bool → Exchange α) :
    run disk client s (.isFile p next) = run disk client s (next (disk.isFile p)) := rfl

theorem run_readFile (s : Server) (p : Path) (next : Except Text Text → Exchange α) :
    run disk client s (.readFile p next) =
      run disk client s (next ((disk.read p).mapError Disk.Failure.message)) := rfl

/-- A request of a conversation is the first to be sent, and the rest follows unless the server is
stopped while it waits. -/
theorem requests_run_ask (connected : client.connected = true) (s : Server) (q : ClientRequest)
    (next : Reply → Exchange α) (running : s.phase ≠ .exited) :
    requests (run disk client s (.ask q next)).events =
      q :: if stops (client.answer q).before then []
        else requests (run disk client (s.hearAll (client.answer q).before).1
          (next (client.answer q).reply)).events := by
  have stopped := s.hearAll_phase_exited_iff running (client.answer q).before
  rw [run_ask, if_pos connected]
  by_cases h : stops (client.answer q).before = true
  · dsimp only
    rw [if_pos (stopped.mpr h), if_pos h]
    -- Of what is seen after the request only the log remains.
    exact congrArg (q :: ·) (requests_filter_isLogged _)
  · dsimp only
    rw [if_neg fun he => h (stopped.mp he), if_neg h]
    change q :: requests (_ ++ _) = _
    rw [requests_append, Server.requests_hearAll]
    rfl

/-- A request with nothing behind it is the only one, if it reaches the client. -/
theorem requests_run_last (s : Server) (q : ClientRequest) {next : Reply → Exchange α}
    (silent : ∀ s reply, requests (run disk client s (next reply)).events = []) :
    requests (run disk client s (.ask q next)).events = if client.connected then [q] else [] := by
  rw [run_ask]
  by_cases connected : client.connected = true
  · rw [if_pos connected, if_pos connected]
    dsimp only
    split
    · exact congrArg (q :: ·) (requests_filter_isLogged _)
    · change q :: requests (_ ++ _) = _
      rw [requests_append, Server.requests_hearAll, silent]
      rfl
  · rw [if_neg connected, if_neg connected]
    exact silent s _

/-- A client that is not reached gets no request. -/
theorem requests_run_of_not_connected (h : client.connected ≠ true) (s : Server)
    (x : Exchange α) : requests (run disk client s x).events = [] := by
  induction x generalizing s with
  | done a => rfl
  | log r next ih => exact ih s
  | notify n next ih => exact ih s
  | ask q next ih =>
    rw [run_ask, if_neg h]
    exact ih _ s
  | document u next ih => exact ih _ s
  | isFile p next ih => exact ih _ s
  | readFile p next ih => exact ih _ s

/-- What follows a conversation sends the requests that it sends itself, and no others if it asks
nothing. -/
theorem requests_run_bind {f : α → Exchange β}
    (silent : ∀ s a, requests (run disk client s (f a)).events = []) (s : Server)
    (x : Exchange α) :
    requests (run disk client s (x.bind f)).events = requests (run disk client s x).events := by
  induction x generalizing s with
  | done a => exact silent s a
  | log r next ih => exact ih s
  | notify n next ih => exact ih s
  | ask q next ih =>
    unfold Exchange.bind
    rw [run_ask, run_ask]
    split
    · dsimp only
      split
      · rfl
      · change requests (_ ++ _) = requests (_ ++ _)
        rw [requests_append, requests_append, ih]
    · exact ih _ s
  | document u next ih => exact ih _ s
  | isFile p next ih => exact ih _ s
  | readFile p next ih => exact ih _ s

end Session

end RuleOff
