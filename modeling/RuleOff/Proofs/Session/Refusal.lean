import RuleOff.Proofs.Session.History

/-!
# Refused messages

A message is refused where the session is not in the phase for it, where it is not sent in the way of
its method, or where the server cannot make sense of it. The server gets to know nothing by it: of all
that it remembers, only the phase may change, by a `shutdown` or an `exit` that is not sent as it
should be.

## Main definitions

* `Server.Refuses`: the messages that a server refuses.
* `Server.heeded`: the notifications among some that a server does not refuse.
* `Server.Matches`: a server that has not got the refused messages.

## Main statements

* `Session.receive_of_refuses`: what comes of a refused message.
* `Server.Matches.hearAll`: notifications without those that are refused.
* `Session.run_matches`: a conversation in which the refused notifications are left out.
-/

namespace RuleOff

/-- Whether messages of the method are sent as requests. -/
def Method.isRequest : Method → Bool
  | start | shutdown | codeAction | executeCommand | unofferedRequest => true
  | _ => false

/-- Whether messages of the method are sent as notifications. -/
def Method.isNotification : Method → Bool
  | ready | exit | didOpen | didChange | didClose | didChangeConfiguration | didChangeFolders
  | unofferedNotification => true
  | _ => false

/-- Whether the parameters are some of the method. -/
def Invocation.isDecodable (n : Invocation) : Bool :=
  match Method.ofName n.method with
  | .start => (Server.readParams? StartParams.decode n.params).isSome
  | .ready => (Server.readParams? decodeReady n.params).isSome
  | .shutdown => n.params.isNone
  | .didOpen => (Server.readParams? OpenParams.decode n.params).isSome
  | .didChange => (Server.readParams? ChangeParams.decode n.params).isSome
  | .didClose => (Server.readParams? decodeDocument n.params).isSome
  | .didChangeConfiguration => (Server.readParams? decodeConfiguration n.params).isSome
  | .didChangeFolders => (Server.readParams? FolderChange.decode n.params).isSome
  | .codeAction => (Server.readParams? CodeActionParams.decode n.params).isSome
  | .executeCommand => (Server.readParams? CommandParams.decode n.params).isSome
  | .unofferedRequest => Feature.accepts n.method n.params
  | .exit | .unofferedNotification | .unknown => true

namespace Server

/-- The server refuses the message: it answers with an error, or ignores it. -/
inductive Refuses (s : Server) : Message → Prop
  | stopped (m : Message) (phase : s.phase = .exited) : s.Refuses m
  /-- A notification before the start or behind the shutdown. -/
  | unheard {n : Invocation} (phase : s.phase ≠ .running)
    (other : Method.ofName n.method ≠ .exit) : s.Refuses (.notification n)
  | requestWithoutId {n : Invocation} (method : (Method.ofName n.method).isRequest = true) :
    s.Refuses (.notification n)
  | unofferedNotification {n : Invocation}
    (method : Method.ofName n.method = .unofferedNotification) : s.Refuses (.notification n)
  | unknownNotification {n : Invocation} (method : Method.ofName n.method = .unknown) :
    s.Refuses (.notification n)
  | undecodableNotification {n : Invocation} (params : n.isDecodable = false) :
    s.Refuses (.notification n)
  /-- A request before the start or behind the shutdown. -/
  | untimely {id : MessageId} {r : Invocation} (phase : s.phase ≠ .running)
    (other : Method.ofName r.method ≠ .start) : s.Refuses (.request id r)
  | secondStart {id : MessageId} {r : Invocation} (phase : s.phase ≠ .fresh)
    (method : Method.ofName r.method = .start) : s.Refuses (.request id r)
  | notificationWithId {id : MessageId} {r : Invocation}
    (method : (Method.ofName r.method).isNotification = true) : s.Refuses (.request id r)
  | unknownRequest {id : MessageId} {r : Invocation} (method : Method.ofName r.method = .unknown) :
    s.Refuses (.request id r)
  | unofferedRequest {id : MessageId} {r : Invocation}
    (method : Method.ofName r.method = .unofferedRequest) : s.Refuses (.request id r)
  | undecodableRequest {id : MessageId} {r : Invocation} (params : r.isDecodable = false) :
    s.Refuses (.request id r)
  | unknownCommand {id : MessageId} {r : Invocation} {p : CommandParams}
    (method : Method.ofName r.method = .executeCommand)
    (decoded : readParams? CommandParams.decode r.params = some p)
    (command : p.command ≠ CodeAction.disableCommand) : s.Refuses (.request id r)
  | missingRule {id : MessageId} {r : Invocation} {p : CommandParams}
    (method : Method.ofName r.method = .executeCommand)
    (decoded : readParams? CommandParams.decode r.params = some p)
    (argument : ruleArgument? p.arguments = none) : s.Refuses (.request id r)

/-- Whether the server heeds the message, which is to say, does not refuse it. -/
def heeds (s : Server) : Message → Bool
  | .notification n =>
    match Method.ofName n.method with
    | .exit => s.phase ≠ .exited
    | .ready | .didOpen | .didChange | .didClose | .didChangeConfiguration | .didChangeFolders =>
      s.phase = .running && n.isDecodable
    | _ => false
  | .request _ r =>
    match Method.ofName r.method with
    | .start => s.phase = .fresh && r.isDecodable
    | .shutdown | .codeAction => s.phase = .running && r.isDecodable
    | .executeCommand =>
      s.phase = .running &&
        match readParams? CommandParams.decode r.params with
        | some p => p.command = CodeAction.disableCommand && (ruleArgument? p.arguments).isSome
        | none => false
    | _ => false

variable {s s' : Server}

theorem heeds_of_not_refuses {m : Message} (h : ¬ s.Refuses m) : s.heeds m = true := by
  have going : s.phase ≠ .exited := fun phase => h (.stopped m phase)
  cases m with
  | notification n =>
    have running : Method.ofName n.method ≠ .exit → s.phase = .running := fun other =>
      Decidable.byContradiction fun phase => h (.unheard phase other)
    have decodable : n.isDecodable = true :=
      Bool.of_not_eq_false fun params => h (.undecodableNotification params)
    have request := fun e => h (.requestWithoutId e)
    have unoffered := fun e => h (.unofferedNotification e)
    have unknown := fun e => h (.unknownNotification e)
    unfold heeds
    cases method : Method.ofName n.method <;> simp_all [Method.isRequest]
  | request id r =>
    have running : Method.ofName r.method ≠ .start → s.phase = .running := fun other =>
      Decidable.byContradiction fun phase => h (.untimely phase other)
    have fresh : Method.ofName r.method = .start → s.phase = .fresh := fun method =>
      Decidable.byContradiction fun phase => h (.secondStart phase method)
    have decodable : r.isDecodable = true :=
      Bool.of_not_eq_false fun params => h (.undecodableRequest params)
    have notification := fun e => h (.notificationWithId e)
    have unknown := fun e => h (.unknownRequest e)
    have unoffered := fun e => h (.unofferedRequest e)
    unfold heeds
    cases method : Method.ofName r.method
    case executeCommand =>
      cases decoded : readParams? CommandParams.decode r.params with
      | none => simp [Invocation.isDecodable, method, decoded] at decodable
      | some p =>
        have command : p.command = CodeAction.disableCommand :=
          Decidable.byContradiction fun other => h (.unknownCommand method decoded other)
        have argument : ruleArgument? p.arguments ≠ none := fun missing =>
          h (.missingRule method decoded missing)
        have work : s.phase = .running := running (by rw [method]; exact Method.noConfusion)
        simp [method, decoded, work, command, Option.isSome_iff_ne_none.mpr argument]
    all_goals simp_all [Method.isNotification]

theorem not_heeds_of_refuses {m : Message} (h : s.Refuses m) : s.heeds m = false := by
  cases h with
  | stopped m phase =>
    cases m with
    | notification n => cases method : Method.ofName n.method <;> simp [heeds, method, phase]
    | request id r => cases method : Method.ofName r.method <;> simp [heeds, method, phase]
  | @unheard n phase other => cases method : Method.ofName n.method <;> simp_all [heeds]
  | @requestWithoutId n request =>
    cases method : Method.ofName n.method <;> simp_all [heeds, Method.isRequest]
  | unofferedNotification method => simp [heeds, method]
  | unknownNotification method => simp [heeds, method]
  | @undecodableNotification n params =>
    cases method : Method.ofName n.method <;> simp_all [heeds, Invocation.isDecodable]
  | @untimely id r phase other => cases method : Method.ofName r.method <;> simp_all [heeds]
  | secondStart phase method => simp [heeds, method, phase]
  | @notificationWithId id r notification =>
    cases method : Method.ofName r.method <;> simp_all [heeds, Method.isNotification]
  | unknownRequest method => simp [heeds, method]
  | unofferedRequest method => simp [heeds, method]
  | @undecodableRequest id r params =>
    cases method : Method.ofName r.method <;> simp_all [heeds, Invocation.isDecodable]
  | unknownCommand method decoded command => simp [heeds, method, decoded, command]
  | missingRule method decoded argument => simp [heeds, method, decoded, argument]

theorem refuses_iff {m : Message} : s.Refuses m ↔ s.heeds m = false := by
  refine ⟨not_heeds_of_refuses, fun h => Classical.byContradiction fun none => ?_⟩
  rw [heeds_of_not_refuses none] at h
  exact Bool.noConfusion h

instance (s : Server) (m : Message) : Decidable (s.Refuses m) := decidable_of_iff _ refuses_iff.symm

/-! ### What a refused message does -/

/-- The server, but for a phase to which a message that is not sent as it should be may take it. -/
inductive Remembers (s : Server) : Server → Prop
  | same : s.Remembers s
  | shutDown (running : s.phase = .running) : s.Remembers { s with phase := .shutDown }
  | exited : s.Remembers { s with phase := .exited }

theorem Remembers.eq (h : s.Remembers s') :
    s'.documents = s.documents ∧ s'.folders = s.folders ∧ s'.settings = s.settings := by
  cases h <;> exact ⟨rfl, rfl, rfl⟩

theorem Remembers.phase_of_exited (h : s.Remembers s') (exited : s.phase = .exited) :
    s'.phase = .exited := by
  cases h with
  | same => exact exited
  | shutDown running => exact Phase.noConfusion (exited.symm.trans running)
  | exited => rfl

theorem hear_of_refuses {n : Invocation} (h : s.Refuses (.notification n)) :
    s.Remembers (s.hear n).1 ∧ (s.hear n).2 = [] := by
  have none := not_heeds_of_refuses h
  unfold hear
  split
  · exact ⟨.exited, rfl⟩
  · split
    · next other running =>
      unfold hearRunning
      simp only [heeds, running, Invocation.isDecodable] at none
      -- What is left to be refused cannot be decoded, or is no notification.
      cases method : Method.ofName n.method <;> simp_all
      case shutdown => exact .shutDown running
      all_goals exact .same
    · exact ⟨.same, rfl⟩

/-- The conversation ends on the spot, after some lines of the log, in an error or without an
answer. -/
inductive IsRefusal : Exchange (Option Response) → Prop
  | ignored : IsRefusal (.done none)
  | refused {why : Refusal} (final : why ≠ .cancelled) : IsRefusal (refuse why)
  | logged {r : LogRecord} {next : Exchange (Option Response)} (h : IsRefusal next) :
    IsRefusal (.log r next)

theorem answerRunning_of_refuses {id : MessageId} {r : Invocation}
    (h : s.Refuses (.request id r)) (running : s.phase = .running) :
    IsRefusal (s.answerRunning r) := by
  have none := not_heeds_of_refuses h
  unfold answerRunning
  split
  case h_1 method =>
    have undecodable : readParams? CodeActionParams.decode r.params = Option.none := by
      simpa [heeds, method, running, Invocation.isDecodable] using none
    rw [undecodable]
    exact .refused Refusal.noConfusion
  case h_2 method =>
    simp only [heeds, method, running] at none
    split
    · next p decoded =>
      rw [decoded] at none
      unfold runCommand
      split
      · exact .logged (.refused Refusal.noConfusion)
      · next command =>
        have missing : ruleArgument? p.arguments = Option.none := by simp_all
        rw [missing]
        exact .refused Refusal.noConfusion
    · exact .refused Refusal.noConfusion
  case h_3 => split <;> exact .refused Refusal.noConfusion
  case h_4 => exact .refused Refusal.noConfusion

theorem answer_of_refuses {id : MessageId} {r : Invocation} (h : s.Refuses (.request id r)) :
    s.Remembers (s.answer r).1 ∧ IsRefusal (s.answer r).2 := by
  have none := not_heeds_of_refuses h
  have early : refusalIn s.phase ≠ .cancelled := by
    unfold refusalIn
    split <;> exact Refusal.noConfusion
  unfold answer
  split
  case h_1 =>
    refine ⟨.same, ?_⟩
    split
    · exact .ignored
    · exact .refused Refusal.noConfusion
  case h_2 => exact ⟨.exited, .ignored⟩
  case h_3 method =>
    split
    · next fresh =>
      have undecodable : readParams? StartParams.decode r.params = Option.none := by
        simpa [heeds, method, fresh, Invocation.isDecodable] using none
      rw [undecodable]
      exact ⟨.same, .refused Refusal.noConfusion⟩
    · exact ⟨.same, .refused Refusal.noConfusion⟩
  case h_4 method =>
    split
    · next running =>
      have params : r.params.isNone = false := by
        simpa [heeds, method, running, Invocation.isDecodable] using none
      rw [params]
      exact ⟨.shutDown running, .refused Refusal.noConfusion⟩
    · exact ⟨.same, .refused early⟩
  case h_5 =>
    split
    · next running => exact ⟨.same, answerRunning_of_refuses h running⟩
    · exact ⟨.same, .refused early⟩

end Server

namespace Session

variable {α : Type} {disk : Disk} {client client' : Client} {s s' : Server}

/-- What comes of a refused message: the server knows what it knew, the client gets no message, and the
answer is an error, if there is one. -/
structure IsRefused (s : Server) (o : Server × List Event × Reaction) : Prop where
  memory : s.Remembers o.1
  unseen : messages o.2.1 = []
  reaction : o.2.2 = .silent ∨ o.2.2 = .stopped ∨ o.2.2 = .unreadable ∨
    ∃ why, why ≠ Refusal.cancelled ∧ o.2.2 = .answered (.refused why)

theorem isRefused_run {t : Server} (memory : s.Remembers t) {x : Exchange (Option Response)}
    (refusal : Server.IsRefusal x) :
    let o := run disk client t x
    IsRefused s (o.server, o.events, reactionTo o.value) := by
  induction refusal with
  | ignored => exact ⟨memory, rfl, .inl rfl⟩
  | refused final => exact ⟨memory, rfl, .inr (.inr (.inr ⟨_, final, rfl⟩))⟩
  | logged _ ih => exact ⟨ih.memory, ih.unseen, ih.reaction⟩

theorem receive_of_refuses {m : Message} (h : s.Refuses m) :
    IsRefused s (receive disk client s m) := by
  by_cases exited : s.phase = .exited
  · have stopped : receive disk client s m = (s, [], .stopped) := if_pos exited
    rw [stopped]
    exact ⟨.same, rfl, .inr (.inl rfl)⟩
  · cases m with
    | notification n =>
      obtain ⟨memory, nothing⟩ := Server.hear_of_refuses h
      rw [receive_notification exited, nothing]
      exact ⟨memory, rfl, .inl rfl⟩
    | request id r =>
      obtain ⟨memory, refusal⟩ := Server.answer_of_refuses h
      rw [receive_request exited]
      exact isRefused_run memory refusal

end Session

/-! ### Without the refused messages -/

namespace Server

variable {s s' : Server}

/-- The notifications that the server heeds when it hears some of them, one after the other. -/
def heeded (s : Server) : List Invocation → List Invocation
  | [] => []
  | n :: ns =>
    if s.Refuses (.notification n) then (s.hear n).1.heeded ns else n :: (s.hear n).1.heeded ns

/-- The servers know the same and are equally far, but for a shutdown that the second has been
spared. -/
structure Matches (s s' : Server) : Prop where
  documents : s.documents = s'.documents
  folders : s.folders = s'.folders
  settings : s.settings = s'.settings
  phase : s.phase = s'.phase ∨ s.phase = .shutDown ∧ s'.phase = .running

namespace Matches

protected theorem refl (s : Server) : Matches s s := ⟨rfl, rfl, rfl, .inl rfl⟩

/-- Up to the shutdown there is no difference. -/
theorem eq (h : Matches s s') (early : s.phase ≠ .shutDown) : s = s' := by
  obtain ⟨documents, folders, settings, phase | ⟨shut, -⟩⟩ := h
  · cases s
    cases s'
    simp_all
  · exact absurd shut early

theorem exited_iff (h : Matches s s') : s.phase = .exited ↔ s'.phase = .exited := by
  rcases h.phase with same | ⟨shut, running⟩
  · rw [same]
  · rw [shut, running]
    exact ⟨Phase.noConfusion, Phase.noConfusion⟩

/-- The first server refuses a message that the second does not get. -/
theorem remembers {t : Server} (h : Matches s s') (memory : s.Remembers t) :
    Matches t s' ∨ t.phase = .exited := by
  cases memory with
  | same => exact .inl h
  | shutDown running =>
    have same : s = s' := h.eq (by rw [running]; exact Phase.noConfusion)
    rw [← same]
    exact .inl ⟨rfl, rfl, rfl, .inr ⟨rfl, running⟩⟩
  | exited => exact .inr rfl

/-- Both servers get a notification that the first one heeds. -/
theorem hear {n : Invocation} (h : Matches s s') (heeds : ¬ s.Refuses (.notification n)) :
    Matches (s.hear n).1 (s'.hear n).1 ∧ (s.hear n).2 = (s'.hear n).2 := by
  by_cases exit : Method.ofName n.method = .exit
  · have stops : ∀ s : Server, s.hear n = ({ s with phase := .exited }, []) := fun s => if_pos exit
    rw [stops, stops]
    exact ⟨⟨h.documents, h.folders, h.settings, .inl rfl⟩, rfl⟩
  · have running : s.phase = .running :=
      Decidable.byContradiction fun phase => heeds (.unheard phase exit)
    have same : s = s' := h.eq (by rw [running]; exact Phase.noConfusion)
    rw [← same]
    exact ⟨.refl _, rfl⟩

theorem hear_of_refuses {n : Invocation} (h : Matches s s') (refuses : s.Refuses (.notification n)) :
    Matches (s.hear n).1 s' ∧ (s.hear n).2 = [] := by
  obtain ⟨memory, nothing⟩ := Server.hear_of_refuses refuses
  refine ⟨?_, nothing⟩
  rcases h.remembers memory with still | exited
  · exact still
  · -- An `exit` is refused by a server only that has stopped already.
    have was : s.phase = .exited := Decidable.byContradiction fun working => by
      have exit := (hear_phase_exited_iff working n).mp exited
      have none := not_heeds_of_refuses refuses
      simp [heeds, exit, working] at none
    obtain ⟨documents, folders, settings⟩ := memory.eq
    exact ⟨documents.trans h.documents, folders.trans h.folders, settings.trans h.settings,
      .inl (exited.trans (h.exited_iff.mp was).symm)⟩

/-- The servers hear the same of notifications from which those are left out for the second that the
first refuses. -/
theorem hearAll (h : Matches s s') (ns : List Invocation) :
    Matches (s.hearAll ns).1 (s'.hearAll (s.heeded ns)).1 ∧
      (s.hearAll ns).2 = (s'.hearAll (s.heeded ns)).2 := by
  induction ns generalizing s s' with
  | nil => exact ⟨h, rfl⟩
  | cons n ns ih =>
    unfold heeded
    split
    · next refuses =>
      obtain ⟨first, nothing⟩ := h.hear_of_refuses refuses
      obtain ⟨rest, more⟩ := ih first
      refine ⟨rest, ?_⟩
      change (s.hear n).2 ++ ((s.hear n).1.hearAll ns).2 = _
      rw [nothing, more]
      rfl
    · next heeds =>
      obtain ⟨first, seen⟩ := h.hear heeds
      obtain ⟨rest, more⟩ := ih first
      refine ⟨rest, ?_⟩
      change (s.hear n).2 ++ ((s.hear n).1.hearAll ns).2 = (s'.hear n).2 ++ _
      rw [seen, more]
      rfl

end Matches

/-- A shutdown without an identifier, behind which nothing is heeded until the server is stopped. -/
example : (({ phase := .running } : Server).heeded [⟨"shutdown".toList, none⟩,
    ⟨"initialized".toList, some (.arr [])⟩, ⟨"exit".toList, none⟩]) =
      [⟨"exit".toList, none⟩] := by
  rfl

end Server

namespace Session

variable {α : Type} {disk : Disk} {client client' : Client} {s s' : Server}

/-- The second client answers the requests of a conversation as the first does, and lets the server
hear meanwhile what it does not refuse. -/
structure Spares (client client' : Client) (sent : List (Server × ClientRequest)) : Prop where
  connected : client'.connected = client.connected
  answer : ∀ a ∈ sent, client'.answer a.2 =
    ⟨a.1.heeded (client.answer a.2).before, (client.answer a.2).reply⟩

/-- A conversation comes to the same if the server does not get the notifications that it refuses. -/
theorem run_matches {x : Exchange α} (h : s.Matches s')
    (spares : Spares client client' (asked disk client s x)) :
    (run disk client s x).server.Matches (run disk client' s' x).server ∧
      (run disk client s x).events = (run disk client' s' x).events ∧
      (run disk client s x).value = (run disk client' s' x).value := by
  induction x generalizing s s' with
  | done a => exact ⟨h, rfl, rfl⟩
  | log r next ih =>
    obtain ⟨server, events, value⟩ := ih h spares
    exact ⟨server, congrArg (List.cons (Event.logged r)) events, value⟩
  | notify n next ih =>
    obtain ⟨server, events, value⟩ := ih h spares
    exact ⟨server, congrArg (List.cons (Event.sent (.notification n))) events, value⟩
  | ask q next ih =>
    rw [run_ask, run_ask, spares.connected]
    by_cases connected : client.connected = true
    · rw [asked_ask, if_pos connected] at spares
      rw [if_pos connected, if_pos connected, spares.answer (s, q) List.mem_cons_self]
      obtain ⟨later, heard⟩ := h.hearAll (client.answer q).before
      dsimp only
      by_cases exited : (s.hearAll (client.answer q).before).1.phase = .exited
      · rw [if_pos exited, if_pos (later.exited_iff.mp exited), heard]
        exact ⟨later, rfl, rfl⟩
      · dsimp only at spares
        rw [if_neg exited] at spares
        rw [if_neg exited, if_neg fun e => exited (later.exited_iff.mpr e), heard]
        have rest := spares.answer
        obtain ⟨server, events, value⟩ := ih (client.answer q).reply later
          ⟨spares.connected, fun a mem => rest a (List.mem_cons_of_mem _ mem)⟩
        refine ⟨server, ?_, value⟩
        change _ ++ (run disk client _ _).events = _ ++ (run disk client' _ _).events
        rw [events]
    · rw [asked_ask, if_neg connected] at spares
      rw [if_neg connected, if_neg connected]
      exact ih _ h spares
  | document u next ih =>
    have same : s.document? u = s'.document? u := congrArg (·.get? u.text) h.documents
    rw [run_document, run_document, ← same]
    exact ih _ h spares
  | isFile p next ih => exact ih _ h spares
  | readFile p next ih => exact ih _ h spares

end Session

end RuleOff
