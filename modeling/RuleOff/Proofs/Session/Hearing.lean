import RuleOff.Server.Notification

/-!
# Servers that hear notifications

What becomes of a server when it hears notifications. One notification has all servers at work do the
same, and only some of them change the phase of a server: `exit` stops it, and `shutdown` ends its
work.

## Main definitions

* `stops`: whether some notifications stop the server.
* `Server.Hearing`: what a notification has servers do.

## Main statements

* `Server.exists_hearing`: every notification has all servers at work do the same.
* `Server.hearAll_phase_exited_iff`: which notifications stop a server.
* `Server.hearAll_eq_foldl`: a part of the server that goes by what each notification says of it.
-/

namespace RuleOff

/-- Whether one of the notifications stops the server. -/
def stops (ns : List Invocation) : Bool := ns.any fun n => Method.ofName n.method = .exit

namespace Server

variable {s : Server}

/-- What a notification has a server at work do, and what is seen of that. -/
inductive Hearing (n : Invocation) : (Server → Server × List Event) → Prop
  | nothing : Hearing n fun s => (s, [])
  | ready (method : Method.ofName n.method = .ready) : Hearing n fun s => (s, readyEvents)
  | opened {p : OpenParams} (method : Method.ofName n.method = .didOpen)
    (params : readParams? OpenParams.decode n.params = some p) :
    Hearing n fun s => (s.openDocument p, [])
  | changed {p : ChangeParams} (method : Method.ofName n.method = .didChange)
    (params : readParams? ChangeParams.decode n.params = some p) :
    Hearing n fun s => (s.changeDocument p, [])
  | closed (u : Uri) : Hearing n fun s => (s.closeDocument u, [])
  | configured (v : Json) :
    Hearing n fun s => ((s.updateSettings v).1, (s.updateSettings v).2.map .logged)
  | moved (c : FolderChange) : Hearing n fun s => (s.changeFolders c, [])
  | ended : Hearing n fun s => ({ s with phase := .shutDown }, [])

/-- All servers at work do the same with a notification. -/
theorem exists_hearing (n : Invocation) :
    ∃ f, Hearing n f ∧ ∀ s : Server, s.hearRunning n = f s := by
  unfold hearRunning
  cases method : Method.ofName n.method
  case ready =>
    cases readParams? decodeReady n.params with
    | none => exact ⟨_, .nothing, fun s => rfl⟩
    | some _ => exact ⟨_, .ready method, fun s => rfl⟩
  case didOpen =>
    cases params : readParams? OpenParams.decode n.params with
    | none => exact ⟨_, .nothing, fun s => rfl⟩
    | some p => exact ⟨_, .opened method params, fun s => rfl⟩
  case didChange =>
    cases params : readParams? ChangeParams.decode n.params with
    | none => exact ⟨_, .nothing, fun s => rfl⟩
    | some p => exact ⟨_, .changed method params, fun s => rfl⟩
  case didClose =>
    cases readParams? decodeDocument n.params with
    | none => exact ⟨_, .nothing, fun s => rfl⟩
    | some u => exact ⟨_, .closed u, fun s => rfl⟩
  case didChangeConfiguration =>
    cases readParams? decodeConfiguration n.params with
    | none => exact ⟨_, .nothing, fun s => rfl⟩
    | some v => exact ⟨_, .configured v, fun s => rfl⟩
  case didChangeFolders =>
    cases readParams? FolderChange.decode n.params with
    | none => exact ⟨_, .nothing, fun s => rfl⟩
    | some c => exact ⟨_, .moved c, fun s => rfl⟩
  case shutdown => exact ⟨_, .ended, fun s => rfl⟩
  all_goals exact ⟨_, .nothing, fun s => rfl⟩

theorem updateSettings_phase (s : Server) (v : Json) : (s.updateSettings v).1.phase = s.phase := by
  unfold updateSettings
  split <;> rfl

theorem changeDocument_phase (s : Server) (p : ChangeParams) :
    (s.changeDocument p).phase = s.phase := by
  unfold changeDocument
  split <;> rfl

/-- A notification may end the work of a server, and does nothing else to its phase. -/
theorem hearRunning_phase (s : Server) (n : Invocation) :
    (s.hearRunning n).1.phase = s.phase ∨ (s.hearRunning n).1.phase = .shutDown := by
  obtain ⟨f, hearing, same⟩ := exists_hearing n
  rw [same]
  cases hearing with
  | changed _ _ => exact .inl (changeDocument_phase s _)
  | configured v => exact .inl (updateSettings_phase s v)
  | ended => exact .inr rfl
  | _ => exact .inl rfl

theorem ne_exited_of_running (running : s.phase = .running) : s.phase ≠ .exited := by
  rw [running]
  exact Phase.noConfusion

theorem hear_phase_exited_iff (h : s.phase ≠ .exited) (n : Invocation) :
    (s.hear n).1.phase = .exited ↔ Method.ofName n.method = .exit := by
  unfold hear
  split
  · next hn => exact ⟨fun _ => hn, fun _ => rfl⟩
  · next hn =>
    refine ⟨fun he => absurd he ?_, fun he => absurd he hn⟩
    split
    · rcases s.hearRunning_phase n with same | shut
      · rwa [same]
      · rw [shut]
        exact Phase.noConfusion
    · exact h

theorem hearAll_phase_of_exited (h : s.phase = .exited) (ns : List Invocation) :
    (s.hearAll ns).1.phase = .exited := by
  induction ns generalizing s with
  | nil => exact h
  | cons n ns ih =>
    have kept : (s.hear n).1.phase = .exited := by
      unfold hear
      split
      · rfl
      · rw [if_neg (by rw [h]; exact Phase.noConfusion)]
        exact h
    exact ih kept

theorem hearAll_phase_exited_iff (h : s.phase ≠ .exited) (ns : List Invocation) :
    (s.hearAll ns).1.phase = .exited ↔ stops ns = true := by
  induction ns generalizing s with
  | nil => exact ⟨fun he => absurd he h, fun he => Bool.noConfusion he⟩
  | cons n ns ih =>
    change ((s.hear n).1.hearAll ns).1.phase = .exited ↔ _
    unfold stops at ih ⊢
    rw [List.any_cons, Bool.or_eq_true, decide_eq_true_eq]
    by_cases hn : Method.ofName n.method = .exit
    · exact ⟨fun _ => .inl hn,
        fun _ => hearAll_phase_of_exited ((hear_phase_exited_iff h n).mpr hn) ns⟩
    · -- The server goes on, so only the notifications after this one may stop it.
      rw [ih fun he => hn ((hear_phase_exited_iff h n).mp he)]
      exact ⟨.inr, fun he => he.resolve_left hn⟩

theorem hearAll_append (s : Server) (ns ms : List Invocation) :
    (s.hearAll (ns ++ ms)).1 = ((s.hearAll ns).1.hearAll ms).1 := by
  induction ns generalizing s with
  | nil => rfl
  | cons n ns ih => exact ih (s.hear n).1

/-- A server that is at work behind a notification was at work before, and has handled it. -/
theorem hear_of_running {n : Invocation} (h : (s.hear n).1.phase = .running) :
    s.phase = .running ∧ s.hear n = s.hearRunning n := by
  unfold hear at h ⊢
  split at h
  · exact Phase.noConfusion h
  · next other =>
    split at h
    · next running => exact ⟨running, by rw [if_neg other, if_pos running]⟩
    · next waiting => exact absurd h waiting

theorem running_of_hearAll {ns : List Invocation} (h : (s.hearAll ns).1.phase = .running) :
    s.phase = .running := by
  induction ns generalizing s with
  | nil => exact h
  | cons n ns ih => exact (hear_of_running (ih h)).1

/-- A part of a server at work that goes by what notifications say of it is, behind some of them,
what they make of it one after the other. -/
theorem hearAll_eq_foldl {α β : Type} (part : Server → α) {said : Invocation → Option β}
    {apply : α → β → α}
    (each : ∀ s n, part (s.hearRunning n).1 = (said n).elim (part s) (apply (part s)))
    {ns : List Invocation} (running : (s.hearAll ns).1.phase = .running) :
    part (s.hearAll ns).1 = (ns.filterMap said).foldl apply (part s) := by
  induction ns generalizing s with
  | nil => rfl
  | cons n ns ih =>
    have rest : ((s.hear n).1.hearAll ns).1.phase = .running := running
    obtain ⟨-, handled⟩ := hear_of_running (running_of_hearAll rest)
    change part ((s.hear n).1.hearAll ns).1 = _
    rw [ih rest, handled, each, List.filterMap_cons]
    cases said n <;> rfl

end Server

end RuleOff
