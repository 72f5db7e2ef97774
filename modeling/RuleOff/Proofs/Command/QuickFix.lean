import Mathlib.Data.List.Forall2
import RuleOff.Proofs.Command.Edit
import RuleOff.Proofs.Session.Snapshot
import RuleOff.Proofs.Uri.Script

/-!
# From a quick fix to its command

A quick fix carries a command, and the client sends the command back when the user takes the fix. The
two ends share nothing but the JSON of the command, and this module puts them together: what comes
back switches off the rule that the diagnostic of the fix is about.

## Main definitions

* `Diagnostic.IsEligible`: a diagnostic that gets a quick fix.
* `Command.SendsBack`: a request with the command of a quick fix.
* `Command.SwitchesOff`: a request that a server at work takes for the command to switch off a rule.
* `Command.IsFixFor`: a quick fix for a diagnostic.

## Main statements

* `Command.switchesOff_of_sendsBack`: what comes back is accepted, and for the right rule.
* `Command.codeAction_fixes`: the quick fixes of a document, one for each eligible diagnostic.
-/

namespace RuleOff

namespace Diagnostic

/-- The diagnostic comes from the linter, and has a code that is explained and whose text is not
empty. -/
structure IsEligible (d : Diagnostic) : Prop where
  source : d.source = some "eslint".toList
  explained : ∃ u, d.codeDescription = some u
  code : ∃ c, d.code = some c ∧ c.text ≠ []

theorem ruleId?_eq_some_iff {d : Diagnostic} {rule : Text} :
    d.ruleId? = some rule ↔ d.IsEligible ∧ ∃ c, d.code = some c ∧ c.text = rule := by
  constructor
  · intro h
    unfold ruleId? at h
    split at h
    · next lint =>
      obtain ⟨source, explained⟩ := lint
      split at h
      · next c code =>
        split at h
        · exact absurd h (by simp)
        · next some =>
          exact ⟨⟨source, Option.isSome_iff_exists.mp explained, c, code, some⟩, c, code,
            Option.some.inj h⟩
      · exact absurd h (by simp)
    · exact absurd h (by simp)
  · rintro ⟨⟨source, explained, c', code', some⟩, c, code, rfl⟩
    obtain rfl : c' = c := Option.some.inj (code'.symm.trans code)
    have lint : d.source = Option.some lintSource ∧ d.codeDescription.isSome :=
      ⟨source, Option.isSome_iff_exists.mpr explained⟩
    unfold ruleId?
    rw [if_pos lint, code]
    exact if_neg some

theorem isSome_ruleId?_iff {d : Diagnostic} : d.ruleId?.isSome = true ↔ d.IsEligible := by
  rw [Option.isSome_iff_exists]
  constructor
  · rintro ⟨rule, h⟩
    exact (ruleId?_eq_some_iff.mp h).1
  · intro h
    obtain ⟨c, code, -⟩ := h.code
    exact ⟨c.text, ruleId?_eq_some_iff.mpr ⟨h, c, code, rfl⟩⟩

instance (d : Diagnostic) : Decidable d.IsEligible := decidable_of_iff _ isSome_ruleId?_iff

end Diagnostic

namespace Command

open Session

/-- The request has the command of a quick fix for its parameters: the same name and the same
arguments. What else is in the parameters is at the client's discretion, as far as it is valid. -/
structure SendsBack (command : Json) (r : Invocation) : Prop where
  method : Method.ofName r.method = .executeCommand
  params : ∃ v, r.params = some v ∧ v.get? "command".toList = command.get? "command".toList ∧
    v.get? "arguments".toList = command.get? "arguments".toList ∧
    ∃ token, v.optional "workDoneToken".toList Shape.token.check = .ok token

/-- A server at work takes the request for a command that switches the rule off: it changes nothing
at once, switches off this very rule, and answers that it has done so, unless it is stopped
meanwhile. -/
def SwitchesOff (rule : Text) (r : Invocation) : Prop :=
  ∀ s : Server, s.phase = .running →
    s.answer r = (s, (s.disableRule rule).bind fun _ => .done (some (.result .null))) ∧
    ∀ (disk : Disk) (client : Client) (id : MessageId),
      let o := receive disk client s (.request id r)
      o.2.2 = .answered (.result .null) ∨
        o.1.phase = .exited ∧ o.2.2 = .answered (.refused .cancelled)

/-- What the user reads of a quick fix for the rule. -/
def fixTitle (rule : Text) : Text := "Disable ".toList ++ rule ++ " project-wide".toList

/-- A quick fix for the diagnostic and no other. Its titles name the rule of the diagnostic, which is
the text of its code, and its command switches that rule off when the client sends it back. -/
structure IsFixFor (d : Diagnostic) (fix : Json) : Prop where
  diagnostics : fix.get? "diagnostics".toList = some (.arr [d.toJson])
  command : ∃ code command, d.code = some code ∧
    fix.get? "title".toList = some (.str (fixTitle code.text)) ∧
    fix.get? "command".toList = some command ∧
    command.get? "title".toList = some (.str (fixTitle code.text)) ∧
    SendsBack command ⟨"workspace/executeCommand".toList, some command⟩ ∧
    ∀ r, SendsBack command r → SwitchesOff code.text r

section Sent

variable {α β : Type} {rule : Text} {r : Invocation}

/-- A conversation that ends in a fixed value comes to it, unless the server is stopped. -/
theorem value_run_bind_done (disk : Disk) (client : Client) (s : Server) (x : Exchange α) (b : β) :
    let o := run disk client s (x.bind fun _ => .done b)
    o.value = some b ∨ o.server.phase = .exited ∧ o.value = none := by
  induction x generalizing s with
  | done a => exact .inl rfl
  | log r next ih => exact ih s
  | notify n next ih => exact ih s
  | ask q next ih =>
    unfold Exchange.bind
    rw [run_ask]
    split
    · dsimp only
      split
      · next exited => exact .inr ⟨exited, rfl⟩
      · exact ih _ _
    · exact ih _ s
  | document u next ih => exact ih _ s
  | isFile p next ih => exact ih _ s
  | readFile p next ih => exact ih _ s

theorem switchesOff_of_decode {p : CommandParams}
    (method : Method.ofName r.method = .executeCommand)
    (decoded : Server.readParams? CommandParams.decode r.params = some p)
    (command : p.command = CodeAction.disableCommand)
    (argument : Server.ruleArgument? p.arguments = some rule) : SwitchesOff rule r := by
  intro s running
  have answered := answer_disable running method decoded command argument
  refine ⟨answered, fun disk client id => ?_⟩
  intro o
  have received : o = _ := receive_request (Server.ne_exited_of_running running) id r
  rw [answered] at received
  rw [received]
  rcases value_run_bind_done disk client s (s.disableRule rule) (some (Response.result .null)) with
    value | ⟨exited, value⟩
  · exact .inl (congrArg reactionTo value)
  · exact .inr ⟨exited, congrArg reactionTo value⟩

/-- The command of a quick fix is accepted when it comes back, and for the rule of the fix. -/
theorem switchesOff_of_sendsBack (a : CodeAction) (sent : SendsBack a.commandToJson r) :
    SwitchesOff a.rule r := by
  obtain ⟨v, params, command, arguments, token, valid⟩ := sent.params
  have command' : v.get? "command".toList = some (.str CodeAction.disableCommand) := command
  have arguments' : v.get? "arguments".toList = some (.arr [.str a.rule]) := arguments
  have decoded : CommandParams.decode v = .ok ⟨CodeAction.disableCommand, [.str a.rule]⟩ := by
    unfold CommandParams.decode
    simp only [Json.required, command', arguments', valid]
    rfl
  refine switchesOff_of_decode (p := ⟨CodeAction.disableCommand, [.str a.rule]⟩) sent.method ?_
    rfl rfl
  rw [params]
  exact congrArg Except.toOption decoded

theorem sendsBack_command (a : CodeAction) :
    SendsBack a.commandToJson ⟨"workspace/executeCommand".toList, some a.commandToJson⟩ where
  method := by
    change Method.ofName "workspace/executeCommand".toList = .executeCommand
    decide
  params := ⟨_, rfl, rfl, rfl, none, rfl⟩

end Sent

/-! ### The fixes of a document -/

theorem isFixFor_of_ruleId? {d : Diagnostic} {rule : Text} (h : d.ruleId? = some rule) :
    IsFixFor d (CodeAction.toJson ⟨rule, d⟩) := by
  obtain ⟨-, code, known, rfl⟩ := Diagnostic.ruleId?_eq_some_iff.mp h
  let a : CodeAction := ⟨code.text, d⟩
  exact ⟨rfl, code, a.commandToJson, known, rfl, rfl, rfl, sendsBack_command a,
    fun r sent => switchesOff_of_sendsBack a sent⟩

theorem forall₂_fixes (ds : List Diagnostic) :
    List.Forall₂ IsFixFor (ds.filter fun d => decide d.IsEligible)
      ((ds.filterMap fun d => d.ruleId?.map fun rule => CodeAction.mk rule d).map
        CodeAction.toJson) := by
  induction ds with
  | nil => exact .nil
  | cons d ds ih =>
    have eligible := Diagnostic.isSome_ruleId?_iff (d := d)
    cases h : d.ruleId? with
    | none =>
      have other : ¬ d.IsEligible := fun e => by
        rw [h] at eligible
        exact absurd (eligible.mpr e) (by simp)
      rw [List.filter_cons_of_neg (by simpa using other), List.filterMap_cons, h]
      exact ih
    | some rule =>
      have this : d.IsEligible := eligible.mp (by rw [h]; rfl)
      rw [List.filter_cons_of_pos (by simpa using this), List.filterMap_cons, h]
      exact .cons (isFixFor_of_ruleId? h) ih

theorem answer_codeAction {s : Server} {r : Invocation} {p : CodeActionParams}
    (running : s.phase = .running) (method : Method.ofName r.method = .codeAction)
    (decoded : Server.readParams? CodeActionParams.decode r.params = some p) :
    s.answer r = (s, .done (some (.result (Server.codeActionResult p)))) := by
  unfold Server.answer Server.answerRunning
  simp only [method, running, decoded]
  rfl

/-- The quick fixes for the diagnostics of a document. A server at work answers a request for code
actions with the list of them, or with `null` if there are none, and changes nothing.

* There are none in a document whose path does not end in the name of a script.
* In a script they go one by one with the eligible diagnostics, in their order.
* The command of each comes back as a command that is accepted, and that switches off the rule of the
  diagnostic. -/
theorem codeAction_fixes (p : CodeActionParams) :
    ∃ fixes : List Json,
      (∀ (disk : Disk) (client : Client) (s : Server) (id : MessageId) (r : Invocation),
        s.phase = .running → Method.ofName r.method = .codeAction →
        Server.readParams? CodeActionParams.decode r.params = some p →
        receive disk client s (.request id r) =
          (s, [], .answered (.result (Server.codeActionResult p)))) ∧
      Server.codeActionResult p = (if fixes = [] then .null else .arr fixes) ∧
      (¬ Uri.IsScript p.uri.path → fixes = []) ∧
      (Uri.IsScript p.uri.path →
        List.Forall₂ IsFixFor (p.diagnostics.filter fun d => decide d.IsEligible) fixes) := by
  refine ⟨(CodeAction.offered p.uri p.diagnostics).map CodeAction.toJson, ?_, ?_, ?_, ?_⟩
  · intro disk client s id r running method decoded
    rw [receive_request (Server.ne_exited_of_running running),
      answer_codeAction running method decoded]
    rfl
  · unfold Server.codeActionResult
    cases CodeAction.offered p.uri p.diagnostics <;> rfl
  · intro other
    have none : CodeAction.appliesTo p.uri ≠ true := fun h =>
      other ((CodeAction.appliesTo_iff _).mp h)
    unfold CodeAction.offered
    rw [if_neg none]
    rfl
  · intro script
    unfold CodeAction.offered
    rw [if_pos ((CodeAction.appliesTo_iff _).mpr script)]
    exact forall₂_fixes p.diagnostics

/-- Two fixes for a rule whose name is a number, in a hidden file with a slash behind it. -/
theorem codeAction_fixes_of_number :
    let uri : Uri := ⟨"file".toList, some ⟨[], [], none⟩, "/w/.a.b.vue/".toList, none, none⟩
    let d : Diagnostic :=
      { range := .at ⟨0, 0⟩, code := some (.number (-7)), codeDescription := some uri
        source := some "eslint".toList, message := [] }
    let nameless : Diagnostic := { d with code := some (.name []) }
    ∃ fix₁ fix₂, IsFixFor d fix₁ ∧ IsFixFor d fix₂ ∧
      Server.codeActionResult ⟨uri, [d, nameless, d]⟩ = .arr [fix₁, fix₂] := by
  intro uri d nameless
  have script : Uri.IsScript uri.path :=
    ⟨"/w/".toList, ".a.b".toList, "vue".toList, [[]], by decide, by decide, by decide, by decide,
      by decide, by decide⟩
  obtain ⟨fixes, -, result, -, all⟩ := codeAction_fixes ⟨uri, [d, nameless, d]⟩
  have two : List.Forall₂ IsFixFor [d, d] fixes := all script
  cases two with
  | cons first rest =>
    cases rest with
    | cons second none =>
      cases none
      exact ⟨_, _, first, second, result⟩

end Command

end RuleOff
