import RuleOff.Proofs.Command.Edit
import RuleOff.Proofs.Text.Splice
import RuleOff.Proofs.Workspace.Calls

/-!
# Steps that fail

A disable command in memory makes its calls one after the other, up to the first that fails. The
call that inserts the entry is the only one that changes a file, so a command that fails leaves
every file as it was, unless what fails is to show the entry that it has made.

## Main definitions

* `Workspace.Aim`, `Workspace.Aims`: what a step finds to do.
* `Workspace.Behaviour.made`: some calls up to the first that fails.
* `Workspace.Goes`: how a step goes, with its calls, its result and the files behind it.
* `Workspace.after`: the workspace behind some steps.

## Main statements

* `Workspace.goes_disable`: every step goes so.
* `Workspace.OnlyChosenChanges.after`: any number of steps change the first candidate only.
* `Workspace.steps_fail_atomically`: both, for a step behind any others.
-/

namespace RuleOff

section Plan

variable {t rule indent : Text} {format : Config.Format}

theorem Config.plan_eq_none_iff :
    plan t format rule indent = none ↔
      format = .json ∧ findRulesHeader (Text.lines t) = none := by
  cases format <;> cases header : findRulesHeader (Text.lines t) <;> simp [plan, header]

theorem Config.text_insertLineAfter_ne_nil {lines : List Text} {line : Text} (h : line ≠ [])
    (anchor : Nat) (ending : Text) : (insertLineAfter lines anchor line ending).text ≠ [] := by
  unfold insertLineAfter
  split
  · exact h
  · exact List.append_ne_nil_of_right_ne_nil ending h

/-- An insertion of the planner is never empty. -/
theorem Config.text_ne_nil_of_plan {i : Insertion} (h : plan t format rule indent = some i) :
    i.text ≠ [] := by
  have jsonEntry_ne_nil : ∀ ending, jsonEntry rule indent ending ≠ [] := by simp [jsonEntry]
  have yamlEntry_ne_nil : ∀ ending, yamlEntry rule indent ending ≠ [] := by simp [yamlEntry]
  cases header : findRulesHeader (Text.lines t) with
  | none =>
    cases format with
    | json => simp [plan, header] at h
    | yaml =>
      simp only [plan, header, Option.some.injEq] at h
      subst h
      exact List.append_ne_nil_of_right_ne_nil _ (yamlEntry_ne_nil _)
  | some n =>
    cases format with
    | json =>
      simp only [plan, header, Option.some.injEq] at h
      subst h
      exact text_insertLineAfter_ne_nil (jsonEntry_ne_nil _) _ _
    | yaml =>
      simp only [plan, header, Option.some.injEq] at h
      subst h
      exact text_insertLineAfter_ne_nil (yamlEntry_ne_nil _) _ _

end Plan

namespace Workspace

/-- A rule to be switched off, and how the editor behaves meanwhile. -/
structure Step where
  rule : Text
  behaviour : Behaviour

/-- Some calls up to the first that fails, which is made as well. -/
def Behaviour.made (b : Behaviour) : List Call → List Call
  | [] => []
  | c :: cs => c :: if (b.failure? c).isSome then [] else b.made cs

/-- Whether a name leads to a file in the directory. -/
def isThere (w : Workspace) (root : Path) (name : Text) : Bool := (w.text? (root.join name)).isSome

/-- The calls that look for the first of some names that leads to a file. -/
def looks (w : Workspace) (root : Path) (names : List Text) : List Call :=
  (names.take (names.findIdx (w.isThere root) + 1)).map fun n => .isFile (root.join n)

/-- What a step finds to do. -/
inductive Aim where
  /-- There is no file. -/
  | none
  /-- The file has no place for the entry, and is shown instead. -/
  | point (path : Path)
  /-- The entry is inserted, and shown. -/
  | insert (path : Path) (i : Config.Insertion)

namespace Aim

/-- The calls that are made once the file is known, if none of them fails. -/
def calls (settings : Settings) : Aim → List Call
  | none => []
  | point p => [.read p, .indentation p settings, .reveal p Option.none]
  | insert p i =>
    [.read p, .indentation p settings, .insert p i.position i.text, .reveal p (some i.cursor)]

/-- What a step comes to if no call fails. -/
def result (root : Path) : Aim → Except DisableError Config.Insertion
  | none => .error (.configNotFound root)
  | point p => .error (.rulesSectionNotFound p)
  | insert _ i => .ok i

end Aim

/-- What a step comes to: the first failure of its calls, if there is one. -/
def Behaviour.outcome (b : Behaviour) (settings : Settings) (root : Path) (aim : Aim) :
    Except DisableError Config.Insertion :=
  match (aim.calls settings).findSome? b.failure? with
  | some e => .error e
  | none => aim.result root

/-- What there is to do for a step in a workspace. The file is the first candidate that is there,
and the entry is planned from its text, in the dialect of its name and with the indentation that
the editor reports, or else that of the settings. -/
inductive Aims (w : Workspace) (settings : Settings) (root : Path) (s : Step) : Aim → Prop
  | none (nowhere : Config.candidates.find? (w.isThere root) = none) :
    Aims w settings root s .none
  | point {name t : Text} (first : Config.candidates.find? (w.isThere root) = some name)
    (text : w.text? (root.join name) = some t)
    (plan : Config.plan t (if name = ".eslintrc.json".toList then .json else .yaml) s.rule
      (s.behaviour.indentation.getD settings).indentUnit = Option.none) :
    Aims w settings root s (.point (root.join name))
  | insert {name t : Text} {i : Config.Insertion}
    (first : Config.candidates.find? (w.isThere root) = some name)
    (text : w.text? (root.join name) = some t)
    (plan : Config.plan t (if name = ".eslintrc.json".toList then .json else .yaml) s.rule
      (s.behaviour.indentation.getD settings).indentUnit = some i) :
    Aims w settings root s (.insert (root.join name) i)

/-- The entry gets into the file: the call that inserts it is made, and does not fail. -/
structure Lands (b : Behaviour) (settings : Settings) (aim : Aim) (p : Path)
    (i : Config.Insertion) : Prop where
  inserts : aim = .insert p i
  called : .insert p i.position i.text ∈ b.made (aim.calls settings)
  succeeds : b.failure? (.insert p i.position i.text) = none

/-- How a step goes from one workspace to another, with its aim and its result. -/
structure Goes (settings : Settings) (root : Path) (s : Step) (w : Workspace) (aim : Aim)
    (result : Except DisableError Config.Insertion) (w' : Workspace) : Prop where
  aims : w.Aims settings root s aim
  /-- The candidates are looked at up to the first that is a file, and then all calls are made up to
  the first that fails. -/
  calls : w'.calls =
    w.calls ++ (w.looks root Config.candidates ++ s.behaviour.made (aim.calls settings))
  ends : result = s.behaviour.outcome settings root aim
  ok_iff : ∀ i, result = .ok i ↔
    (∀ c ∈ aim.calls settings, s.behaviour.failure? c = none) ∧ ∃ p, aim = .insert p i
  /-- There is nothing but to show the file exactly if it is the JSON one, without a header. -/
  point_iff : ∀ p, aim = .point p ↔
    Config.candidates.find? (w.isThere root) = some ".eslintrc.json".toList ∧
      p = root.join ".eslintrc.json".toList ∧
      ∃ t, w.text? p = some t ∧ Config.findRulesHeader (Text.lines t) = none
  /-- At most one call inserts something, and what it inserts is the plan for the file. -/
  inserts : (s.behaviour.made (aim.calls settings)).filter (· matches .insert ..) = [] ∨
    ∃ p i, aim = .insert p i ∧
      (s.behaviour.made (aim.calls settings)).filter (· matches .insert ..) =
        [.insert p i.position i.text]
  paths : w'.files.map Prod.fst = w.files.map Prod.fst
  landed : ∀ p i, Lands s.behaviour settings aim p i → ∀ q, p.same q = true →
    ∃ t, w.text? q = some t ∧ w'.text? q = some (Text.splice t i.position i.text)
  changes_iff : ∀ q, w'.text? q ≠ w.text? q ↔
    ∃ p i, Lands s.behaviour settings aim p i ∧ p.same q = true
  /-- With a failure goes a change only if the entry is in the file and cannot be shown. -/
  error_iff : ∀ e, result = .error e → ((∃ q, w'.text? q ≠ w.text? q) ↔
    ∃ p i, Lands s.behaviour settings aim p i ∧
      s.behaviour.failure? (.reveal p (some i.cursor)) = some e)

/-! ### One step -/

section Steps

variable {w : Workspace} {b : Behaviour} {settings : Settings} {root : Path} {rule : Text}

theorem looks_cons (w : Workspace) (root : Path) (name : Text) (names : List Text) :
    w.looks root (name :: names) = .isFile (root.join name) ::
      if w.isThere root name then [] else w.looks root names := by
  unfold looks
  rw [List.findIdx_cons]
  cases w.isThere root name <;> rfl

/-- The search for the file asks about names up to the first that is there. -/
theorem findM?_run (b : Behaviour) (root : Path) (names : List Text) (w : Workspace) :
    ((names.map root.join).findM? (editor b).isFile).run w =
      ((names.find? (w.isThere root)).map root.join,
        { w with calls := w.calls ++ w.looks root names }) := by
  induction names generalizing w with
  | nil =>
    change (none, w) = (_, { w with calls := w.calls ++ [] })
    rw [List.append_nil]
    rfl
  | cons name names ih =>
    let asked := w.noted (.isFile (root.join name))
    have first : ((List.map root.join (name :: names)).findM? (editor b).isFile).run w =
        if w.isThere root name then (some (root.join name), asked)
        else ((names.map root.join).findM? (editor b).isFile).run asked := by
      change (match w.isThere root name with
        | true => _
        | false => _ : StateM Workspace _).run asked = _
      cases w.isThere root name <;> rfl
    rw [first, looks_cons]
    cases there : w.isThere root name with
    | true =>
      rw [List.find?_cons_of_pos there]
      rfl
    | false =>
      have same : asked.isThere root = w.isThere root := rfl
      have onward : asked.looks root names = w.looks root names := rfl
      rw [List.find?_cons_of_neg (by rw [there]; exact Bool.false_ne_true),
        if_neg Bool.false_ne_true, if_neg Bool.false_ne_true, ih, same, onward]
      simp [asked, noted]

theorem disable_of_nowhere (nowhere : Config.candidates.find? (w.isThere root) = none) :
    w.disable b settings root rule = (.error (.configNotFound root),
      { w with calls := w.calls ++ w.looks root Config.candidates }) := by
  have located := findM?_run b root Config.candidates w
  rw [nowhere] at located
  unfold disable RuleOff.disable Config.locate
  simp only [ExceptT.run_bind, ExceptT.run_lift, bind_map_left, StateT.run_bind, located]
  rfl

/-- The command once its file is known. -/
def attempt (b : Behaviour) (settings : Settings) (p : Path) (rule : Text) :
    ExceptT DisableError (StateM Workspace) Config.Insertion := do
  let t ← (editor b).read p
  let settings ← ExceptT.lift ((editor b).indentation p settings)
  match Config.plan t (.ofPath p) rule settings.indentUnit with
  | none =>
    (editor b).reveal p none
    throw (.rulesSectionNotFound p)
  | some i =>
    (editor b).insert p i.position i.text
    (editor b).reveal p (some i.cursor)
    ExceptT.lift ((editor b).record (disabledRecord rule p i))
    pure i

theorem disable_of_first {name : Text}
    (first : Config.candidates.find? (w.isThere root) = some name) :
    w.disable b settings root rule = (attempt b settings (root.join name) rule).run.run
      { w with calls := w.calls ++ w.looks root Config.candidates } := by
  have located := findM?_run b root Config.candidates w
  rw [first] at located
  unfold disable RuleOff.disable Config.locate
  simp only [ExceptT.run_bind, ExceptT.run_lift, bind_map_left, StateT.run_bind, located]
  rfl

variable {p : Path} {t : Text}

theorem attempt_of_point (root : Path) (text : w.text? p = some t)
    (plan : Config.plan t (.ofPath p) rule (b.indentation.getD settings).indentUnit = none) :
    (attempt b settings p rule).run.run w = (b.outcome settings root (.point p),
      { w with calls := w.calls ++ b.made ((Aim.point p).calls settings) }) := by
  unfold attempt
  rw [read_bind_run b text]
  cases opens : b.failure? (.read p) with
  | some e => simp [Behaviour.outcome, Behaviour.made, Aim.calls, opens, noted]
  | none =>
    dsimp only
    rw [indentation_bind_run, plan]
    dsimp only
    rw [reveal_bind_run]
    cases shows : b.failure? (.reveal p none) with
    | some e =>
      simp [Behaviour.outcome, List.findSome?_cons, Behaviour.made, Aim.calls, opens, shows, noted]
    | none =>
      simp [Behaviour.outcome, List.findSome?_cons, Behaviour.made, Aim.calls, Aim.result, opens,
        shows, noted]
      rfl

theorem lands_iff {p' : Path} {i i' : Config.Insertion} :
    Lands b settings (.insert p i) p' i' ↔ (p' = p ∧ i' = i) ∧
      b.failure? (.read p) = none ∧ b.failure? (.insert p i.position i.text) = none := by
  constructor
  · rintro ⟨inserts, called, succeeds⟩
    obtain ⟨rfl, rfl⟩ := Aim.insert.inj inserts
    refine ⟨⟨rfl, rfl⟩, ?_, succeeds⟩
    cases opens : b.failure? (.read p) with
    | none => rfl
    | some e =>
      rw [Aim.calls, Behaviour.made, opens] at called
      exact absurd called (by simp)
  · rintro ⟨⟨rfl, rfl⟩, opens, succeeds⟩
    refine ⟨rfl, ?_, succeeds⟩
    simp [Behaviour.made, Aim.calls, opens]

/-- The files behind a step: those before it, or the same with the entry in one of them. -/
inductive Leaves (b : Behaviour) (settings : Settings) (aim : Aim) (w w' : Workspace) : Prop
  | kept (files : w'.files = w.files) (unlanded : ∀ p i, ¬ Lands b settings aim p i)
  | landed {p : Path} {i : Config.Insertion} {t : Text} (text : w.text? p = some t)
    (files : w'.files = (w.put p (Text.splice t i.position i.text)).files)
    (filled : i.text ≠ []) (lands : Lands b settings aim p i)

theorem attempt_of_insert (root : Path) {i : Config.Insertion} (text : w.text? p = some t)
    (plan : Config.plan t (.ofPath p) rule (b.indentation.getD settings).indentUnit = some i) :
    let o := (attempt b settings p rule).run.run w
    o.1 = b.outcome settings root (.insert p i) ∧
      o.2.calls = w.calls ++ b.made ((Aim.insert p i).calls settings) ∧
      Leaves b settings (.insert p i) w o.2 := by
  have filled := Config.text_ne_nil_of_plan plan
  unfold attempt
  rw [read_bind_run b text]
  cases opens : b.failure? (.read p) with
  | some e =>
    refine ⟨?_, ?_, .kept rfl fun p' i' lands => ?_⟩
    · simp [Behaviour.outcome, Aim.calls, opens]
    · simp [Behaviour.made, Aim.calls, opens, noted]
    · rw [lands_iff, opens] at lands
      exact absurd lands.2.1 (Option.some_ne_none e)
  | none =>
    dsimp only
    rw [indentation_bind_run, plan]
    dsimp only
    have still : ((w.noted (.read p)).noted (.indentation p settings)).text? p = some t := text
    rw [insert_bind_run b still]
    cases succeeds : b.failure? (.insert p i.position i.text) with
    | some e =>
      refine ⟨?_, ?_, .kept rfl fun p' i' lands => ?_⟩
      · simp [Behaviour.outcome, List.findSome?_cons, Aim.calls, opens, succeeds]
      · simp [Behaviour.made, Aim.calls, opens, succeeds, noted]
      · rw [lands_iff, succeeds] at lands
        exact absurd lands.2.2 (Option.some_ne_none e)
    | none =>
      have lands : Lands b settings (.insert p i) p i :=
        lands_iff.mpr ⟨⟨rfl, rfl⟩, opens, succeeds⟩
      dsimp only
      rw [reveal_bind_run]
      -- The entry is in the file by now, whether or not it can be shown.
      cases shows : b.failure? (.reveal p (some i.cursor)) with
      | some e =>
        refine ⟨?_, ?_, .landed text rfl filled lands⟩
        · simp [Behaviour.outcome, List.findSome?_cons, Aim.calls, opens, succeeds, shows]
        · simp [Behaviour.made, Aim.calls, opens, succeeds, shows, noted, put]
      | none =>
        dsimp only
        rw [record_run]
        refine ⟨?_, ?_, .landed text rfl filled lands⟩
        · simp [Behaviour.outcome, List.findSome?_cons, Aim.calls, Aim.result, opens, succeeds,
            shows]
        · simp [Behaviour.made, Aim.calls, opens, succeeds, shows, noted, put]

/-- A step has an aim, makes the calls for it up to the first that fails, and comes to that failure
or to what the aim comes to. -/
theorem exists_aim (w : Workspace) (settings : Settings) (root : Path) (s : Step) :
    let o := w.disable s.behaviour settings root s.rule
    ∃ aim, w.Aims settings root s aim ∧ o.1 = s.behaviour.outcome settings root aim ∧
      o.2.calls =
        w.calls ++ (w.looks root Config.candidates ++ s.behaviour.made (aim.calls settings)) ∧
      Leaves s.behaviour settings aim w o.2 := by
  cases first : Config.candidates.find? (w.isThere root) with
  | none =>
    rw [disable_of_nowhere first]
    refine ⟨.none, .none first, rfl, ?_, .kept rfl fun p i lands => Aim.noConfusion lands.inserts⟩
    exact congrArg (w.calls ++ ·) (List.append_nil _).symm
  | some name =>
    rw [disable_of_first first]
    have there : w.isThere root name = true := List.find?_some first
    obtain ⟨t, text⟩ := Option.isSome_iff_exists.mp there
    have dialect := Config.Format.ofPath_join root (List.mem_of_find?_eq_some first)
    have still : ({ w with calls := w.calls ++ w.looks root Config.candidates } :
      Workspace).text? (root.join name) = some t := text
    cases plan : Config.plan t (.ofPath (root.join name)) s.rule
        (s.behaviour.indentation.getD settings).indentUnit with
    | none =>
      rw [attempt_of_point root still plan]
      rw [dialect] at plan
      refine ⟨_, .point first text plan, rfl, List.append_assoc _ _ _, .kept rfl ?_⟩
      exact fun p i lands => Aim.noConfusion lands.inserts
    | some i =>
      obtain ⟨ends, calls, leaves⟩ := attempt_of_insert root still plan
      rw [dialect] at plan
      refine ⟨_, .insert first text plan, ends, ?_, ?_⟩
      · rw [calls]
        exact List.append_assoc _ _ _
      · -- To have looked for the file is noted among the calls, and the files are as they were.
        cases leaves with
        | kept files unlanded => exact .kept files unlanded
        | landed text files filled lands => exact .landed text files filled lands

variable {s : Step} {aim : Aim} {files : List (Path × Text)}

/-- There is nothing but to show the file exactly if it is the JSON one, without a header. -/
theorem Aims.point_iff (aims : w.Aims settings root s aim) (p : Path) :
    aim = .point p ↔ Config.candidates.find? (w.isThere root) = some ".eslintrc.json".toList ∧
      p = root.join ".eslintrc.json".toList ∧
      ∃ t, w.text? p = some t ∧ Config.findRulesHeader (Text.lines t) = Option.none := by
  cases aims with
  | none nowhere => simp [nowhere]
  | @point name t first text plan =>
    obtain ⟨json, header⟩ := Config.plan_eq_none_iff.mp plan
    have named : name = ".eslintrc.json".toList := by
      apply Decidable.byContradiction
      intro other
      rw [if_neg other] at json
      exact Config.Format.noConfusion json
    subst named
    constructor
    · intro same
      obtain rfl := Aim.point.inj same
      exact ⟨first, rfl, t, text, header⟩
    · rintro ⟨-, rfl, -⟩
      rfl
  | @insert name t i first text plan =>
    constructor
    · exact Aim.noConfusion
    · rintro ⟨chosen, rfl, u, there, header⟩
      obtain rfl := Option.some.inj (first.symm.trans chosen)
      obtain rfl := Option.some.inj (text.symm.trans there)
      rw [Config.plan_eq_none_iff.mpr ⟨if_pos rfl, header⟩] at plan
      exact absurd plan.symm (Option.some_ne_none i)

theorem outcome_eq_ok_iff {i : Config.Insertion} :
    b.outcome settings root aim = .ok i ↔
      (∀ c ∈ aim.calls settings, b.failure? c = none) ∧ ∃ p, aim = .insert p i := by
  rw [← List.findSome?_eq_none_iff]
  unfold Behaviour.outcome
  cases (aim.calls settings).findSome? b.failure? with
  | some e => simp
  | none => cases aim <;> simp [Aim.result]

theorem made_isPrefix (b : Behaviour) (cs : List Call) : b.made cs <+: cs := by
  induction cs with
  | nil => exact List.prefix_rfl
  | cons c cs ih =>
    refine List.cons_prefix_cons.mpr ⟨rfl, ?_⟩
    split
    · exact List.nil_prefix
    · exact ih

/-- Among the calls that are made, one at most inserts something. -/
theorem filter_made (b : Behaviour) (settings : Settings) (aim : Aim) :
    (b.made (aim.calls settings)).filter (· matches .insert ..) = [] ∨
      ∃ p i, aim = .insert p i ∧ (b.made (aim.calls settings)).filter (· matches .insert ..) =
        [.insert p i.position i.text] := by
  have front := (made_isPrefix b (aim.calls settings)).filter (· matches .insert ..)
  cases aim with
  | none => exact .inl (List.prefix_nil.mp front)
  | point p => exact .inl (List.prefix_nil.mp front)
  | insert p i =>
    change _ <+: [Call.insert p i.position i.text] at front
    obtain missing | ⟨rest, here, end'⟩ := List.prefix_cons_iff.mp front
    · exact .inl missing
    · rw [List.prefix_nil.mp end'] at here
      exact .inr ⟨p, i, rfl, here⟩

/-- The reveal call is the last, so that a failure behind a landed entry is that of the reveal. -/
theorem Lands.outcome_eq {p : Path} {i : Config.Insertion} (lands : Lands b settings aim p i)
    (root : Path) : b.outcome settings root aim =
      match b.failure? (.reveal p (some i.cursor)) with
      | some e => .error e
      | none => .ok i := by
  obtain rfl := lands.inserts
  obtain ⟨-, opens, succeeds⟩ := lands_iff.mp lands
  cases shows : b.failure? (.reveal p (some i.cursor)) <;>
    simp [Behaviour.outcome, List.findSome?_cons, Aim.calls, Aim.result, opens, succeeds, shows]

theorem Lands.unique {p q : Path} {i j : Config.Insertion} (lands : Lands b settings aim p i)
    (other : Lands b settings aim q j) : q = p ∧ j = i :=
  Aim.insert.inj (other.inserts.symm.trans lands.inserts)

namespace Leaves

variable {w' : Workspace}

theorem paths (leaves : Leaves b settings aim w w') :
    w'.files.map Prod.fst = w.files.map Prod.fst := by
  cases leaves with
  | kept files _ => rw [files]
  | landed text files _ _ =>
    rw [files]
    exact paths_put text _

theorem text?_of_landed {p : Path} {i : Config.Insertion} (leaves : Leaves b settings aim w w')
    (lands : Lands b settings aim p i) : ∃ t, w.text? p = some t ∧ i.text ≠ [] ∧
      ∀ q, w'.text? q =
        if p.same q = true then some (Text.splice t i.position i.text) else w.text? q := by
  cases leaves with
  | kept _ unlanded => exact absurd lands (unlanded p i)
  | @landed p' i' t text files filled there =>
    obtain ⟨rfl, rfl⟩ := there.unique lands
    refine ⟨t, text, filled, fun q => ?_⟩
    rw [← text?_put]
    unfold text?
    rw [files]

theorem changes_iff (leaves : Leaves b settings aim w w') (q : Path) :
    w'.text? q ≠ w.text? q ↔ ∃ p i, Lands b settings aim p i ∧ p.same q = true := by
  constructor
  · intro change
    cases leaves with
    | kept files _ =>
      unfold text? at change
      rw [files] at change
      exact absurd rfl change
    | @landed p i t text files filled lands =>
      refine ⟨p, i, lands, ?_⟩
      apply Decidable.byContradiction
      intro other
      apply change
      have after := text?_put w p q (Text.splice t i.position i.text)
      rw [if_neg other] at after
      rw [← after]
      unfold text?
      rw [files]
  · rintro ⟨p, i, lands, same⟩
    obtain ⟨t, text, filled, after⟩ := leaves.text?_of_landed lands
    rw [after q, if_pos same, ← text?_congr w same, text]
    intro unchanged
    exact Text.splice_ne_self t i.position filled (Option.some.inj unchanged)

theorem error_iff (leaves : Leaves b settings aim w w') {e : DisableError}
    (ends : b.outcome settings root aim = .error e) : (∃ q, w'.text? q ≠ w.text? q) ↔
      ∃ p i, Lands b settings aim p i ∧ b.failure? (.reveal p (some i.cursor)) = some e := by
  constructor
  · rintro ⟨q, change⟩
    obtain ⟨p, i, lands, -⟩ := (leaves.changes_iff q).mp change
    refine ⟨p, i, lands, ?_⟩
    rw [lands.outcome_eq root] at ends
    cases shows : b.failure? (.reveal p (some i.cursor)) with
    | none =>
      rw [shows] at ends
      exact nomatch ends
    | some e' =>
      rw [shows] at ends
      rw [Except.error.inj ends]
  · rintro ⟨p, i, lands, -⟩
    exact ⟨p, (leaves.changes_iff p).mpr ⟨p, i, lands, p.same_refl⟩⟩

end Leaves

theorem goes_disable (w : Workspace) (settings : Settings) (root : Path) (s : Step) :
    let o := w.disable s.behaviour settings root s.rule
    ∃ aim, Goes settings root s w aim o.1 o.2 := by
  obtain ⟨aim, aims, ends, calls, leaves⟩ := exists_aim w settings root s
  refine ⟨aim, ?_⟩
  constructor
  case aims => exact aims
  case calls => exact calls
  case ends => exact ends
  case ok_iff =>
    intro i
    rw [ends]
    exact outcome_eq_ok_iff
  case point_iff => exact aims.point_iff
  case inserts => exact filter_made s.behaviour settings aim
  case paths => exact leaves.paths
  case landed =>
    intro p i lands q same
    obtain ⟨t, text, -, after⟩ := leaves.text?_of_landed lands
    refine ⟨t, (text?_congr w same).symm.trans text, ?_⟩
    rw [after q, if_pos same]
  case changes_iff => exact leaves.changes_iff
  case error_iff =>
    intro e failed
    exact leaves.error_iff (ends.symm.trans failed)

end Steps

/-! ### Any number of steps -/

/-- The workspace behind some steps, each of which finds the files that those before it leave. -/
def after (w : Workspace) (settings : Settings) (root : Path) (steps : List Step) : Workspace :=
  steps.foldl (fun w s => (w.disable s.behaviour settings root s.rule).2) w

/-- One workspace is another one but for the text of the first candidate in the directory. -/
structure OnlyChosenChanges (root : Path) (w w' : Workspace) : Prop where
  paths : w'.files.map Prod.fst = w.files.map Prod.fst
  chosen : Config.candidates.find? (w'.isThere root) = Config.candidates.find? (w.isThere root)
  changed : ∀ q, w'.text? q ≠ w.text? q → ∃ name,
    Config.candidates.find? (w.isThere root) = some name ∧ (root.join name).same q = true

section Run

variable {w w' w'' : Workspace} {settings : Settings} {root : Path} {s : Step}

theorem isThere_congr (root : Path) (paths : w'.files.map Prod.fst = w.files.map Prod.fst) :
    w'.isThere root = w.isThere root := by
  funext name
  unfold isThere
  rw [isSome_text?, isSome_text?, paths]

namespace OnlyChosenChanges

protected theorem refl (root : Path) (w : Workspace) : OnlyChosenChanges root w w :=
  ⟨rfl, rfl, fun _ change => absurd rfl change⟩

protected theorem trans (first : OnlyChosenChanges root w w')
    (second : OnlyChosenChanges root w' w'') : OnlyChosenChanges root w w'' := by
  refine ⟨second.paths.trans first.paths, second.chosen.trans first.chosen, fun q change => ?_⟩
  by_cases earlier : w'.text? q = w.text? q
  · rw [← earlier] at change
    obtain ⟨name, chosen, same⟩ := second.changed q change
    exact ⟨name, first.chosen.symm.trans chosen, same⟩
  · exact first.changed q earlier

end OnlyChosenChanges

/-- A step changes no file but the first candidate. -/
theorem Goes.onlyChosenChanges {aim : Aim} {result : Except DisableError Config.Insertion}
    (goes : Goes settings root s w aim result w') : OnlyChosenChanges root w w' := by
  have there := isThere_congr root goes.paths
  refine ⟨goes.paths, by rw [there], fun q change => ?_⟩
  obtain ⟨p, i, lands, same⟩ := (goes.changes_iff q).mp change
  have aims := goes.aims
  rw [lands.inserts] at aims
  cases aims with
  | insert first text plan => exact ⟨_, first, same⟩

theorem OnlyChosenChanges.after (w : Workspace) (settings : Settings) (root : Path)
    (steps : List Step) : OnlyChosenChanges root w (w.after settings root steps) := by
  induction steps generalizing w with
  | nil => exact .refl root w
  | cons s steps ih =>
    obtain ⟨aim, goes⟩ := goes_disable w settings root s
    exact goes.onlyChosenChanges.trans (ih _)

end Run

/-- Behind any steps, the next one makes its calls up to the first that fails and reports that
failure. None of them has changed any file but the first candidate, whose text changes exactly when
the entry is inserted, and together with an error only if the entry cannot be shown. -/
theorem steps_fail_atomically (w : Workspace) (settings : Settings) (root : Path)
    (steps : List Step) (s : Step) :
    let now := w.after settings root steps
    let o := now.disable s.behaviour settings root s.rule
    OnlyChosenChanges root w now ∧ ∃ aim, Goes settings root s now aim o.1 o.2 :=
  ⟨.after w settings root steps, goes_disable _ settings root s⟩

end Workspace

end RuleOff
