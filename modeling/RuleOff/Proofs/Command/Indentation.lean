import Mathlib.Data.List.Induction
import RuleOff.Proofs.Command.Version
import RuleOff.Proofs.Session.Working

/-!
# The indentation of an edit

An edit indents its entry as the client says. The client may say so in the reply to the request for
the editor's indentation, in a payload of the configuration, or at the start, and each of the two
keys goes by the latest source that carries it. A source counts as a whole: a value with a key of
the wrong kind says nothing, of the other key neither.

## Main definitions

* `Settings.part?`, `Settings.isValid`: the part of a value that holds the keys, and whether it
  counts.
* `Settings.spacesOf?`, `Settings.sizeOf?`: what a value says of each key.
* `Settings.latest?`: what some values say of a key, the latest first.

## Main statements

* `Settings.overlay_eq`: an overlay goes by what the value says of each key.
* `Session.Moment.settings_eq`: the settings of a server at work.
* `Command.indentation_is_latest`: the indentation of an edit.
-/

namespace RuleOff

namespace Settings

/-- The object that holds the keys: the member of a value for them if that is an object, and
otherwise the value, if it is one itself. -/
def part? (v : Json) : Option Json :=
  match v.get? sectionName with
  | some (.obj members) => some (.obj members)
  | _ => if v.isObject then some v else none

/-- A boolean, or nothing. -/
def isSpaces : Option Json → Bool
  | none | some .null | some (.bool _) => true
  | _ => false

/-- An integer of 32 bits without a sign, or nothing. -/
def isSize : Option Json → Bool
  | none | some .null => true
  | some (.int n) => 0 ≤ n ∧ n < Int.pow 2 32
  | _ => false

/-- Both keys of a section are of their kind, as far as they are there. -/
def isValid (part : Json) : Bool :=
  isSpaces (part.get? insertSpacesKey) && isSize (part.get? tabSizeKey)

def boolean? : Option Json → Option Bool
  | some (.bool b) => some b
  | _ => none

def size? : Option Json → Option UInt32
  | some (.int n) => some (UInt32.ofNat n.toNat)
  | _ => none

/-- Whether a value says to indent with spaces. -/
def spacesOf? (v : Json) : Option Bool :=
  ((part? v).filter isValid).bind fun part => boolean? (part.get? insertSpacesKey)

/-- What a value says of the number of spaces. -/
def sizeOf? (v : Json) : Option UInt32 :=
  ((part? v).filter isValid).bind fun part => size? (part.get? tabSizeKey)

/-- What the latest of some values that says anything of a key says of it. -/
def latest? {α : Type} (key : Json → Option α) (values : List Json) : Option α :=
  (values.filterMap key).getLast?

/-- The settings with the keys that a value says something of. -/
def overlaid (s : Settings) (v : Json) : Settings :=
  ⟨(spacesOf? v).getD s.insertSpaces, (sizeOf? v).getD s.tabSize⟩

section Overlay

theorem part?_eq (v : Json) :
    part? v = if (sectionOf v).isObject then some (sectionOf v) else none := by
  unfold part? sectionOf
  cases v.get? sectionName with
  | none => rfl
  | some w => cases w <;> rfl

theorem toOption_asBool (w : Option Json) :
    (Json.asOptional Json.asBool w).toOption = if isSpaces w then some (boolean? w) else none := by
  cases w with
  | none => rfl
  | some w => cases w <;> rfl

theorem toOption_asUInt32 (w : Option Json) :
    (Json.asOptional Json.asUInt32 w).toOption = if isSize w then some (size? w) else none := by
  cases w with
  | none => rfl
  | some w =>
    cases w with
    | int n =>
      change ((if 0 ≤ n ∧ n < Int.pow 2 32 then .ok (UInt32.ofNat n.toNat) else .error _ :
        Decoded UInt32).map some).toOption = if decide (0 ≤ n ∧ n < Int.pow 2 32) then _ else _
      by_cases fits : 0 ≤ n ∧ n < Int.pow 2 32
      · rw [if_pos fits, if_pos (decide_eq_true fits)]
        rfl
      · rw [if_neg fits, decide_eq_false fits]
        rfl
    | _ => rfl

/-- The keys of a section can be read if the section is valid. -/
theorem toOption_keys (part : Json) :
    (keys part).toOption = if isValid part then
      some (boolean? (part.get? insertSpacesKey), size? (part.get? tabSizeKey)) else none := by
  have both : (keys part).toOption =
      (Json.asOptional Json.asBool (part.get? insertSpacesKey)).toOption.bind fun spaces =>
        (Json.asOptional Json.asUInt32 (part.get? tabSizeKey)).toOption.map fun size =>
          (spaces, size) := by
    unfold keys Json.optional
    cases Json.asOptional Json.asBool (part.get? insertSpacesKey) <;>
      cases Json.asOptional Json.asUInt32 (part.get? tabSizeKey) <;> rfl
  rw [both, toOption_asBool, toOption_asUInt32]
  unfold isValid
  cases isSpaces (part.get? insertSpacesKey) <;> cases isSize (part.get? tabSizeKey) <;> rfl

/-- An overlay goes by what the value says of each key. -/
theorem overlay_eq (s : Settings) (v : Json) :
    (s.overlay v).toOption.join.getD s = s.overlaid v := by
  have read := toOption_keys (sectionOf v)
  unfold overlay overlaid spacesOf? sizeOf?
  rw [part?_eq]
  dsimp only
  cases (sectionOf v).isObject with
  | false => rfl
  | true =>
    rw [if_pos rfl, if_pos rfl, Option.filter_some]
    cases found : keys (sectionOf v) with
    | error e =>
      cases valid : isValid (sectionOf v) with
      | true =>
        rw [found, valid] at read
        exact nomatch read
      | false => rfl
    | ok pair =>
      cases valid : isValid (sectionOf v) with
      | false =>
        rw [found, valid] at read
        exact nomatch read
      | true =>
        rw [found, valid] at read
        obtain rfl := Option.some.inj read
        rw [if_pos rfl, Option.bind_some, Option.bind_some]
        cases boolean? ((sectionOf v).get? insertSpacesKey) <;>
          cases size? ((sectionOf v).get? tabSizeKey) <;> rfl

theorem latest?_append_singleton {α : Type} (key : Json → Option α) (values : List Json)
    (v : Json) : latest? key (values ++ [v]) = (key v).or (latest? key values) := by
  have last : (key v).toList.getLast? = key v := by cases key v <;> rfl
  have single : [v].filterMap key = (key v).toList := by
    cases said : key v <;> simp [said]
  unfold latest?
  rw [List.filterMap_append, List.getLast?_append, single, last]

theorem foldl_overlaid (s : Settings) (values : List Json) :
    values.foldl overlaid s =
      ⟨(latest? spacesOf? values).getD s.insertSpaces, (latest? sizeOf? values).getD s.tabSize⟩ := by
  induction values using List.reverseRecOn with
  | nil => rfl
  | append_singleton values v ih =>
    rw [List.foldl_append, ih, latest?_append_singleton, latest?_append_singleton]
    change overlaid _ v = _
    unfold overlaid
    cases spacesOf? v <;> cases sizeOf? v <;> rfl

end Overlay

/-- The settings that some payloads come to, each key by the latest that says anything of it. -/
def ofPayloads (payloads : List Json) : Settings :=
  ⟨(latest? spacesOf? payloads).getD true, (latest? sizeOf? payloads).getD 4⟩

end Settings

/-- The payload of a notification about the configuration. -/
def Invocation.payload? (n : Invocation) : Option Json :=
  match Method.ofName n.method with
  | .didChangeConfiguration => Server.readParams? decodeConfiguration n.params
  | _ => none

namespace Server

variable {s : Server}

theorem updateSettings_settings (s : Server) (v : Json) :
    (s.updateSettings v).1.settings = s.settings.overlaid v := by
  rw [← Settings.overlay_eq]
  unfold updateSettings
  split
  · next settings overlay => rw [overlay]; rfl
  · next overlay => rw [overlay]; rfl
  · next overlay => rw [overlay]; rfl

/-- A payload is all that changes the settings. -/
theorem hearRunning_settings (s : Server) (n : Invocation) :
    (s.hearRunning n).1.settings = n.payload?.elim s.settings s.settings.overlaid := by
  unfold hearRunning Invocation.payload?
  generalize Method.ofName n.method = method
  cases method
  case didChangeConfiguration =>
    cases readParams? decodeConfiguration n.params with
    | none => rfl
    | some v => exact updateSettings_settings s v
  case didChange =>
    cases readParams? ChangeParams.decode n.params with
    | none => rfl
    | some p =>
      change (s.changeDocument p).settings = s.settings
      unfold changeDocument
      split <;> rfl
  -- The others leave the settings alone.
  all_goals first | rfl | (dsimp only; split <;> rfl)

theorem start_settings (s : Server) (p : StartParams) :
    (s.start p).1.settings = p.options.toList.foldl Settings.overlaid s.settings := by
  unfold start
  cases p.options with
  | none => rfl
  | some v => exact updateSettings_settings _ v

end Server

namespace Session

variable {disk : Disk} {client : Client} {s : Server} {p : StartParams} {heard : List Invocation}

/-- The payloads that a server at work has got, those of the start and those heard since. -/
def payloads (p : StartParams) (heard : List Invocation) : List Json :=
  p.options.toList ++ heard.filterMap Invocation.payload?

/-- The settings of a server at work come from its payloads alone. -/
theorem Moment.settings_eq (moment : Moment p disk s heard) :
    s.settings = .ofPayloads (payloads p heard) := by
  have running := moment.running
  have since := moment.eq_hearAll
  rw [since] at running ⊢
  rw [Server.hearAll_eq_foldl Server.settings Server.hearRunning_settings running,
    Server.start_settings, ← List.foldl_append]
  exact Settings.foldl_overlaid {} _

end Session

namespace Command

open Script Session

/-- The first value of a reply. -/
def firstValue? : Reply → Option Json
  | .result (.arr (v :: _)) => some v
  | _ => none

theorem reported_eq (fallback : Settings) (reply : Reply) :
    (reported fallback reply).1 = (firstValue? reply).toList.foldl Settings.overlaid fallback := by
  match reply with
  | .result (.arr (v :: vs)) =>
    change (ClientEditor.indentationFrom fallback (v :: vs)).1 = fallback.overlaid v
    rw [← Settings.overlay_eq]
    unfold ClientEditor.indentationFrom
    dsimp only
    split
    · next overlay => rw [overlay]; rfl
    · next overlay => rw [overlay]; rfl
    · next overlay => rw [overlay]; rfl
  | .result (.arr []) => rfl
  | .result .null | .result (.bool _) | .result (.int _) | .result (.float _)
  | .result (.str _) | .result (.obj _) | .failure _ => rfl

theorem overlaid_ofPayloads (told : Option Json) (values : List Json) :
    told.toList.foldl Settings.overlaid (.ofPayloads values) =
      ⟨((told.bind Settings.spacesOf?).or (Settings.latest? Settings.spacesOf? values)).getD true,
        ((told.bind Settings.sizeOf?).or (Settings.latest? Settings.sizeOf? values)).getD 4⟩ := by
  cases told with
  | none => rfl
  | some v =>
    change Settings.overlaid _ v = _
    unfold Settings.overlaid
    rw [Option.bind_some, Option.bind_some]
    cases Settings.spacesOf? v <;> cases Settings.sizeOf? v <;> rfl

variable {disk : Disk} {client : Client} {s : Server} {p : StartParams} {heard : List Invocation}
  {rule : Text} {e : DocumentEdit}

/-- An edit indents its entry key by key: by the first value of the reply to the request for the
editor's indentation, or else by the latest payload that says anything of the key, or else with
spaces, four of them. The settings of the server come from its payloads alone, and the reply leaves
them as they are. -/
theorem indentation_is_latest (working : Working p disk s heard) {r : Invocation}
    {q : CommandParams} (method : Method.ofName r.method = .executeCommand)
    (decoded : Server.readParams? CommandParams.decode r.params = some q)
    (command : q.command = CodeAction.disableCommand)
    (argument : Server.ruleArgument? q.arguments = some rule) (id : MessageId)
    (sent : .applyEdit e ∈ requests (receive disk client s (.request id r)).2.1) :
    (∃ b : EditBasis disk client s rule, e = b.edit ∧
      let told :=
        firstValue? (client.answer (.configuration b.uri ClientEditor.editorSection)).reply
      let spaces := ((told.bind Settings.spacesOf?).or
        (Settings.latest? Settings.spacesOf? (payloads p heard))).getD true
      let size := ((told.bind Settings.sizeOf?).or
        (Settings.latest? Settings.sizeOf? (payloads p heard))).getD 4
      Config.plan b.text (if b.name = ".eslintrc.json".toList then .json else .yaml) rule
          (if spaces then List.replicate (max size.toNat 1) ' ' else ['\t']) =
        some b.insertion) ∧
    s.settings = .ofPayloads (payloads p heard) ∧
    (receive disk client s (.request id r)).1 =
      (s.hearAll (heardWith disk client s (.request id r))).1 := by
  have running := working.running
  have settings : s.settings = .ofPayloads (payloads p heard) := (Moment.between working).settings_eq
  have alone : (receive disk client s (.request id r)).1 =
      (s.hearAll (heardWith disk client s (.request id r))).1 := by
    rw [receive_request_server (Server.ne_exited_of_running running),
      answer_disable running method decoded command argument]
  refine ⟨?_, settings, alone⟩
  obtain ⟨b, same⟩ := exists_basis_of_sent running method decoded command argument sent
  have plan := b.plan
  rw [b.indentation, reported_eq, settings, overlaid_ofPayloads] at plan
  exact ⟨b, same, plan⟩

/-- The start says to indent with tabs, a later payload names a size, and the editor says to indent
with spaces: the entry is indented with as many spaces as the payload says. -/
theorem indentation_is_latest_of_three_sources :
    let disk : Disk := ⟨[(["w".toList], .directory),
      (["w".toList, ".eslintrc.yml".toList], .file "rules:\n".toUTF8.data.toList)]⟩
    let client : Client :=
      { answer := fun q =>
          match q with
          | .configuration _ _ =>
            ⟨[], .result (.arr [.obj [("insertSpaces".toList, .bool true)]])⟩
          | _ => ⟨[], .result .null⟩ }
    let start : Step := .send client (.obj
      [("id".toList, .int 1), ("method".toList, .str "initialize".toList),
        ("params".toList, .obj
          [("capabilities".toList, .obj []), ("rootUri".toList, .str "file:///w".toList),
            ("initializationOptions".toList, .obj [("eslintDisable".toList, .obj
              [("insertSpaces".toList, .bool false), ("tabSize".toList, .int 8)])])])])
    let configured : Step := .send client (.obj
      [("method".toList, .str "workspace/didChangeConfiguration".toList),
        ("params".toList, .obj [("settings".toList, .obj [("tabSize".toList, .int 2)])])])
    let s₁ := (step disk {} start).2.1
    let s := (step disk s₁ configured).2.1
    let heard := configured.heard disk s₁
    let r : Invocation :=
      ⟨"workspace/executeCommand".toList,
        some (.obj [("command".toList, .str CodeAction.disableCommand),
          ("arguments".toList, .arr [.str "semi".toList])])⟩
    ∃ (p : StartParams) (e : DocumentEdit), Working p disk s heard ∧
      e.newText = "  semi: off\n".toList ∧
      .applyEdit e ∈ requests (receive disk client s (.request .null r)).2.1 ∧
      (∃ b : EditBasis disk client s "semi".toList, e = b.edit ∧
        let told :=
          firstValue? (client.answer (.configuration b.uri ClientEditor.editorSection)).reply
        let spaces := ((told.bind Settings.spacesOf?).or
          (Settings.latest? Settings.spacesOf? (payloads p heard))).getD true
        let size := ((told.bind Settings.sizeOf?).or
          (Settings.latest? Settings.sizeOf? (payloads p heard))).getD 4
        Config.plan b.text (if b.name = ".eslintrc.json".toList then .json else .yaml)
            "semi".toList (if spaces then List.replicate (max size.toNat 1) ' ' else ['\t']) =
          some b.insertion) ∧
      s.settings = .ofPayloads (payloads p heard) ∧
      (receive disk client s (.request .null r)).1 =
        (s.hearAll (heardWith disk client s (.request .null r))).1 := by
  intro disk client start configured s₁ s heard r
  let u : Uri := ⟨"file".toList, some ⟨[], [], none⟩, "/w/.eslintrc.yml".toList, none, none⟩
  have method : Method.ofName "initialize".toList = .start := by decide
  have started : Working _ (step disk {} start).1 s₁ [] :=
    .start (.start disk) rfl client rfl method rfl
  have working : Working _ disk s heard := .step started configured rfl
  have sent : .applyEdit ⟨u, none, ⟨1, 0⟩, "  semi: off\n".toList⟩ ∈
      requests (receive disk client s (.request .null r)).2.1 :=
    List.mem_of_getElem? (i := 1) rfl
  have all := indentation_is_latest working (by decide) rfl (by decide) rfl .null sent
  exact ⟨_, _, working, rfl, sent, all⟩

end Command

end RuleOff
