import RuleOff.Json.Decode

/-!
# Indentation settings

How one level of indentation is written: a tab, or a number of spaces. Settings come from JSON
values that may carry either key, directly or inside the member `eslintDisable`, and overlay the
settings before them.

## Main definitions

* `Settings`: the two keys.
* `Settings.overlay`: the settings changed by the keys of a JSON value.
* `Settings.indentUnit`: one level of indentation.
-/

namespace RuleOff

/-- How lines are indented. -/
structure Settings where
  /-- Indent with spaces instead of a tab. -/
  insertSpaces : Bool := true
  /-- The number of spaces of one level. -/
  tabSize : UInt32 := 4
deriving DecidableEq, Repr, Inhabited

namespace Settings

/-- The member of a JSON value that may hold the settings. -/
def sectionName : Text := "eslintDisable".toList

def insertSpacesKey : Text := "insertSpaces".toList

def tabSizeKey : Text := "tabSize".toList

/-- The part of a JSON value that holds the settings: its member for them if that is an object,
and otherwise the value itself. -/
def sectionOf (v : Json) : Json :=
  match v.get? sectionName with
  | some w => if w.isObject then w else v
  | none => v

/-- The two keys of a section, each of which may be absent. -/
def keys (v : Json) : Decoded (Option Bool × Option UInt32) := do
  let insertSpaces ← Json.optional insertSpacesKey Json.asBool v
  let tabSize ← Json.optional tabSizeKey Json.asUInt32 v
  pure (insertSpaces, tabSize)

/-- The settings changed by the keys of a JSON value: `none` if the value has neither key, and an
error if a key has a value of the wrong kind. -/
def overlay (s : Settings) (v : Json) : Decoded (Option Settings) :=
  let part := sectionOf v
  if part.isObject then
    match keys part with
    | .error e => .error e
    | .ok (none, none) => .ok none
    | .ok (insertSpaces, tabSize) =>
      .ok (some ⟨insertSpaces.getD s.insertSpaces, tabSize.getD s.tabSize⟩)
  else .ok none

/-- The wording of a failed overlay. -/
def overlayMessage (e : DecodeError) : Text :=
  "parsing eslint-disable settings: ".toList ++ e.message

/-- One level of indentation: a tab, or at least one space. -/
def indentUnit (s : Settings) : Text :=
  if s.insertSpaces then List.replicate (max s.tabSize.toNat 1) ' ' else ['\t']

end Settings

end RuleOff
