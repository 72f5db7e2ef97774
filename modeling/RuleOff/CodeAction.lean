import RuleOff.Diagnostic

/-!
# Quick fixes

For every diagnostic of a script that names a lint rule the server offers a quick fix whose
command switches the rule off for the whole project.

## Main definitions

* `CodeAction.appliesTo`: the documents in which quick fixes are offered.
* `CodeAction.offered`: the quick fixes for a list of diagnostics.
-/

namespace RuleOff

/-- A quick fix that switches off the rule of a diagnostic. -/
structure CodeAction where
  rule : Text
  diagnostic : Diagnostic
deriving Repr, Inhabited

namespace CodeAction

/-- The name of the command that switches a rule off. -/
def disableCommand : Text := "extension.disableEslintRule".toList

/-- The extensions of documents in which quick fixes are offered. -/
def scriptExtensions : List Text :=
  ["ts".toList, "tsx".toList, "jsm".toList, "mjs".toList, "cjs".toList, "jsx".toList,
    "html".toList, "vue".toList]

def quickFixKind : Text := "quickfix".toList

/-- Whether quick fixes are offered in the document: the path of its URI, as it is encoded, has
the extension of a script. -/
def appliesTo (u : Uri) : Bool :=
  match (Path.mk u.path).extension? with
  | some e => scriptExtensions.contains e
  | none => false

/-- One quick fix for every diagnostic that names a rule, in the order of the diagnostics. -/
def offered (u : Uri) (diagnostics : List Diagnostic) : List CodeAction :=
  if appliesTo u then diagnostics.filterMap fun d => d.ruleId?.map fun rule => ⟨rule, d⟩
  else []

/-- What the user reads. -/
def title (a : CodeAction) : Text :=
  "Disable ".toList ++ a.rule ++ " project-wide".toList

/-- The JSON form of the command that the quick fix runs. -/
def commandToJson (a : CodeAction) : Json :=
  .obj
    [("title".toList, .str a.title), ("command".toList, .str disableCommand),
      ("arguments".toList, .arr [.str a.rule])]

/-- The JSON form of a quick fix. -/
def toJson (a : CodeAction) : Json :=
  .obj
    [("title".toList, .str a.title), ("kind".toList, .str quickFixKind),
      ("diagnostics".toList, .arr [a.diagnostic.toJson]),
      ("command".toList, a.commandToJson), ("isPreferred".toList, .bool false)]

end CodeAction

end RuleOff
