import RuleOff.Protocol.Range

/-!
# Diagnostics

The problems that an editor shows in a document, and which of them name a lint rule.

## Main definitions

* `Diagnostic`: a problem with what is known about it.
* `Diagnostic.ruleId?`: the rule that a diagnostic is about.
-/

namespace RuleOff

/-- The code of a diagnostic: a number or a name. -/
inductive DiagnosticCode where
  | number (n : Int)
  | name (s : Text)
deriving DecidableEq, Repr, Inhabited

namespace DiagnosticCode

def text : DiagnosticCode → Text
  | number n => Text.ofInt n
  | name s => s

def toJson : DiagnosticCode → Json
  | number n => .int n
  | name s => .str s

/-- The code written by a JSON value: an integer of 32 bits or a string. -/
def decode : Json → Decoded DiagnosticCode
  | .str s => .ok (name s)
  | v => (Json.asInt32 v).map number

end DiagnosticCode

/-- A place that a diagnostic refers to, with what is said about it. -/
structure RelatedInformation where
  uri : Uri
  range : Range
  message : Text
deriving DecidableEq, Repr, Inhabited

namespace RelatedInformation

def toJson (r : RelatedInformation) : Json :=
  .obj [("location".toList, .obj [("uri".toList, r.uri.toJson), ("range".toList, r.range.toJson)]),
    ("message".toList, .str r.message)]

def decode (v : Json) : Decoded RelatedInformation := do
  let place ← v.required "location".toList .ok
  let uri ← place.required "uri".toList Uri.decode
  let range ← place.required "range".toList Range.decode
  let message ← v.required "message".toList Json.asString
  pure ⟨uri, range, message⟩

end RelatedInformation

/-- A problem in a document. -/
structure Diagnostic where
  range : Range
  severity : Option Int := none
  code : Option DiagnosticCode := none
  /-- Where the code is explained. -/
  codeDescription : Option Uri := none
  /-- The tool that reports the problem. -/
  source : Option Text := none
  message : Text
  relatedInformation : Option (List RelatedInformation) := none
  tags : Option (List Int) := none
  data : Option Json := none
deriving Repr, Inhabited

namespace Diagnostic

def lintSource : Text := "eslint".toList

/-- The rule that a diagnostic is about: the text of its code, if the diagnostic comes from the
linter, the code is explained somewhere, and the text is not empty. -/
def ruleId? (d : Diagnostic) : Option Text :=
  if d.source = some lintSource ∧ d.codeDescription.isSome then
    match d.code with
    | some code => if code.text = [] then none else some code.text
    | none => none
  else none

/-- The JSON form of where a code is explained. -/
def descriptionToJson (u : Uri) : Json := .obj [("href".toList, u.toJson)]

/-- The place where a code is explained. -/
def decodeDescription (v : Json) : Decoded Uri := v.required "href".toList Uri.decode

/-- The JSON form of a diagnostic. What is not known is left out. -/
def toJson (d : Diagnostic) : Json :=
  .ofFields
    [("range".toList, some d.range.toJson),
      ("severity".toList, d.severity.map .int),
      ("code".toList, d.code.map DiagnosticCode.toJson),
      ("codeDescription".toList, d.codeDescription.map descriptionToJson),
      ("source".toList, d.source.map .str),
      ("message".toList, some (.str d.message)),
      ("relatedInformation".toList,
        d.relatedInformation.map fun rs => .arr (rs.map RelatedInformation.toJson)),
      ("tags".toList, d.tags.map fun ts => .arr (ts.map .int)),
      ("data".toList, d.data)]

/-- The diagnostic written by a JSON value. Range and message are required. -/
def decode (v : Json) : Decoded Diagnostic := do
  Json.expectObject "a diagnostic".toList v
  let range ← v.required "range".toList Range.decode
  let severity ← v.optional "severity".toList Json.asInt32
  let code ← v.optional "code".toList DiagnosticCode.decode
  let codeDescription ← v.optional "codeDescription".toList decodeDescription
  let source ← v.optional "source".toList Json.asString
  let message ← v.required "message".toList Json.asString
  let relatedInformation ←
    v.optional "relatedInformation".toList (Json.asList RelatedInformation.decode)
  let tags ← v.optional "tags".toList (Json.asList Json.asInt32)
  let data ← v.optional "data".toList Json.asAny
  pure ⟨range, severity, code, codeDescription, source, message, relatedInformation, tags, data⟩

end Diagnostic

end RuleOff
