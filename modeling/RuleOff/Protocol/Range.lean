import RuleOff.Json.Decode
import RuleOff.Text.Position
import RuleOff.Uri.FilePath

/-!
# Positions, ranges and URIs on the wire

How the places of a document and its identifier are read from JSON and written to it.
-/

namespace RuleOff

/-- A part of a document between two positions. -/
structure Range where
  start : Position
  stop : Position
deriving DecidableEq, Repr, Inhabited

/-- The empty range at a position. -/
def Range.at (p : Position) : Range := ⟨p, p⟩

def Position.toJson (p : Position) : Json :=
  .obj [("line".toList, .ofNat p.line.toNat), ("character".toList, .ofNat p.character.toNat)]

/-- The position written by a JSON value. -/
def Position.decode (v : Json) : Decoded Position := do
  Json.expectObject "a position".toList v
  let line ← v.required "line".toList Json.asUInt32
  let character ← v.required "character".toList Json.asUInt32
  pure ⟨line, character⟩

def Range.toJson (r : Range) : Json :=
  .obj [("start".toList, r.start.toJson), ("end".toList, r.stop.toJson)]

/-- The range written by a JSON value. -/
def Range.decode (v : Json) : Decoded Range := do
  Json.expectObject "a range".toList v
  let start ← v.required "start".toList Position.decode
  let stop ← v.required "end".toList Position.decode
  pure ⟨start, stop⟩

def Uri.toJson (u : Uri) : Json := .str u.text

/-- The URI written by a JSON value. -/
def Uri.decode : Json → Decoded Uri
  | .str s =>
    match Uri.parse? s with
    | some u => .ok u
    | none => .error (.invalidType (.str s) "a URI".toList)
  | v => .error (.invalidType v "a URI".toList)

end RuleOff
