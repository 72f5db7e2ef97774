import RuleOff.Text.Blank

/-!
# The header of the rules section

The rules section is found line by line, without reading the grammar of the file. A header is a
line that starts with `rules:`, or one that holds the key `"rules":` with, after any white space,
an opening brace.

## Main definitions

* `Config.isRulesHeader`: whether a line is a header.
* `Config.findRulesHeader`: the number of the first header.
-/

namespace RuleOff.Config

/-- The key of the section in YAML, at the start of a line. -/
def yamlKey : Text := "rules:".toList

/-- The key of the section in JSON. -/
def jsonKey : Text := "\"rules\":".toList

/-- Whether the text starts with an opening brace after any white space. -/
def opensBrace : Text → Bool
  | [] => false
  | c :: cs => if Text.isBlank c then opensBrace cs else c == '\x7b'

/-- Whether the text starts with the JSON key and an opening brace after it. -/
def startsSection (t : Text) : Bool :=
  match Text.afterPrefix? jsonKey t with
  | some rest => opensBrace rest
  | none => false

/-- Whether the JSON key with an opening brace after it stands somewhere in the text. -/
def holdsSection : Text → Bool
  | [] => false
  | c :: cs => startsSection (c :: cs) || holdsSection cs

/-- Whether the line is a header of the rules section. -/
def isRulesHeader (line : Text) : Bool := yamlKey.isPrefixOf line || holdsSection line

/-- The number of the first line that is a header. -/
def findRulesHeader (lines : List Text) : Option Nat := lines.findIdx? isRulesHeader

end RuleOff.Config
