import RuleOff.Config.File
import RuleOff.Config.Header
import RuleOff.Text.Position

/-!
# Where a rule is switched off

The entry that switches a rule off is a line of its own, inserted into the text of a configuration
file without reading the file's grammar. In JSON it follows the header of the rules section and
ends in a comma, for the entry after it. In YAML it follows the last line that mentions the rule's
namespace, so that the rules of one plugin stay together; a file without a header gets a section
at its end.

## Main definitions

* `Config.namespaceOf?`: the namespace of a rule.
* `Config.Insertion`: a text to insert, the place for it, and the place of the cursor afterwards.
* `Config.plan`: the insertion that switches a rule off.
-/

namespace RuleOff.Config

/-- A text to insert into a document. The cursor is the start of a line afterwards: that of the entry,
or of the key where a section is new. -/
structure Insertion where
  position : Position
  text : Text
  cursor : Position
deriving DecidableEq, Repr, Inhabited

/-- The namespace of a rule: what stands before its first slash. -/
def namespaceOf? (rule : Text) : Option Text :=
  if '/' ∈ rule then some (rule.takeWhile (· ≠ '/')) else none

/-- The number of the last line, from the given one on, that holds the text. -/
def lastMention? (needle : Text) (lines : List Text) (start : Nat) : Option Nat :=
  ((lines.zipIdx.drop start).filter fun l => Text.occursIn needle l.1).getLast?.map Prod.snd

/-- The number of the line that a YAML entry follows: the last mention of the rule's namespace
from the header on, or else the header. -/
def yamlAnchor (lines : List Text) (header : Nat) (rule : Text) : Nat :=
  match namespaceOf? rule with
  | none => header
  | some ns => (lastMention? (ns ++ ['/']) lines header).getD header

/-- How the lines of a text end: with a carriage return and a line feed if they do so anywhere,
and otherwise with a line feed. -/
def lineEnding (t : Text) : Text :=
  if Text.occursIn ['\r', '\n'] t then ['\r', '\n'] else ['\n']

/-- The position after the last character of a document. -/
def endOfDocument (lines : List Text) : Position :=
  .ofCounts (lines.length - 1) (Text.width (lines.getLastD []))

/-- The insertion of a whole line, with its ending, after the line with the given number. If that
is the last line, which has no ending, the ending is written in front. -/
def insertLineAfter (lines : List Text) (anchor : Nat) (line ending : Text) : Insertion :=
  let target := Position.ofCounts (anchor + 1) 0
  if anchor + 1 < lines.length then ⟨target, line, target⟩
  else ⟨endOfDocument lines, ending ++ line, target⟩

/-- The entry that switches a rule off in JSON, two levels deep. -/
def jsonEntry (rule indent ending : Text) : Text :=
  indent ++ indent ++ '"' :: (rule ++ "\": \"off\",".toList ++ ending)

/-- The entry that switches a rule off in YAML, one level deep. -/
def yamlEntry (rule indent ending : Text) : Text :=
  indent ++ rule ++ ": off".toList ++ ending

/-- The insertion of a rules section with one YAML entry at the end of a document. -/
def newSection (lines : List Text) (rule indent ending : Text) : Insertion :=
  ⟨endOfDocument lines, ending ++ yamlKey ++ ending ++ yamlEntry rule indent ending,
    .ofCounts lines.length 0⟩

/-- The insertion that switches a rule off in a text, with the given indentation of one level.
There is none for a JSON text without a header. -/
def plan (t : Text) (format : Format) (rule indent : Text) : Option Insertion :=
  let lines := Text.lines t
  let ending := lineEnding t
  match format, findRulesHeader lines with
  | .json, none => none
  | .json, some header =>
    some (insertLineAfter lines header (jsonEntry rule indent ending) ending)
  | .yaml, none => some (newSection lines rule indent ending)
  | .yaml, some header =>
    some (insertLineAfter lines (yamlAnchor lines header rule) (yamlEntry rule indent ending)
      ending)

end RuleOff.Config
