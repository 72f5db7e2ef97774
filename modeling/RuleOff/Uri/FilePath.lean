import RuleOff.Uri.Parser
import RuleOff.Path

/-!
# URIs of files

The path of a URI as a path of the local file system, and back.

## Main definitions

* `Uri.toFilePath?`: the local path that a URI stands for.
* `Uri.ofFilePath?`: the `file` URI of an absolute path.
-/

namespace RuleOff.Uri

/-- Whether the text ends in the name of a drive, after at least one other character. -/
def endsInDrive (t : Text) : Bool :=
  match t.reverse with
  | d :: c :: _ :: _ => c.isAlpha && (d == ':' || d == '|')
  | _ => false

/-- The local path that a URI stands for: its decoded segments with a slash in front of each. The
path must have segments, and the host must be absent or `localhost`. A path that ends in the name
of a drive gets a slash at its end. Of the scheme nothing is asked. A path is a text here, so there
is none where the decoded bytes are not UTF-8. -/
def toFilePath? (u : Uri) : Option Path := do
  let segments ← u.segments?
  if u.host? = none ∨ u.host? = some "localhost".toList then
    let bytes := segments.flatMap fun s => 0x2F :: Percent.decode s
    let t ← Text.ofUtf8? bytes
    pure ⟨if endsInDrive t then t ++ ['/'] else t⟩
  else none

def ofFilePath? (p : Path) : Option Uri :=
  if p.isAbsolute then
    let segments := (p.components.drop 1).map fun c => Percent.encode Percent.fileNameSet c.text
    some ⟨"file".toList, some ⟨[], [], none⟩, ofSegments segments, none, none⟩
  else none

end RuleOff.Uri
