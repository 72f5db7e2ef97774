import RuleOff.Text.Basic

/-!
# Schemes

The scheme in front of a URI, and how it decides the way in which the rest is read.

## Main definitions

* `Uri.SchemeKind`: how a scheme is read.
* `Uri.scheme?`: the scheme of a text.
-/

namespace RuleOff.Uri

/-- How a scheme is read. -/
inductive SchemeKind where
  /-- The scheme of local files. -/
  | file
  /-- A scheme whose URIs name a host. -/
  | special
  | other
deriving DecidableEq, Repr, Inhabited

namespace SchemeKind

/-- The kind of a scheme in lower case. -/
def ofScheme (s : Text) : SchemeKind :=
  if s = "file".toList then file
  else if s = "http".toList ∨ s = "https".toList ∨ s = "ws".toList ∨ s = "wss".toList ∨
      s = "ftp".toList then special
  else other

/-- Whether a backslash is read as a slash. -/
def takesBackslash : SchemeKind → Bool
  | other => false
  | _ => true

end SchemeKind

/-- The port that a scheme uses when none is given. -/
def usualPort? (scheme : Text) : Option Nat :=
  if scheme = "http".toList ∨ scheme = "ws".toList then some 80
  else if scheme = "https".toList ∨ scheme = "wss".toList then some 443
  else if scheme = "ftp".toList then some 21
  else none

/-- Whether the character may stand in a scheme after its first letter. -/
def isSchemeChar (c : Char) : Bool := c.isAlphanum || c ∈ ['+', '-', '.']

/-- The scheme in lower case, and what follows its colon. -/
def scheme? (t : Text) : Option (Text × Text) :=
  match t with
  | c :: _ =>
    if c.isAlpha then
      match t.dropWhile isSchemeChar with
      | ':' :: rest => some ((t.takeWhile isSchemeChar).map Char.toLower, rest)
      | _ => none
    else none
  | [] => none

def isSlash (kind : SchemeKind) (c : Char) : Bool :=
  c == '/' || (kind.takesBackslash && c == '\\')

/-- Whether the character is a tab or ends a line. Such characters mean nothing in a URI. -/
def isBreak (c : Char) : Bool := c == '\t' || c == '\n' || c == '\r'

/-- The text without its tabs and line ends. -/
def dropBreaks (t : Text) : Text := t.filter fun c => !isBreak c

end RuleOff.Uri
