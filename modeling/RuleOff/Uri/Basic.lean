import RuleOff.Text.Basic

/-!
# Uniform resource identifiers

A URI in normal form: the parts as they are written, after a reader has put them into the form in
which equal identifiers have equal texts.

## Main definitions

* `Uri`: the parts.
* `Uri.text`: the whole identifier.
* `Uri.segments?`: the segments of a hierarchical path.
-/

namespace RuleOff

/-- Who serves a resource: user information in front of `@`, a host, and a port unless it is the
scheme's usual one. An absent host is empty. -/
structure Uri.Authority where
  user : Text
  host : Text
  port : Option Nat
deriving DecidableEq, Repr, Inhabited

/-- A URI in normal form. The scheme is in lower case; the other parts are percent-encoded. -/
structure Uri where
  scheme : Text
  authority : Option Uri.Authority
  path : Text
  query : Option Text
  fragment : Option Text
deriving DecidableEq, Repr, Inhabited

namespace Uri

def Authority.text (a : Authority) : Text :=
  (if a.user = [] then [] else a.user ++ ['@']) ++ a.host ++
    (match a.port with
      | some p => ':' :: Text.ofNat p
      | none => [])

/-- A part with its mark in front, if there is the part. -/
def marked (mark : Char) : Option Text → Text
  | some t => mark :: t
  | none => []

/-- The whole identifier. Without an authority, `/.` keeps two slashes in front of the path from
being read as the start of one. -/
def text (u : Uri) : Text :=
  u.scheme ++ ':' ::
    ((match u.authority with
      | some a => '/' :: '/' :: a.text
      | none => if (['/', '/'] : Text).isPrefixOf u.path then ['/', '.'] else []) ++
      (u.path ++ (marked '?' u.query ++ marked '#' u.fragment)))

def host? (u : Uri) : Option Text :=
  match u.authority with
  | some a => if a.host = [] then none else some a.host
  | none => none

/-- The segments of a path that starts with a slash. Any other path is opaque and has none. -/
def segments? (u : Uri) : Option (List Text) :=
  match u.path with
  | '/' :: rest => some (Text.split '/' rest)
  | _ => none

end Uri

end RuleOff
