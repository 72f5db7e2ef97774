import RuleOff.Uri.Basic
import RuleOff.Uri.Host
import RuleOff.Uri.Segment

/-!
# Reading URIs

Absolute URIs are read leniently and put into normal form: white space around them and line breaks
in them are dropped, the scheme is put in lower case, hosts get their normal form, the usual port
of a scheme is left out, dot segments are resolved, and characters that may not stand in a part
are percent-encoded.

The special schemes take a backslash for a slash and need a host, except `file`, where the host is
optional and `localhost` means none. A scheme that is not special may be followed by an opaque
path, which is kept.

## Main definitions

* `Uri.parse?`: the URI written by a text.
-/

namespace RuleOff.Uri

/-- The text without controls and spaces around it. -/
def trim (t : Text) : Text :=
  let outer (c : Char) : Bool := c.toNat ≤ 0x20
  ((t.dropWhile outer).reverse.dropWhile outer).reverse

def endsPath (c : Char) : Bool := c == '?' || c == '#'

/-- The query and the fragment of what follows a path. -/
def tail (kind : SchemeKind) (t : Text) : Option Text × Option Text :=
  let fragment (rest : Text) : Option Text :=
    match rest with
    | '#' :: f => some (Percent.encode Percent.fragmentSet f)
    | _ => none
  match t with
  | '?' :: rest =>
    let set := if kind = .other then Percent.querySet else Percent.specialQuerySet
    (some (Percent.encode set (rest.takeWhile (· ≠ '#'))), fragment (rest.dropWhile (· ≠ '#')))
  | rest => (none, fragment rest)

/-- The text without one slash in front, of the kind that the scheme takes. -/
def dropSlash (kind : SchemeKind) : Text → Text
  | '/' :: rest => rest
  | '\\' :: rest => if kind.takesBackslash then rest else '\\' :: rest
  | t => t

/-- The user information in front of the last `@` of an authority, encoded, and what follows it.
An empty password is left out. -/
def userInfo (authority : Text) : Text × Text :=
  if '@' ∈ authority then
    let back := authority.reverse
    let host := (back.takeWhile (· ≠ '@')).reverse
    let info := ((back.dropWhile (· ≠ '@')).drop 1).reverse
    let name := Percent.encode Percent.userSet (info.takeWhile (· ≠ ':'))
    let password := Percent.encode Percent.userSet ((info.dropWhile (· ≠ ':')).drop 1)
    (if password = [] then name else name ++ ':' :: password, host)
  else ([], authority)

/-- The host in front of a port, where a colon between brackets does not count, and the rest. -/
def cutHost : Bool → Text → Text × Text
  | _, [] => ([], [])
  | inside, c :: cs =>
    if c = ':' ∧ !inside then ([], c :: cs)
    else
      let (h, rest) := cutHost (if c = '[' then true else if c = ']' then false else inside) cs
      (c :: h, rest)

/-- The port after a host, left out if it is the usual one, and what follows it. -/
def port? (scheme : Text) : Text → Option (Option Nat × Text)
  | ':' :: rest =>
    let digits := rest.takeWhile Char.isDigit
    let after := rest.dropWhile Char.isDigit
    let value := (digits.foldl (fun n c => n * 10 + (c.toNat - '0'.toNat)) 0)
    match after with
    | [] =>
      if 65535 < value then none
      else if digits = [] ∨ usualPort? scheme = some value then some (none, [])
      else some (some value, [])
    | '\\' :: _ =>
      if 65535 < value then none
      else if digits = [] ∨ usualPort? scheme = some value then some (none, after)
      else some (some value, after)
    | _ => none
  | rest => some (none, rest)

/-- A URI whose scheme is followed by an authority. Without a host there is neither a port nor user
information, and a lone `@` is no authority in front of anything else. -/
def withAuthority? (scheme : Text) (kind : SchemeKind) (t : Text) : Option Uri := do
  let ends (c : Char) : Bool := isSlash kind c || endsPath c
  let authority := t.takeWhile fun c => !ends c
  let rest := t.dropWhile fun c => !ends c
  let (user, hostAndPort) := userInfo authority
  let (hostText, portText) := cutHost false hostAndPort
  let host ← if kind = .other then Host.opaque? hostText else Host.special? hostText
  if host = [] ∧ (portText.head? = some ':' ∨ user ≠ []) then none
  else if authority = ['@'] ∧ rest ≠ [] then none
  else
    let (port, left) ← port? scheme portText
    let rest := left ++ rest
    let body := rest.takeWhile fun c => !endsPath c
    let (query, fragment) := tail kind (rest.dropWhile fun c => !endsPath c)
    let path :=
      if kind = .other ∧ body = [] then []
      else hierarchicalPath kind (dropSlash kind body)
    pure ⟨scheme, some ⟨user, host, port⟩, path, query, fragment⟩

/-- What follows a slash that stands in front of a text, apart from tabs and line ends. -/
def afterSlash? (kind : SchemeKind) (t : Text) : Option Text :=
  match t.dropWhile isBreak with
  | c :: rest => if isSlash kind c then some rest else none
  | [] => none

/-- A URI of a local file. A host is followed by a path; without one, or with `localhost`, the path
keeps the slash in front of it. The name of a drive is no host. -/
def file? (scheme t : Text) : Option Uri := do
  let body := t.takeWhile fun c => !endsPath c
  let (query, fragment) := tail .file (dropBreaks (t.dropWhile fun c => !endsPath c))
  let build (host path : Text) : Uri := ⟨scheme, some ⟨[], host, none⟩, path, query, fragment⟩
  match afterSlash? .file body with
  | none => pure (build [] (localPath body).1)
  | some rest =>
    match afterSlash? .file rest with
    | none => pure (build [] (localPath rest).1)
    | some rest =>
      let name := dropBreaks (rest.takeWhile fun c => !isSlash .file c)
      let path := rest.dropWhile fun c => !isSlash .file c
      if isDrive name then pure (build [] (localPath rest).1)
      else if name = [] then pure (build [] (localPath path).1)
      else
        let host ← Host.special? name
        if host = "localhost".toList then pure (build [] (localPath path).1)
        else
          let (path, drive) := localPath (dropSlash .file path)
          pure (build (if drive then [] else host) path)

/-- A URI with a scheme that is not special and no authority: a path from the root, or an opaque
path. -/
def withoutAuthority (scheme t : Text) : Uri :=
  let body := t.takeWhile fun c => !endsPath c
  let (query, fragment) := tail .other (t.dropWhile fun c => !endsPath c)
  let path :=
    match body with
    | '/' :: rest => hierarchicalPath .other rest
    | path => Percent.encode Percent.controlSet path
  ⟨scheme, none, path, query, fragment⟩

/-- The URI written by a text, if the text is an absolute URI. -/
def parse? (t : Text) : Option Uri := do
  let t := trim t
  let (scheme, rest) ← scheme? (dropBreaks t)
  match SchemeKind.ofScheme scheme with
  | .file => file? scheme ((t.dropWhile (· ≠ ':')).drop 1)
  | .special => withAuthority? scheme .special (rest.dropWhile (isSlash .special))
  | .other =>
    match rest with
    | '/' :: '/' :: rest => withAuthority? scheme .other rest
    | rest => pure (withoutAuthority scheme rest)

end RuleOff.Uri
