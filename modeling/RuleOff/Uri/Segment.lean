import RuleOff.Uri.Percent
import RuleOff.Uri.Scheme

/-!
# Segments of a path

A path is read piece by piece between its slashes. A piece of one or two dots stands for a place
near by and any other one for a segment, except that a path of a local file may start with the
name of a drive. Such a name is never left by two dots.

## Main definitions

* `Uri.Piece`: what a piece of a path stands for.
* `Uri.resolve`: the segments that some pieces lead to.
* `Uri.hierarchicalPath`, `Uri.localPath`: the normal forms of paths.
-/

namespace RuleOff.Uri

def decodeDots : Text → Text
  | '%' :: '2' :: 'e' :: rest => '.' :: decodeDots rest
  | '%' :: '2' :: 'E' :: rest => '.' :: decodeDots rest
  | c :: rest => c :: decodeDots rest
  | [] => []

/-- Whether the text is a letter with a colon or a bar, the name of a drive. -/
def isDrive : Text → Bool
  | [c, d] => c.isAlpha && (d == ':' || d == '|')
  | _ => false

/-- Whether the segment is the name of a drive, alone or with a backslash after it. -/
def opensDrive : Text → Bool
  | [c, d] => isDrive [c, d]
  | c :: d :: '\\' :: _ => isDrive [c, d]
  | _ => false

/-- What a piece of a path stands for. -/
inductive Piece where
  | above
  /-- The place that has been reached. -/
  | here
  /-- The name of the drive with this letter. -/
  | drive (letter : Char)
  /-- The name of a drive, and behind it a segment that a tab or a line end cuts off from it. -/
  | cutDrive (letter : Char) (rest : Text)
  | segment (s : Text)
deriving DecidableEq, Repr, Inhabited

namespace Piece

/-- The letter and the rest of a piece in which a tab or a line end cuts the name of a drive off
from what follows. -/
def cutAfterDrive? (t : Text) : Option (Char × Text) :=
  match t.dropWhile isBreak with
  | c :: t =>
    match t.dropWhile isBreak with
    | ':' :: b :: rest =>
      if c.isAlpha ∧ isBreak b ∧ dropBreaks rest ≠ [] then some (c, dropBreaks rest) else none
    | _ => none
  | [] => none

/-- What the text of a piece stands for. Only the first segment of a local path may be a drive. -/
def ofText (kind : SchemeKind) (isFirst : Bool) (t : Text) : Piece :=
  let plain := Percent.encode Percent.pathSet (dropBreaks t)
  let other : Piece :=
    if decodeDots plain = ['.', '.'] then above
    else if decodeDots plain = ['.'] then here
    else
      match plain with
      | c :: _ => if kind = .file ∧ isFirst ∧ isDrive plain then drive c else segment plain
      | [] => segment plain
  if kind = .file ∧ isFirst then
    match cutAfterDrive? t with
    | some (c, rest) => cutDrive c (Percent.encode Percent.pathSet rest)
    | none => other
  else other

def endsInSlash : Piece → Bool
  | above | here => true
  | _ => false

/-- The segments, latest first, after one more piece. -/
def addTo (segments : List Text) : Piece → List Text
  | above =>
    match segments with
    | [] => []
    | s :: rest => if opensDrive s then s :: rest else rest
  | here => segments
  | drive c => [c, ':'] :: segments
  | cutDrive c rest => rest :: [c, ':'] :: segments
  | segment s => s :: segments

end Piece

/-- Where some pieces lead from the segments so far, latest first: all segments in order, and
whether one of the pieces is the name of a drive. -/
def resolve (kind : SchemeKind) : List Text → List Text → List Text × Bool
  | segments, [] => (segments.reverse, false)
  | segments, t :: rest =>
    let piece := Piece.ofText kind segments.isEmpty t
    let segments := piece.addTo segments
    let (all, drive) :=
      if rest.isEmpty ∧ piece.endsInSlash then (([] :: segments).reverse, false)
      else resolve kind segments rest
    (all, drive || piece matches .drive _)

/-- The path with the given segments. -/
def ofSegments (segments : List Text) : Text := '/' :: Text.join '/' segments

/-- The texts between the slashes of a path. -/
def pieces (kind : SchemeKind) (t : Text) : List Text :=
  Text.split '/' (t.map fun c => if isSlash kind c then '/' else c)

/-- The normal form of a path after its first slash. -/
def hierarchicalPath (kind : SchemeKind) (t : Text) : Text :=
  ofSegments (resolve kind [] (pieces kind t)).1

/-- The normal form of the path of a local file after its first slash, where more slashes in front
do not count, and whether it starts with the name of a drive. -/
def localPath (t : Text) : Text × Bool :=
  let (segments, drive) := resolve .file [] (pieces .file t)
  ('/' :: (ofSegments segments).dropWhile (· = '/'), drive)

end RuleOff.Uri
