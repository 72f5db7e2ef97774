import RuleOff.Path
import RuleOff.Text.Utf8

/-!
# Files on a disk

A directory tree held in memory. Paths are followed from the root piece by piece: every piece but
the last has to be a directory, two dots lead to the directory above, and a slash at the end asks
for a directory. The lengths of names and paths are limited.

## Main definitions

* `Disk`: the tree.
* `Disk.isFile`: whether a path leads to a file.
* `Disk.read`: the text of the file at a path.
* `Disk.apply`: a change of the tree.
-/

namespace RuleOff

/-- What a name in a directory stands for. -/
inductive DiskNode where
  | file (bytes : List UInt8)
  | directory
deriving DecidableEq, Repr, Inhabited

/-- A directory tree: what the names along a way from the root lead to. The root itself is a
directory. -/
structure Disk where
  nodes : List (List Text × DiskNode) := []
deriving Repr, Inhabited

namespace Disk

/-- Why a path does not lead to a text. -/
inductive Failure where
  | notFound
  | notADirectory
  | isADirectory
  | nameTooLong
  | notUtf8
  | nulInPath
deriving DecidableEq, Repr, Inhabited

/-- The wording of a failure. -/
def Failure.message : Failure → Text
  | notFound => "No such file or directory (os error 2)".toList
  | notADirectory => "Not a directory (os error 20)".toList
  | isADirectory => "Is a directory (os error 21)".toList
  | nameTooLong => "File name too long (os error 36)".toList
  | notUtf8 => "stream did not contain valid UTF-8".toList
  | nulInPath => "file name contained an unexpected NUL byte".toList

/-- What some names lead to from the root. -/
def node? (d : Disk) (names : List Text) : Option DiskNode :=
  if names = [] then some .directory
  else (d.nodes.find? fun n => n.1 == names).map Prod.snd

/-- Whether a name has at most 255 bytes. -/
def isName (n : Text) : Bool := (Text.utf8 n).length ≤ 255

/-- Whether a path has fewer than 4096 bytes. -/
def fits (p : Path) : Bool := (Text.utf8 p.text).length < 4096

/-- Follows the pieces of a path from a place that is there. -/
def follow (d : Disk) : List Text → List Text → Except Failure (List Text)
  | place, [] => .ok place
  | place, piece :: rest =>
    match d.node? place with
    | some .directory =>
      if piece = [] ∨ piece = ['.'] then d.follow place rest
      else if piece = ['.', '.'] then d.follow place.dropLast rest
      else if !isName piece then .error .nameTooLong
      else if (d.node? (place ++ [piece])).isSome then d.follow (place ++ [piece]) rest
      else .error .notFound
    | _ => .error .notADirectory

/-- The place that an absolute path leads to. -/
def resolve (d : Disk) (p : Path) : Except Failure (List Text) :=
  if '\x00' ∈ p.text then .error .nulInPath
  else if !fits p then .error .nameTooLong
  else if p.isAbsolute then d.follow [] (Text.split '/' p.text)
  else .error .notFound

def isFile (d : Disk) (p : Path) : Bool :=
  match d.resolve p with
  | .ok place =>
    match d.node? place with
    | some (.file _) => true
    | _ => false
  | .error _ => false

def read (d : Disk) (p : Path) : Except Failure Text := do
  match d.node? (← d.resolve p) with
  | some (.file bytes) =>
    match Text.ofUtf8? bytes with
    | some t => .ok t
    | none => .error .notUtf8
  | some .directory => .error .isADirectory
  | none => .error .notFound

/-- The tree with a node at a place. -/
def setNode (d : Disk) (names : List Text) (n : DiskNode) : Disk :=
  ⟨(names, n) :: d.nodes.filter fun m => m.1 != names⟩

/-- Follows the pieces of a path from a place and makes a directory of every name that is not
there: the tree afterwards, and the place that is reached unless the way leads through a file or
has a name that is too long. What is made on such a way stays. -/
def makeWay : Disk → List Text → List Text → Disk × Option (List Text)
  | d, place, [] => (d, some place)
  | d, place, piece :: rest =>
    if d.node? place ≠ some .directory then (d, none)
    else if piece = [] ∨ piece = ['.'] then makeWay d place rest
    else if piece = ['.', '.'] then makeWay d place.dropLast rest
    else if !isName piece then (d, none)
    else
      let next := place ++ [piece]
      makeWay (if (d.node? next).isSome then d else d.setNode next .directory) next rest

/-- Whether the path leads somewhere on the disk. -/
def isUsable (p : Path) : Bool := p.isAbsolute && !p.text.contains '\x00' && fits p

/-- The tree with a directory at a path and on the way to it. -/
def putDirectory (d : Disk) (p : Path) : Disk :=
  if isUsable p then (d.makeWay [] (Text.split '/' p.text)).1 else d

/-- The tree with a file at a path, in directories that are made if they are not there. A
directory at that path stays as it is. -/
def putFile (d : Disk) (p : Path) (bytes : List UInt8) : Disk :=
  if isUsable p then
    let (d, place) := d.makeWay [] (p.components.dropLast.map Path.Component.text)
    let last := (Text.split '/' p.text).getLastD []
    match place, Path.component? last with
    | some place, some (.name n) =>
      if d.node? place = some .directory ∧ d.node? (place ++ [n]) ≠ some .directory ∧ isName n then
        d.setNode (place ++ [n]) (.file bytes)
      else d
    | _, _ => d
  else d

/-- The tree without what a path leads to, and without all that is in it. -/
def remove (d : Disk) (p : Path) : Disk :=
  match d.resolve p with
  | .ok place => ⟨d.nodes.filter fun n => !place.isPrefixOf n.1⟩
  | .error _ => d

inductive Change where
  | putFile (p : Path) (bytes : List UInt8)
  | putDirectory (p : Path)
  | remove (p : Path)
deriving DecidableEq, Repr, Inhabited

/-- The tree after a change. -/
def apply (d : Disk) : Change → Disk
  | .putFile p bytes => d.putFile p bytes
  | .putDirectory p => d.putDirectory p
  | .remove p => d.remove p

end Disk

end RuleOff
