import RuleOff.Text.Basic

/-!
# File paths

A path keeps the text it was built from. Two paths name the same place when their components
agree: repeated slashes, a slash at the end and `.` after another component do not count, while
`..` does.

## Main definitions

* `Path.components`: the parts of a path that count.
* `Path.same`: equality by components.
* `Path.join`: a path extended by a file name.
* `Path.extension?`: what follows the last dot of the last component.
-/

namespace RuleOff

/-- A path in the file system, as it is written. -/
structure Path where
  text : Text
deriving DecidableEq, Repr, Inhabited

namespace Path

/-- A part of a path. -/
inductive Component where
  /-- The slash in front of an absolute path. -/
  | root
  /-- A dot in front of a relative path. -/
  | here
  /-- Two dots. -/
  | up
  | name (n : Text)
deriving DecidableEq, Repr, Inhabited

/-- The piece between slashes that writes a component. -/
def Component.text : Component → Text
  | root => []
  | here => ['.']
  | up => ['.', '.']
  | name n => n

/-- The component written by a piece between slashes, if it counts. -/
def component? (piece : Text) : Option Component :=
  if piece = [] ∨ piece = ['.'] then none
  else if piece = ['.', '.'] then some .up
  else some (.name piece)

/-- Whether the path starts at the root. -/
def isAbsolute (p : Path) : Bool := p.text.head? == some '/'

/-- The parts of a path that count. -/
def components (p : Path) : List Component :=
  let pieces := Text.split '/' p.text
  let rest := pieces.filterMap component?
  if p.isAbsolute then .root :: rest
  else if pieces.head? = some ['.'] then .here :: rest
  else rest

/-- Whether two paths have the same components. -/
def same (p q : Path) : Bool := p.components == q.components

/-- The path extended by a name. A slash is put between them unless the path is empty or ends in
one. -/
def join (p : Path) (name : Text) : Path :=
  if p.text = [] then ⟨name⟩
  else if p.text.getLast? = some '/' then ⟨p.text ++ name⟩
  else ⟨p.text ++ '/' :: name⟩

/-- What follows the last dot of a file name. A name without a dot, or with its only dot in
front, has no extension. -/
def nameExtension? (n : Text) : Option Text :=
  let back := n.reverse
  let stem := (back.dropWhile (· ≠ '.')).drop 1
  if '.' ∈ n ∧ stem ≠ [] then some (back.takeWhile (· ≠ '.')).reverse else none

/-- The extension of the last component, if that is a name. -/
def extension? (p : Path) : Option Text :=
  match p.components.getLast? with
  | some (.name n) => nameExtension? n
  | _ => none

theorem same_iff {p q : Path} : p.same q = true ↔ p.components = q.components := by
  simp [same]

@[simp] theorem same_refl (p : Path) : p.same p = true := by simp [same]

end Path

end RuleOff
