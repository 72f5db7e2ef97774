import RuleOff.Path

/-!
# Configuration files

Which files of a workspace hold the configuration, which of them is edited, and in which of two
dialects it is written.

## Main definitions

* `Config.candidates`: the names of configuration files, first choice first.
* `Config.locate`: the first candidate in a directory that is a file.
* `Config.Format`: the dialects, told apart by `Config.Format.ofPath`.
-/

namespace RuleOff.Config

/-- The names of configuration files, first choice first. -/
def candidates : List Text :=
  [".eslintrc.yaml".toList, ".eslintrc.yml".toList, ".eslintrc.json".toList]

/-- The first candidate in the directory that is a file. No candidate after it is asked about. -/
def locate {m : Type → Type} [Monad m] (isFile : Path → m Bool) (root : Path) :
    m (Option Path) :=
  (candidates.map root.join).findM? isFile

/-- The dialects of configuration files. -/
inductive Format where
  /-- Members between braces. -/
  | json
  /-- Indented lines. -/
  | yaml
deriving DecidableEq, Repr, Inhabited

/-- The dialect of a file: JSON for the extension `json`, and YAML for any other or none. -/
def Format.ofPath (p : Path) : Format :=
  if p.extension? = some "json".toList then json else yaml

end RuleOff.Config
