import RuleOff.Config.File

/-!
# Errors of the disable command

Why a rule could not be switched off, and the wording that the user sees.

## Main definitions

* `ClientError`: the editor's answer to a request that failed.
* `DisableError`: the causes, with their wording in `DisableError.message`.
-/

namespace RuleOff

/-- A failed request, with its code and the message that came with it. -/
structure ClientError where
  code : Int
  message : Text
deriving DecidableEq, Repr, Inhabited

namespace ClientError

/-- The code for a text that could not be read. -/
def parseError : Int := -32700

/-- The code for a message that may not be sent now. -/
def invalidRequest : Int := -32600

/-- The code for a method that is not known or not offered. -/
def methodNotFound : Int := -32601

/-- The code for parameters that could not be read. -/
def invalidParams : Int := -32602

/-- The code for a failure inside the other side. -/
def internalError : Int := -32603

/-- The code for a request that was given up. -/
def requestCancelled : Int := -32800

/-- The code for a document that changed meanwhile. -/
def contentModified : Int := -32801

/-- The code for a request to a side that has not been initialized. -/
def serverNotInitialized : Int := -32002

/-- What a code stands for. -/
def description (code : Int) : Text :=
  (if code = parseError then "Parse error"
  else if code = invalidRequest then "Invalid request"
  else if code = methodNotFound then "Method not found"
  else if code = invalidParams then "Invalid params"
  else if code = internalError then "Internal error"
  else if code = requestCancelled then "Canceled"
  else if code = contentModified then "Content modified"
  else "Server error").toList

/-- The wording of the error. -/
def text (e : ClientError) : Text := description e.code ++ ": ".toList ++ e.message

/-- A request to a side that has not been initialized. -/
def notInitialized : ClientError := ⟨serverNotInitialized, "Server not initialized".toList⟩

/-- A request for a method that is not known. -/
def unknownMethod : ClientError := ⟨methodNotFound, "Method not found".toList⟩

end ClientError

/-- Why a rule could not be switched off. -/
inductive DisableError where
  /-- No candidate is a file of the workspace. -/
  | configNotFound (root : Path)
  /-- The JSON file has no header of a rules section. -/
  | rulesSectionNotFound (path : Path)
  /-- The file could not be read. -/
  | readFailed (path : Path) (reason : Text)
  /-- The path has no URI. -/
  | invalidPath (path : Path)
  /-- The editor did not apply the edit. -/
  | editRejected (path : Path) (reason : Option Text)
  /-- A request to the editor failed. -/
  | client (e : ClientError)
deriving DecidableEq, Repr, Inhabited

namespace DisableError

/-- The wording of the error. -/
def message : DisableError → Text
  | configNotFound _ =>
    "Could not find ".toList ++ Text.intercalate " or ".toList Config.candidates ++
      " in workspace.".toList
  | rulesSectionNotFound path =>
    "Could not find 'rules' section in ".toList ++ path.text ++ ['.']
  | readFailed path reason => "Failed to read ".toList ++ path.text ++ ": ".toList ++ reason
  | invalidPath path => path.text ++ " cannot be expressed as a file URI.".toList
  | editRejected path reason =>
    "The editor rejected the edit to ".toList ++ path.text ++ ": ".toList ++
      reason.getD "no reason given".toList
  | client e => "Editor request failed: ".toList ++ e.text

end DisableError

end RuleOff
