import RuleOff.Protocol.Feature

/-!
# The methods of the protocol

Which methods the server handles, and which it knows without offering them.

## Main definitions

* `Method`: what the server does with a method, found by `Method.ofName`.
-/

namespace RuleOff

/-- What the server does with a method. -/
inductive Method where
  /-- The request that starts the server. -/
  | start
  /-- The notification that the client is ready. -/
  | ready
  /-- The request after which nothing but `exit` is expected. -/
  | shutdown
  /-- The notification that stops the server. -/
  | exit
  | didOpen
  | didChange
  | didClose
  | didChangeConfiguration
  | didChangeFolders
  | codeAction
  | executeCommand
  /-- A request that is refused, if its parameters have the right shape, as one not offered. -/
  | unofferedRequest
  /-- A notification that is ignored. -/
  | unofferedNotification
  | unknown
deriving DecidableEq, Repr, Inhabited

namespace Method

/-- The notifications that the server knows and ignores. -/
def unofferedNotifications : List String :=
  ["textDocument/willSave", "textDocument/didSave", "workspace/didCreateFiles",
    "workspace/didRenameFiles", "workspace/didDeleteFiles", "workspace/didChangeWatchedFiles",
    "$/cancelRequest"]

/-- The methods that the server handles, by name. -/
def handled : List (String × Method) :=
  [("initialize", start), ("initialized", ready), ("shutdown", shutdown), ("exit", exit),
    ("textDocument/didOpen", didOpen), ("textDocument/didChange", didChange),
    ("textDocument/didClose", didClose),
    ("workspace/didChangeConfiguration", didChangeConfiguration),
    ("workspace/didChangeWorkspaceFolders", didChangeFolders),
    ("textDocument/codeAction", codeAction), ("workspace/executeCommand", executeCommand)]

/-- What the server does with the method of this name. -/
def ofName (name : Text) : Method :=
  match handled.find? fun e => e.1.toList == name with
  | some e => e.2
  | none =>
    if (Feature.shape? name).isSome then unofferedRequest
    else if unofferedNotifications.any fun n => n.toList == name then unofferedNotification
    else unknown

/-- Whether messages with an unknown method of this name are never answered. -/
def isOptional (name : Text) : Bool := (['$', '/'] : Text).isPrefixOf name

end Method

end RuleOff
