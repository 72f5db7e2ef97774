import RuleOff.CodeAction

/-!
# What the server offers

The capabilities that the server announces when it is started: whole texts of open documents,
quick fixes, the disable command, and several workspace folders.
-/

namespace RuleOff.Server

/-- The number that stands for sending the whole text of a document with every change. -/
def wholeText : Nat := 1

def capabilities : Json :=
  .obj
    [("textDocumentSync".toList,
        .obj
          [("openClose".toList, .bool true), ("change".toList, .ofNat wholeText),
            ("willSave".toList, .bool false), ("willSaveWaitUntil".toList, .bool false)]),
      ("codeActionProvider".toList,
        .obj
          [("codeActionKinds".toList, .arr [.str CodeAction.quickFixKind]),
            ("resolveProvider".toList, .bool false)]),
      ("executeCommandProvider".toList,
        .obj [("commands".toList, .arr [.str CodeAction.disableCommand])]),
      ("workspace".toList,
        .obj
          [("workspaceFolders".toList,
            .obj
              [("supported".toList, .bool true), ("changeNotifications".toList, .bool true)])])]

/-- The answer to the request that starts the server. -/
def greeting : Json :=
  .obj
    [("capabilities".toList, capabilities),
      ("serverInfo".toList,
        .obj
          [("name".toList, .str "eslint-disable-lsp".toList),
            ("version".toList, .str "0.1.0".toList)])]

end RuleOff.Server
