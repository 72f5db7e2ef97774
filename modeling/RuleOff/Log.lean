import RuleOff.Text.Basic

/-!
# Log records

What the server writes to its log, apart from the conversation with the client.
-/

namespace RuleOff

/-- A line of the log. -/
inductive LogRecord where
  /-- Something went as intended. -/
  | info (t : Text)
  /-- Something was refused or failed. -/
  | warn (t : Text)
deriving DecidableEq, Repr, Inhabited

/-- The line with its level in front. -/
def LogRecord.text : LogRecord → Text
  | info t => "INFO ".toList ++ t
  | warn t => "WARN ".toList ++ t

end RuleOff
