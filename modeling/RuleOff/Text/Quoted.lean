import RuleOff.Text.Digit
import RuleOff.Text.Unprinted

/-!
# Quoted texts

The form in which a text is shown inside a message: between quotation marks, on one line, with
escapes for what would end the quotation or could not be seen.
-/

namespace RuleOff.Text

/-- A character inside quotation marks. -/
def quoteChar (c : Char) : Text :=
  match c with
  | '\x00' => ['\\', '0']
  | '\t' => ['\\', 't']
  | '\r' => ['\\', 'r']
  | '\n' => ['\\', 'n']
  | '"' => ['\\', '"']
  | '\\' => ['\\', '\\']
  | c => if isUnprinted c then "\\u\x7b".toList ++ hex c.toNat ++ ['}'] else [c]

/-- A text between quotation marks. -/
def quote (t : Text) : Text := '"' :: (t.flatMap quoteChar ++ ['"'])

end RuleOff.Text
