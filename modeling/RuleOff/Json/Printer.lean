import RuleOff.Json.Basic
import RuleOff.Number.Shortest
import RuleOff.Text.Quoted

/-!
# Writing JSON

The compact form: no space between tokens, and in strings only the quotation mark, the backslash
and the control characters escaped.
-/

namespace RuleOff.Json

/-- A character inside a string. -/
def writeChar (c : Char) : Text :=
  match c with
  | '"' => ['\\', '"']
  | '\\' => ['\\', '\\']
  | '\x08' => ['\\', 'b']
  | '\t' => ['\\', 't']
  | '\n' => ['\\', 'n']
  | '\x0c' => ['\\', 'f']
  | '\r' => ['\\', 'r']
  | c =>
    if c.toNat < 0x20 then
      let h := Text.hex c.toNat
      '\\' :: 'u' :: (List.replicate (4 - h.length) '0' ++ h)
    else [c]

def writeString (s : Text) : Text := '"' :: (s.flatMap writeChar ++ ['"'])

mutual

/-- The compact form of a value. -/
def write : Json → Text
  | null => "null".toList
  | bool true => "true".toList
  | bool false => "false".toList
  | int n => Text.ofInt n
  | float x => x.text
  | str s => writeString s
  | arr [] => ['[', ']']
  | arr (v :: vs) => '[' :: (write v ++ writeItems vs)
  | obj [] => ['\x7b', '\x7d']
  | obj ((k, v) :: ms) => '\x7b' :: (writeString k ++ ':' :: (write v ++ writeMembers ms))

/-- Items that follow another one, up to the closing bracket. -/
def writeItems : List Json → Text
  | [] => [']']
  | v :: vs => ',' :: (write v ++ writeItems vs)

/-- Members that follow another one, up to the closing brace. -/
def writeMembers : List (Text × Json) → Text
  | [] => ['\x7d']
  | (k, v) :: ms => ',' :: (writeString k ++ ':' :: (write v ++ writeMembers ms))

end

end RuleOff.Json
