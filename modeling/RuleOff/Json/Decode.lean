import RuleOff.Json.Basic
import RuleOff.Number.Shortest
import RuleOff.Text.Quoted

/-!
# Reading domain values from JSON

A decoder answers a domain value or the reason why the JSON value is not one. Members of an
object that a decoder does not ask for are ignored.

## Main definitions

* `DecodeError`: why a value could not be read, with its wording in `DecodeError.message`.
* `Json.required`, `Json.optional`: a decoder for a member that must be there, or may be absent
  or `null`.
-/

namespace RuleOff

/-- Why a JSON value could not be read. -/
inductive DecodeError where
  /-- The value is of another type than expected. -/
  | invalidType (found : Json) (expected : Text)
  /-- An integer lies outside the expected range. -/
  | invalidValue (found : Int) (expected : Text)
  /-- A required member is absent. -/
  | missingField (name : Text)
  /-- An array that holds the fields in order has another number of items. -/
  | invalidLength (found : Nat) (expected : Text)
deriving Repr, Inhabited

namespace DecodeError

/-- How a message shows the value that was found. -/
def shown : Json → Text
  | .null => "null".toList
  | .bool true => "boolean \x60true\x60".toList
  | .bool false => "boolean \x60false\x60".toList
  | .int n => "integer \x60".toList ++ Text.ofInt n ++ ['\x60']
  | .float x => "floating point \x60".toList ++ x.text ++ ['\x60']
  | .str s => "string ".toList ++ Text.quote s
  | .arr _ => "sequence".toList
  | .obj _ => "map".toList

/-- The wording of the error. -/
def message : DecodeError → Text
  | invalidType found expected =>
    "invalid type: ".toList ++ shown found ++ ", expected ".toList ++ expected
  | invalidValue found expected =>
    "invalid value: integer \x60".toList ++ Text.ofInt found ++ "\x60, expected ".toList ++ expected
  | missingField name => "missing field \x60".toList ++ name ++ ['\x60']
  | invalidLength found expected =>
    "invalid length ".toList ++ Text.ofNat found ++ ", expected ".toList ++ expected

end DecodeError

/-- The outcome of reading a domain value. -/
abbrev Decoded (α : Type) := Except DecodeError α

namespace Json

def asBool : Json → Decoded Bool
  | bool b => .ok b
  | v => .error (.invalidType v "a boolean".toList)

def asString : Json → Decoded Text
  | str s => .ok s
  | v => .error (.invalidType v "a string".toList)

/-- An integer from `0` to `2 ^ 32 - 1`. -/
def asUInt32 : Json → Decoded UInt32
  | int n =>
    if 0 ≤ n ∧ n < Int.pow 2 32 then .ok (UInt32.ofNat n.toNat)
    else .error (.invalidValue n "u32".toList)
  | v => .error (.invalidType v "u32".toList)

/-- An integer from `-2 ^ 31` to `2 ^ 31 - 1`. -/
def asInt32 : Json → Decoded Int
  | int n =>
    if -Int.pow 2 31 ≤ n ∧ n < Int.pow 2 31 then .ok n
    else .error (.invalidValue n "an integer of 32 bits".toList)
  | v => .error (.invalidType v "an integer of 32 bits".toList)

/-- An array of what the decoder reads. -/
def asList {α : Type} (decode : Json → Decoded α) : Json → Decoded (List α)
  | arr items => items.mapM decode
  | v => .error (.invalidType v "a sequence".toList)

/-- Any value. -/
def asAny (v : Json) : Decoded Json := .ok v

/-- An absent value or `null` is no value; any other value is decoded. -/
def asOptional {α : Type} (decode : Json → Decoded α) : Option Json → Decoded (Option α)
  | none => .ok none
  | some null => .ok none
  | some v => (decode v).map some

/-- A member that must be there. -/
def required {α : Type} (name : Text) (decode : Json → Decoded α) (v : Json) : Decoded α :=
  match v.get? name with
  | some w => decode w
  | none => .error (.missingField name)

/-- A member that may be absent or `null`. -/
def optional {α : Type} (name : Text) (decode : Json → Decoded α) (v : Json) :
    Decoded (Option α) :=
  asOptional decode (v.get? name)

/-- Refuses a value that is not an object. -/
def expectObject (expected : Text) (v : Json) : Decoded Unit :=
  if v.isObject then .ok () else .error (.invalidType v expected)

end Json

end RuleOff
