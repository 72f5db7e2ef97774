import RuleOff.Protocol.Range

/-!
# Shapes of JSON values

The server checks what it has no use for as well, since a message with a wrong part is not valid.
A shape says which values are right.

## Main definitions

* `Shape`: the shapes, from those of single values to `Shape.object`.
* `MemberShape`: a member of an object with its shape, made by `MemberShape.must` and
  `MemberShape.may`.
* `Shape.check`: a shape as a decoder.
-/

namespace RuleOff

/-- Which JSON values are right. -/
abbrev Shape := Json → Bool

/-- A member of an object. -/
structure MemberShape where
  name : Text
  shape : Shape
  /-- The member has to be there; otherwise it may be absent or `null`. -/
  isRequired : Bool

namespace MemberShape

/-- Whether an object has the member in its shape, or may do without it. -/
def holdsIn (f : MemberShape) (v : Json) : Bool :=
  match v.get? f.name with
  | some .null => f.shape .null || !f.isRequired
  | some w => f.shape w
  | none => !f.isRequired

def must (name : String) (shape : Shape) : MemberShape := ⟨name.toList, shape, true⟩

/-- A member that may be absent or `null`. -/
def may (name : String) (shape : Shape) : MemberShape := ⟨name.toList, shape, false⟩

end MemberShape

namespace Shape

def check (s : Shape) (v : Json) : Decoded Unit :=
  if s v then .ok () else .error (.invalidType v "another value".toList)

/-- The values that a decoder reads. -/
def readBy {α : Type} (decode : Json → Decoded α) : Shape := fun v => (decode v).isOk

/-- Any value. -/
def any : Shape := fun _ => true

def bool : Shape := readBy Json.asBool

def string : Shape := readBy Json.asString

/-- An integer of 32 bits with a sign. -/
def int32 : Shape := readBy Json.asInt32

/-- An integer of 32 bits without a sign. -/
def uint32 : Shape := readBy Json.asUInt32

/-- A number, whole or not. -/
def number : Shape
  | .int _ => true
  | .float _ => true
  | _ => false

def uri : Shape := readBy Uri.decode

def position : Shape := readBy Position.decode

def range : Shape := readBy Range.decode

/-- One of some words, alone or as the only member of an object, whose value is `null` then. -/
def word (names : List String) : Shape
  | .str s => names.any fun n => n.toList == s
  | .obj [(s, .null)] => names.any fun n => n.toList == s
  | _ => false

/-- A word, or the number of its place among the words of its kind. -/
def wordAt (name : String) (place : Nat) : Shape
  | .str s => name.toList == s
  | .int n => n == place
  | _ => false

def either (s t : Shape) : Shape := fun v => s v || t v

/-- An array of values of a shape. -/
def list (item : Shape) : Shape
  | .arr items => items.all item
  | _ => false

/-- An array of two values of a shape. -/
def pair (item : Shape) : Shape
  | .arr [a, b] => item a && item b
  | _ => false

/-- An object with some members, and perhaps others. -/
def object (fields : List MemberShape) : Shape := fun v =>
  v.isObject && fields.all fun f => f.holdsIn v

/-- An object with some members, whose other members have a shape. -/
def objectWith (fields : List MemberShape) (other : Shape) : Shape
  | .obj members =>
    object fields (.obj members) &&
      members.all fun m => fields.any (fun f => f.name == m.1) || other m.2
  | _ => false

def table (value : Shape) : Shape := objectWith [] value

/-- An object whose members are named by URIs and have values of a shape. -/
def tableByUri (value : Shape) : Shape
  | .obj members => members.all fun m => (Uri.parse? m.1).isSome && value m.2
  | _ => false

/-- A token for reports on progress: an integer or a string. -/
def token : Shape := either string int32

end Shape

end RuleOff
