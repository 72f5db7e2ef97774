import RuleOff.Number.Double

/-!
# JSON values

Numbers are kept apart by how they are written: a numeral without fraction and exponent that fits
64 bits is an integer, any other numeral is a double. Objects are lists of members in the order
in which they are written; a look-up answers the last member of a name.

## Main definitions

* `Json`: the values.
* `Json.get?`: the value of a member of an object.
* `Json.canonical`: the same value with the members of every object sorted and without repeats.
-/

namespace RuleOff

/-- A JSON value. -/
inductive Json where
  | null
  | bool (b : Bool)
  | int (n : Int)
  | float (x : Double)
  | str (s : Text)
  | arr (items : List Json)
  | obj (members : List (Text × Json))
deriving Repr, Inhabited

namespace Json

/-- The value of the last member with this name. -/
def lookup? (name : Text) : List (Text × Json) → Option Json
  | [] => none
  | (k, v) :: ms =>
    match lookup? name ms with
    | some w => some w
    | none => if k = name then some v else none

/-- The value of the last member with this name, if the value is an object that has one. -/
def get? (name : Text) : Json → Option Json
  | obj members => lookup? name members
  | _ => none

/-- Whether the value is an object. -/
def isObject : Json → Bool
  | obj _ => true
  | _ => false

def str? : Json → Option Text
  | str s => some s
  | _ => none

/-- The items of an array. -/
def arr? : Json → Option (List Json)
  | arr items => some items
  | _ => none

/-- Puts a member into a list sorted by name; a member of the same name is replaced. -/
def insertMember (name : Text) (value : Json) : List (Text × Json) → List (Text × Json)
  | [] => [(name, value)]
  | (k, v) :: ms =>
    if k = name then (name, value) :: ms
    else if k < name then (k, v) :: insertMember name value ms
    else (name, value) :: (k, v) :: ms

/-- The members sorted by name, the last one of each name. -/
def sortMembers (members : List (Text × Json)) : List (Text × Json) :=
  members.foldl (fun ms m => insertMember m.1 m.2 ms) []

mutual

/-- The value with the members of every object sorted by name, the last one of each name. -/
def canonical : Json → Json
  | arr items => arr (canonicalItems items)
  | obj members => obj (sortMembers (canonicalMembers members))
  | v => v

/-- The canonical forms of the items of an array. -/
def canonicalItems : List Json → List Json
  | [] => []
  | v :: vs => canonical v :: canonicalItems vs

/-- The members of an object with their values in canonical form. -/
def canonicalMembers : List (Text × Json) → List (Text × Json)
  | [] => []
  | (k, v) :: ms => (k, canonical v) :: canonicalMembers ms

end

/-- An object with the given members, without those that have no value. -/
def ofFields (fields : List (Text × Option Json)) : Json :=
  obj (fields.filterMap fun f => f.2.map fun v => (f.1, v))

/-- The number of a natural number. -/
def ofNat (n : Nat) : Json := int n

@[simp] theorem lookup?_nil (name : Text) : lookup? name [] = none := rfl

theorem lookup?_cons (name k : Text) (v : Json) (ms : List (Text × Json)) :
    lookup? name ((k, v) :: ms) = (lookup? name ms).or (if k = name then some v else none) := by
  rw [lookup?]
  cases lookup? name ms <;> rfl

end Json

end RuleOff
