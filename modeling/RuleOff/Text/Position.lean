import RuleOff.Text.Basic

/-!
# Positions in a document

Editors address a place in a document by a line and a column, both counted from zero. Columns
count UTF-16 units: a character of the basic plane is one unit, any other is two.

## Main definitions

* `Text.width`: the number of UTF-16 units of a text.
* `Position`: a line and a column.
* `Text.splice`: a text with another text inserted at a position.
-/

namespace RuleOff

/-- A place in a document: a line, and a column in UTF-16 units, both counted from zero. -/
structure Position where
  line : UInt32
  character : UInt32
deriving DecidableEq, Repr, Inhabited

namespace Position

/-- The position at these counts, taken modulo `2 ^ 32`. -/
def ofCounts (line character : Nat) : Position :=
  ⟨UInt32.ofNat line, UInt32.ofNat character⟩

end Position

namespace Text

/-- The number of UTF-16 units of a character. -/
def units (c : Char) : Nat := if c.toNat < 0x10000 then 1 else 2

/-- The number of UTF-16 units of a text. -/
def width (t : Text) : Nat := t.foldr (fun c n => units c + n) 0

/-- The text with `new` inserted `column` units into its first line, or at the end of that line
if the line is shorter. -/
def insertAtColumn (new : Text) : Nat → Text → Text
  | 0, t => new ++ t
  | _ + 1, [] => new
  | n + 1, c :: cs =>
    if c = '\n' then new ++ c :: cs else c :: insertAtColumn new (n + 1 - units c) cs

/-- The text with `new` inserted `column` units into the line with the given number, or at the
end of the text if there are fewer lines. -/
def insertAtLine (new : Text) (column : Nat) : Nat → Text → Text
  | 0, t => insertAtColumn new column t
  | _ + 1, [] => new
  | n + 1, c :: cs => c :: insertAtLine new column (if c = '\n' then n else n + 1) cs

/-- The text with `new` inserted at a position. A column past the end of its line stands for the
end of the line, before its line feed; a line past the last stands for the end of the text. -/
def splice (t : Text) (p : Position) (new : Text) : Text :=
  insertAtLine new p.character.toNat p.line.toNat t

@[simp] theorem width_nil : width [] = 0 := rfl

@[simp] theorem width_cons (c : Char) (cs : Text) : width (c :: cs) = units c + width cs := rfl

@[simp] theorem width_append (s t : Text) : width (s ++ t) = width s + width t := by
  induction s with
  | nil => simp
  | cons c cs ih => rw [List.cons_append, width_cons, width_cons, ih, Nat.add_assoc]

theorem units_pos (c : Char) : 0 < units c := by
  unfold units
  split <;> decide

end Text

end RuleOff
