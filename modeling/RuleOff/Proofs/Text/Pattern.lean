import RuleOff.Text.Basic
import RuleOff.Text.Blank

/-!
# Patterns

Regular expressions over the characters of a text, as far as they are made of characters, white
space, the start of the text, alternatives and repetition. A pattern says of a text, and of what
stands in front of it, whether they match, and it occurs in every text with a part that matches.

## Main definitions

* `Pattern`: the patterns.
* `Pattern.ofText?`: the pattern that a text writes.
* `Pattern.Matches`: what a pattern means.
* `Pattern.Occurs`: the pattern matches somewhere in a text.

## Design notes

In the written form a star applies to the one item in front of it, and a bar binds weaker than
anything else, so that an anchor belongs to its own alternative alone. There are no groups.
-/

namespace RuleOff

inductive Pattern where
  /-- The empty text. -/
  | nothing
  /-- The empty text at the start. -/
  | start
  | char (c : Char)
  /-- One character of white space. -/
  | blank
  | append (p q : Pattern)
  | either (p q : Pattern)
  /-- The pattern any number of times. -/
  | many (p : Pattern)
deriving DecidableEq, Repr

namespace Pattern

/-! ### The written form -/

/-- The characters that stand for themselves behind a backslash only. -/
def reserved : List Char := "\\.+*?()|[]\x7b\x7d^$".toList

def plainItem? (c : Char) : Option Pattern :=
  if c = '^' then some start else if c ∈ reserved then none else some (char c)

/-- The item written by a character behind a backslash. -/
def escapedItem? (c : Char) : Option Pattern :=
  if c = 's' then some blank else if c ∈ reserved then some (char c) else none

/-- The items of a text, one after the other, each with its star if it has one. -/
def sequence? : Text → Option Pattern
  | [] => some nothing
  | '\\' :: c :: '*' :: t => do some ((← escapedItem? c).many.append (← sequence? t))
  | '\\' :: c :: t => do some ((← escapedItem? c).append (← sequence? t))
  | c :: '*' :: t => do some ((← plainItem? c).many.append (← sequence? t))
  | c :: t => do some ((← plainItem? c).append (← sequence? t))

def alternatives? : List Pattern → Option Pattern
  | [] => none
  | [p] => some p
  | p :: q :: ps => (alternatives? (q :: ps)).map p.either

/-- The pattern that a text writes. -/
def ofText? (t : Text) : Option Pattern := do
  alternatives? (← (Text.split '|' t).mapM sequence?)

/-! ### The meaning -/

/-- The text matches the pattern where it stands behind `front`. -/
inductive Matches : Pattern → Text → Text → Prop
  | nothing (front : Text) : Matches nothing front []
  | start : Matches start [] []
  | char (c : Char) (front : Text) : Matches (char c) front [c]
  | blank {c : Char} (front : Text) (white : Text.isBlank c = true) : Matches blank front [c]
  | append {p q : Pattern} {front t u : Text} (first : Matches p front t)
    (second : Matches q (front ++ t) u) : Matches (append p q) front (t ++ u)
  | left {p q : Pattern} {front t : Text} (here : Matches p front t) : Matches (either p q) front t
  | right {p q : Pattern} {front t : Text} (here : Matches q front t) : Matches (either p q) front t
  | none (p : Pattern) (front : Text) : Matches (many p) front []
  | more {p : Pattern} {front t u : Text} (first : Matches p front t)
    (rest : Matches (many p) (front ++ t) u) : Matches (many p) front (t ++ u)

/-- The pattern matches some part of the text. -/
def Occurs (p : Pattern) (t : Text) : Prop :=
  ∃ front part rest, t = front ++ (part ++ rest) ∧ p.Matches front part

variable {p q : Pattern} {front t u : Text} {c : Char}

theorem matches_start_iff : start.Matches front t ↔ front = [] ∧ t = [] := by
  constructor
  · rintro ⟨⟩
    exact ⟨rfl, rfl⟩
  · rintro ⟨rfl, rfl⟩
    exact .start

theorem matches_char_iff : (char c).Matches front t ↔ t = [c] := by
  constructor
  · rintro ⟨⟩
    rfl
  · rintro rfl
    exact .char c front

theorem matches_append_iff :
    (p.append q).Matches front t ↔
      ∃ u v, t = u ++ v ∧ p.Matches front u ∧ q.Matches (front ++ u) v := by
  constructor
  · rintro ⟨⟩
    exact ⟨_, _, rfl, ‹_›, ‹_›⟩
  · rintro ⟨u, v, rfl, first, second⟩
    exact .append first second

/-- White space, as much of it as there may be. -/
theorem matches_many_blank_iff :
    (many blank).Matches front t ↔ ∀ c ∈ t, Text.isBlank c = true := by
  constructor
  · intro h
    generalize all : many blank = p at h
    induction h with
    | none p front => exact fun c mem => absurd mem List.not_mem_nil
    | more first rest _ ih =>
      obtain rfl := many.inj all
      cases first with
      | blank front white => exact List.forall_mem_cons.mpr ⟨white, ih rfl⟩
    | _ => exact nomatch all
  · intro white
    induction t generalizing front with
    | nil => exact .none blank front
    | cons c t ih =>
      have first := white c List.mem_cons_self
      exact .more (.blank front first) (ih fun d mem => white d (List.mem_cons_of_mem c mem))

/-- The characters of a text, and then a pattern. -/
def word (t : Text) (p : Pattern) : Pattern := t.foldr (fun c q => (char c).append q) p

theorem matches_word_iff :
    (word t p).Matches front u ↔ ∃ v, u = t ++ v ∧ p.Matches (front ++ t) v := by
  induction t generalizing front u with
  | nil => simp [word]
  | cons c t ih =>
    change ((char c).append (word t p)).Matches front u ↔ _
    simp only [matches_append_iff, matches_char_iff, ih]
    constructor
    · rintro ⟨_, _, rfl, rfl, v, rfl, rest⟩
      exact ⟨v, rfl, by simpa using rest⟩
    · rintro ⟨v, rfl, rest⟩
      exact ⟨[c], t ++ v, rfl, rfl, v, rfl, by simpa using rest⟩

theorem occurs_either_iff : (p.either q).Occurs t ↔ p.Occurs t ∨ q.Occurs t := by
  constructor
  · rintro ⟨front, part, rest, rfl, here⟩
    cases here with
    | left here => exact .inl ⟨front, part, rest, rfl, here⟩
    | right here => exact .inr ⟨front, part, rest, rfl, here⟩
  · rintro (⟨front, part, rest, rfl, here⟩ | ⟨front, part, rest, rfl, here⟩)
    · exact ⟨front, part, rest, rfl, .left here⟩
    · exact ⟨front, part, rest, rfl, .right here⟩

end Pattern

end RuleOff
