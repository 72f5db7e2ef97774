import RuleOff.Proofs.Text.Splice

/-!
# Lines as an editor counts them

An editor ends a line at `\r\n`, at `\n` and at `\r`, and takes a column past the end of a line for
the end of the line, before the characters that end it. The planner ends lines at line feeds only and
leaves a carriage return in its line. This module reads both as lists of lines with their endings,
and says at which character a position stands in either.

## Main definitions

* `Row`: a line with the characters that end it.
* `Text.feedRows`, `Text.clientRows`: the lines of a text, ended at line feeds only or as an editor
  does.
* `Position.offset`: the character at which a position stands.
* `Text.ReturnsPaired`, `Text.FeedsPaired`: each carriage return is followed by a line feed, and
  each line feed preceded by a carriage return.

## Main statements

* `Text.splice_eq`: a splice inserts at the offset that goes by line feeds.
* `Text.offset_clientRows`: the two offsets agree at the start of a line and on the last line.
-/

namespace RuleOff

/-- A line with the characters that end it, none for the last line. -/
structure Row where
  content : Text
  ending : Text
deriving DecidableEq, Repr

namespace Row

/-- The number of characters of a line, with those that end it. -/
def length (r : Row) : Nat := r.content.length + r.ending.length

/-- The lines with one more character in front of the first. -/
def push (c : Char) : List Row → List Row
  | [] => [⟨[c], []⟩]
  | r :: rs => ⟨c :: r.content, r.ending⟩ :: rs

end Row

/-- The number of characters in front of a column, at most all of them. -/
def Text.charsBefore : Nat → Text → Nat
  | 0, _ => 0
  | _ + 1, [] => 0
  | n + 1, c :: cs => charsBefore (n + 1 - Text.units c) cs + 1

theorem Text.charsBefore_zero (t : Text) : charsBefore 0 t = 0 := by
  cases t <;> rfl

/-- The number of characters in front of a column of a line. A column past the end of the line stands
for its end, before the characters that end it, and a line past the last for the end of the text. -/
def Row.offset (column : Nat) : Nat → List Row → Nat
  | _, [] => 0
  | 0, r :: _ => Text.charsBefore column r.content
  | n + 1, r :: rs => r.length + offset column n rs

theorem Row.offset_zero_zero (rows : List Row) : offset 0 0 rows = 0 := by
  cases rows with
  | nil => rfl
  | cons r rs => exact Text.charsBefore_zero r.content

/-- The number of characters in front of a position. -/
def Position.offset (p : Position) (rows : List Row) : Nat :=
  Row.offset p.character.toNat p.line.toNat rows

namespace Text

/-- The lines of a text, ended at line feeds only. -/
def feedRows : Text → List Row
  | [] => [⟨[], []⟩]
  | c :: cs => if c = '\n' then ⟨[], ['\n']⟩ :: feedRows cs else Row.push c (feedRows cs)

/-- The lines of a text as an editor ends them, at `\r\n`, at `\n` and at `\r`. -/
def clientRows : Text → List Row
  | [] => [⟨[], []⟩]
  | '\r' :: '\n' :: cs => ⟨[], ['\r', '\n']⟩ :: clientRows cs
  | '\r' :: cs => ⟨[], ['\r']⟩ :: clientRows cs
  | '\n' :: cs => ⟨[], ['\n']⟩ :: clientRows cs
  | c :: cs => Row.push c (clientRows cs)

/-- Every carriage return stands in front of a line feed. -/
def ReturnsPaired (t : Text) : Prop :=
  ∀ front rest, t = front ++ '\r' :: rest → rest.head? = some '\n'

/-- Every line feed stands behind a carriage return. -/
def FeedsPaired (t : Text) : Prop :=
  ∀ front rest, t = front ++ '\n' :: rest → front.getLast? = some '\r'

/-! ### Offsets that go by line feeds -/

theorem feedRows_ne_nil (t : Text) : feedRows t ≠ [] := by
  cases t with
  | nil => exact List.cons_ne_nil _ _
  | cons c cs =>
    rw [feedRows]
    split
    · exact List.cons_ne_nil _ _
    · cases feedRows cs <;> exact List.cons_ne_nil _ _

/-- The contents of the lines are the pieces that the planner works on. -/
theorem map_content_feedRows (t : Text) : (feedRows t).map Row.content = lines t := by
  induction t with
  | nil => rfl
  | cons c cs ih =>
    rw [lines] at ih ⊢
    rw [feedRows, split, ← ih]
    split
    · rfl
    · cases feedRows cs <;> rfl

theorem length_feedRows (t : Text) : (feedRows t).length = (lines t).length := by
  rw [← map_content_feedRows, List.length_map]

theorem insertAtColumn_eq (new : Text) (column : Nat) (t : Text) :
    insertAtColumn new column t =
      t.take (Row.offset column 0 (feedRows t)) ++ new ++
        t.drop (Row.offset column 0 (feedRows t)) := by
  induction t generalizing column with
  | nil => cases column <;> simp [insertAtColumn, feedRows]
  | cons c cs ih =>
    obtain ⟨r, rs, hrows⟩ := List.exists_cons_of_ne_nil (feedRows_ne_nil cs)
    cases column with
    | zero =>
      rw [Row.offset_zero_zero]
      rfl
    | succ n =>
      rw [insertAtColumn, feedRows]
      split
      · rfl
      · have step : Row.offset (n + 1) 0 (Row.push c (feedRows cs)) =
            Row.offset (n + 1 - units c) 0 (feedRows cs) + 1 := by
          rw [hrows]
          rfl
        rw [step, ih]
        rfl

theorem insertAtLine_eq (new : Text) (column n : Nat) (t : Text) :
    insertAtLine new column n t =
      t.take (Row.offset column n (feedRows t)) ++ new ++
        t.drop (Row.offset column n (feedRows t)) := by
  induction t generalizing n with
  | nil =>
    cases n with
    | zero => exact insertAtColumn_eq new column []
    | succ n => simp [insertAtLine, feedRows]
  | cons c cs ih =>
    cases n with
    | zero => exact insertAtColumn_eq new column (c :: cs)
    | succ n =>
      obtain ⟨r, rs, hrows⟩ := List.exists_cons_of_ne_nil (feedRows_ne_nil cs)
      rw [insertAtLine, feedRows, ih]
      -- One character is passed: the whole of an empty line, or the first one of any other.
      split
      · have step : Row.offset column (n + 1) (⟨[], ['\n']⟩ :: feedRows cs) =
            Row.offset column n (feedRows cs) + 1 := Nat.add_comm _ _
        rw [step]
        rfl
      · have step : Row.offset column (n + 1) (Row.push c (feedRows cs)) =
            Row.offset column (n + 1) (feedRows cs) + 1 := by
          rw [hrows]
          simp only [Row.push, Row.offset, Row.length, List.length_cons]
          omega
        rw [step]
        rfl

/-- A splice inserts at the offset of its position, where lines end at line feeds. -/
theorem splice_eq (t : Text) (p : Position) (new : Text) :
    splice t p new =
      t.take (p.offset (feedRows t)) ++ new ++ t.drop (p.offset (feedRows t)) :=
  insertAtLine_eq new p.character.toNat p.line.toNat t

/-! ### Offsets in both ways -/

/-- Lists of lines that are as long, line by line, and end in the same line. -/
inductive SameLengths : List Row → List Row → Prop
  | last (r : Row) : SameLengths [r] [r]
  | cons {r r' : Row} {rs rs' : List Row} (same : r.length = r'.length)
    (rest : SameLengths rs rs') : SameLengths (r :: rs) (r' :: rs')

namespace SameLengths

variable {rs rs' : List Row}

theorem push (h : SameLengths rs rs') (c : Char) : SameLengths (Row.push c rs) (Row.push c rs') := by
  cases h with
  | last r => exact .last _
  | @cons r r' rs rs' same rest =>
    refine .cons ?_ rest
    simp only [Row.length, List.length_cons] at same ⊢
    omega

theorem offset_start (h : SameLengths rs rs') (n : Nat) :
    Row.offset 0 n rs = Row.offset 0 n rs' := by
  induction h generalizing n with
  | last r => rfl
  | cons same rest ih =>
    cases n with
    | zero => rw [Row.offset_zero_zero, Row.offset_zero_zero]
    | succ n => rw [Row.offset, Row.offset, same, ih]

theorem offset_last (h : SameLengths rs rs') (column : Nat) {n : Nat} (last : rs.length ≤ n + 1) :
    Row.offset column n rs = Row.offset column n rs' := by
  induction h generalizing n with
  | last r => rfl
  | @cons r r' rs rs' same rest ih =>
    rw [List.length_cons] at last
    cases n with
    | zero =>
      have none_left : rs = [] := List.length_eq_zero_iff.mp (by omega)
      rw [none_left] at rest
      cases rest
    | succ n => rw [Row.offset, Row.offset, same, ih (by omega)]

end SameLengths

theorem returnsPaired_cons {c : Char} {cs : Text} :
    ReturnsPaired (c :: cs) ↔ (c = '\r' → cs.head? = some '\n') ∧ ReturnsPaired cs := by
  constructor
  · intro h
    refine ⟨?_, fun front rest e => h (c :: front) rest (by rw [e]; rfl)⟩
    rintro rfl
    exact h [] cs rfl
  · rintro ⟨first, later⟩ front rest e
    cases front with
    | nil =>
      obtain ⟨rfl, rfl⟩ := List.cons.inj e
      exact first rfl
    | cons d front => exact later front rest (List.cons.inj e).2

theorem returnsPaired_nil : ReturnsPaired [] := fun front rest e => by simp at e

theorem returnsPaired_of_notMem {t : Text} (plain : '\r' ∉ t) : ReturnsPaired t := by
  rintro front rest rfl
  simp at plain

instance decidableReturnsPaired : (t : Text) → Decidable (ReturnsPaired t)
  | [] => isTrue returnsPaired_nil
  | _ :: cs =>
    have := decidableReturnsPaired cs
    decidable_of_iff _ returnsPaired_cons.symm

/-- Where carriage returns only stand in front of line feeds, both ways of ending lines end them at
the same places. -/
theorem ReturnsPaired.sameLengths {t : Text} (h : ReturnsPaired t) :
    SameLengths (feedRows t) (clientRows t) := by
  fun_induction clientRows t with
  | case1 => exact .last _
  | case2 cs ih => exact .cons rfl (ih (returnsPaired_cons.mp (returnsPaired_cons.mp h).2).2)
  | case3 cs other ih =>
    obtain ⟨ds, hcs⟩ := List.head?_eq_some_iff.mp ((returnsPaired_cons.mp h).1 rfl)
    exact absurd hcs (other ds)
  | case4 cs ih => exact .cons rfl (ih (returnsPaired_cons.mp h).2)
  | case5 c cs _ _ other ih =>
    rw [feedRows, if_neg other]
    exact (ih (returnsPaired_cons.mp h).2).push c

/-- A position at the start of a line, or on the last line, stands at the same character whether
lines end at line feeds only or as an editor ends them. -/
theorem offset_clientRows {t : Text} (h : t.ReturnsPaired) {p : Position}
    (place : p.character = 0 ∨ (lines t).length ≤ p.line.toNat + 1) :
    p.offset (clientRows t) = p.offset (feedRows t) := by
  rcases place with start | last
  · rw [Position.offset, Position.offset, start]
    exact (h.sameLengths.offset_start _).symm
  · rw [← length_feedRows] at last
    exact (h.sameLengths.offset_last _ last).symm

/-! ### Pairs of characters -/

theorem ReturnsPaired.getLast?_ne {t : Text} (h : ReturnsPaired t) : t.getLast? ≠ some '\r' := by
  intro last
  obtain ⟨front, rfl⟩ := List.getLast?_eq_some_iff.mp last
  exact absurd (h front [] rfl) (by simp)

/-- Where no pair is cut, the pairs of a text are those of its two parts. -/
theorem returnsPaired_append {a b : Text} (uncut : a.getLast? ≠ some '\r') :
    ReturnsPaired (a ++ b) ↔ ReturnsPaired a ∧ ReturnsPaired b := by
  constructor
  · intro h
    refine ⟨fun front rest e => ?_, fun front rest e => h (a ++ front) rest (by simp [e])⟩
    have next := h front (rest ++ b) (by simp [e])
    cases rest with
    | nil => exact absurd (by simp [e]) uncut
    | cons d rest => exact next
  · rintro ⟨ha, hb⟩ front rest e
    obtain ⟨c, rfl, hc⟩ | ⟨c, rfl, hc⟩ := List.append_eq_append_iff.mp e
    · exact hb c rest hc
    · cases c with
      | nil => exact hb [] rest (by simpa using hc.symm)
      | cons d c =>
        obtain ⟨rfl, rfl⟩ := List.cons.inj hc
        have next := ha front c rfl
        cases c with
        | nil => exact absurd next (by simp)
        | cons d c => exact next

theorem feedsPaired_append {a b : Text} (uncut : b.head? ≠ some '\n') :
    FeedsPaired (a ++ b) ↔ FeedsPaired a ∧ FeedsPaired b := by
  constructor
  · intro h
    refine ⟨fun front rest e => h front (rest ++ b) (by simp [e]), fun front rest e => ?_⟩
    have before := h (a ++ front) rest (by simp [e])
    cases front with
    | nil => exact absurd (by simp [e]) uncut
    | cons d front => simpa [List.getLast?_append] using before
  · rintro ⟨ha, hb⟩ front rest e
    obtain ⟨c, rfl, hc⟩ | ⟨c, rfl, hc⟩ := List.append_eq_append_iff.mp e
    · have before := hb c rest hc
      rw [List.getLast?_append, before]
      rfl
    · cases c with
      | nil => exact absurd (by simpa using (congrArg List.head? hc).symm) uncut
      | cons d c =>
        obtain ⟨rfl, rfl⟩ := List.cons.inj hc
        exact ha front c rfl

end Text

end RuleOff
