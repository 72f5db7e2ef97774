import RuleOff.Text.Position

/-!
# Splicing whole lines

A text is cut at a line boundary into a front of terminated lines and the lines that follow. A
position that stands at the end of a front inserts between the front and the rest, and what is
inserted there in terminated lines is inserted into the list of lines.

## Main definitions

* `Text.terminated`: some lines, each with a line feed at its end.
* `Text.below`: a text with empty lines in front of it.
* `Position.IsEndOf`: a position just after a front of a document.
* `Text.Addressable`: a document whose positions fit 32 bits.

## Main statements

* `Text.splice_append`: a splice at the end of a front.
* `Text.exists_splice_eq`: every splice leaves the characters around the place as they are.
-/

namespace RuleOff

namespace Text

/-- The lines, each with a line feed at its end. -/
def terminated (ls : List Text) : Text := ls.flatMap (· ++ ['\n'])

@[simp] theorem terminated_nil : terminated [] = [] := rfl

@[simp] theorem terminated_cons (l : Text) (ls : List Text) :
    terminated (l :: ls) = l ++ '\n' :: terminated ls := by
  simp [terminated]

@[simp] theorem terminated_append (ls ms : List Text) :
    terminated (ls ++ ms) = terminated ls ++ terminated ms := by
  simp [terminated]

/-- The text below a number of empty lines. -/
def below (n : Nat) (t : Text) : Text := terminated (List.replicate n []) ++ t

theorem below_succ (n : Nat) (t : Text) : below (n + 1) t = '\n' :: below n t := rfl

theorem newline_notMem_of_mem_lines {t l : Text} (h : l ∈ lines t) : '\n' ∉ l :=
  notMem_of_mem_split h

theorem lines_ne_nil (t : Text) : lines t ≠ [] := split_ne_nil '\n' t

theorem exists_lines_eq_concat (t : Text) : ∃ ls l, lines t = ls ++ [l] :=
  ⟨(lines t).dropLast, (lines t).getLast (lines_ne_nil t),
    (List.dropLast_concat_getLast (lines_ne_nil t)).symm⟩

/-- Terminated lines in front of a text are its first lines. -/
theorem lines_terminated_append {ls : List Text} (h : ∀ l ∈ ls, '\n' ∉ l) (t : Text) :
    lines (terminated ls ++ t) = ls ++ lines t := by
  induction ls with
  | nil => rfl
  | cons l ls ih =>
    have hl : '\n' ∉ l := h l List.mem_cons_self
    have hls : ∀ m ∈ ls, '\n' ∉ m := fun m hm => h m (List.mem_cons_of_mem _ hm)
    rw [terminated_cons, List.append_assoc, List.cons_append, lines, split_append_cons hl]
    exact congrArg (l :: ·) (ih hls)

theorem lines_below (n : Nat) (t : Text) :
    lines (below n t) = List.replicate n [] ++ lines t := by
  refine lines_terminated_append (fun l hl => ?_) t
  rw [List.eq_of_mem_replicate hl]
  exact List.not_mem_nil

theorem join_append (ls : List Text) {ms : List Text} (h : ms ≠ []) :
    join '\n' (ls ++ ms) = terminated ls ++ join '\n' ms := by
  induction ls with
  | nil => rfl
  | cons l ls ih =>
    have hne : ls ++ ms ≠ [] := List.append_ne_nil_of_right_ne_nil ls h
    rw [List.cons_append, join_cons_of_ne_nil '\n' l hne, ih, terminated_cons]
    simp

/-- A text whose lines fall into two parts, the second not empty, is the terminated first part
followed by the second. -/
theorem eq_terminated_append {t : Text} {ls ms : List Text} (h : lines t = ls ++ ms)
    (hms : ms ≠ []) : t = terminated ls ++ join '\n' ms := by
  rw [← join_append ls hms, ← h]
  exact (join_split '\n' t).symm

theorem eq_terminated_append_last {t : Text} {ls : List Text} {l : Text}
    (h : lines t = ls ++ [l]) : t = terminated ls ++ l :=
  eq_terminated_append h (List.cons_ne_nil l [])

theorem width_terminated_append (ls : List Text) (t : Text) :
    width t ≤ width (terminated ls ++ t) := by
  rw [width_append]
  omega

theorem length_lines (t : Text) : (lines t).length = t.count '\n' + 1 := by
  induction t with
  | nil => rfl
  | cons c cs ih =>
    rw [lines] at ih ⊢
    rw [split]
    split
    next hc => rw [List.length_cons, ih, hc, List.count_cons_self]
    next hc =>
      rw [List.count_cons_of_ne hc, ← ih]
      split
      next hs => exact absurd hs (split_ne_nil '\n' cs)
      next p ps hs => rw [hs]; rfl

end Text

namespace Position

/-- The position stands just after a front of a document: in the last line of the front, after as
many units as that line has. -/
structure IsEndOf (p : Position) (front : Text) : Prop where
  line : p.line.toNat + 1 = (Text.lines front).length
  character : p.character.toNat = Text.width ((Text.lines front).getLastD [])

end Position

namespace Text

theorem insertAtColumn_append {front : Text} (h : '\n' ∉ front) (rest new : Text) :
    insertAtColumn new (width front) (front ++ rest) = front ++ (new ++ rest) := by
  induction front with
  | nil => cases rest <;> rfl
  | cons c cs ih =>
    simp only [List.mem_cons, not_or] at h
    have hc : c ≠ '\n' := fun e => h.1 e.symm
    -- A character has at least one unit, so the column is a successor and one step is taken.
    obtain ⟨n, hn⟩ : ∃ n, units c + width cs = n + 1 := ⟨units c + width cs - 1, by
      have := units_pos c
      omega⟩
    have hsub : n + 1 - units c = width cs := by omega
    rw [width_cons, hn, List.cons_append, insertAtColumn, if_neg hc, hsub, ih h.2]
    rfl

theorem insertAtLine_line {l : Text} (h : '\n' ∉ l) (new rest : Text) (column n : Nat) :
    insertAtLine new column (n + 1) (l ++ '\n' :: rest) =
      l ++ '\n' :: insertAtLine new column n rest := by
  induction l with
  | nil => simp [insertAtLine]
  | cons c cs ih =>
    simp only [List.mem_cons, not_or] at h
    have hc : c ≠ '\n' := fun e => h.1 e.symm
    rw [List.cons_append, insertAtLine, if_neg hc, ih h.2]
    rfl

theorem insertAtLine_terminated {ls : List Text} (h : ∀ l ∈ ls, '\n' ∉ l) (new rest : Text)
    (column : Nat) :
    insertAtLine new column ls.length (terminated ls ++ rest) =
      terminated ls ++ insertAtColumn new column rest := by
  induction ls with
  | nil => cases rest <;> rfl
  | cons l ls ih =>
    have hl : '\n' ∉ l := h l List.mem_cons_self
    have hls : ∀ m ∈ ls, '\n' ∉ m := fun m hm => h m (List.mem_cons_of_mem _ hm)
    rw [List.length_cons, terminated_cons, List.append_assoc, List.cons_append,
      insertAtLine_line hl, ih hls]
    simp

/-- A splice at the end of a front inserts between the front and the rest. -/
theorem splice_append {front : Text} {p : Position} (hp : p.IsEndOf front) (rest new : Text) :
    splice (front ++ rest) p new = front ++ new ++ rest := by
  obtain ⟨ls, l, hls⟩ := exists_lines_eq_concat front
  have hnl : ∀ m ∈ lines front, '\n' ∉ m := fun m hm => newline_notMem_of_mem_lines hm
  rw [hls] at hnl
  have hline : p.line.toNat = ls.length := by
    have := hp.line
    simp [hls] at this
    omega
  have hcol : p.character.toNat = width l := by simpa [hls] using hp.character
  have hfront : front = terminated ls ++ l := eq_terminated_append_last hls
  rw [hfront, splice, hline, hcol, List.append_assoc,
    insertAtLine_terminated (fun m hm => hnl m (List.mem_append_left _ hm)),
    insertAtColumn_append (hnl l (by simp))]
  simp

theorem exists_insertAtColumn_eq (new : Text) (column : Nat) (t : Text) :
    ∃ front rest, t = front ++ rest ∧ insertAtColumn new column t = front ++ new ++ rest := by
  -- The induction is on the text: the column shrinks by the units of the character, not by one.
  induction t generalizing column with
  | nil => exact ⟨[], [], rfl, by cases column <;> simp [insertAtColumn]⟩
  | cons c cs ih =>
    cases column with
    | zero => exact ⟨[], c :: cs, rfl, rfl⟩
    | succ k =>
      unfold insertAtColumn
      split
      · exact ⟨[], c :: cs, rfl, rfl⟩
      · obtain ⟨front, rest, hcs, hins⟩ := ih (k + 1 - units c)
        exact ⟨c :: front, rest, by rw [hcs]; rfl, by rw [hins]; rfl⟩

theorem exists_insertAtLine_eq (new : Text) (column n : Nat) (t : Text) :
    ∃ front rest, t = front ++ rest ∧ insertAtLine new column n t = front ++ new ++ rest := by
  induction t generalizing n with
  | nil =>
    cases n with
    | zero => exact exists_insertAtColumn_eq new column []
    | succ n => exact ⟨[], [], rfl, by simp [insertAtLine]⟩
  | cons c cs ih =>
    cases n with
    | zero => exact exists_insertAtColumn_eq new column (c :: cs)
    | succ n =>
      obtain ⟨front, rest, hcs, hins⟩ := ih (if c = '\n' then n else n + 1)
      exact ⟨c :: front, rest, by rw [hcs]; rfl, by rw [insertAtLine, hins]; rfl⟩

/-- A splice leaves the characters before and after some place as they are. -/
theorem exists_splice_eq (t : Text) (p : Position) (new : Text) :
    ∃ front rest, t = front ++ rest ∧ splice t p new = front ++ new ++ rest :=
  exists_insertAtLine_eq new p.character.toNat p.line.toNat t

theorem splice_ne_self (t : Text) (p : Position) {new : Text} (h : new ≠ []) :
    splice t p new ≠ t := by
  obtain ⟨front, rest, ht, hs⟩ := exists_splice_eq t p new
  have longer : t.length < (splice t p new).length := by
    have := List.length_pos_iff.mpr h
    rw [hs, ht]
    simp only [List.length_append]
    omega
  intro same
  rw [same] at longer
  exact Nat.lt_irrefl _ longer

/-- A document whose lines and UTF-16 units are counted by 32 bits, as a position does. -/
structure Addressable (t : Text) : Prop where
  lines : (lines t).length < UInt32.size
  width : width t < UInt32.size

/-- A document that is addressable after a splice was so before. -/
theorem Addressable.of_splice {t new : Text} {p : Position} (h : (splice t p new).Addressable) :
    t.Addressable := by
  obtain ⟨front, rest, rfl, hs⟩ := exists_splice_eq t p new
  rw [hs] at h
  have hl := h.lines
  have hw := h.width
  simp only [length_lines, List.count_append, width_append] at hl hw
  constructor
  · simp only [length_lines, List.count_append]
    omega
  · simp only [width_append]
    omega

theorem width_le_of_mem_lines {t l : Text} (h : l ∈ lines t) : width l ≤ width t := by
  obtain ⟨ls, ms, hls⟩ := List.append_of_mem h
  have ht := eq_terminated_append hls (List.cons_ne_nil l ms)
  have hj : width l ≤ width (join '\n' (l :: ms)) := by
    cases ms with
    | nil => exact Nat.le_refl _
    | cons m ms => simp [join]
  rw [ht]
  exact Nat.le_trans hj (width_terminated_append ls _)

end Text

end RuleOff
