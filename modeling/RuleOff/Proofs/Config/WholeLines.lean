import RuleOff.Proofs.Config.Anchor
import RuleOff.Proofs.Text.Splice

/-!
# Insertions of whole lines

The planner computes a position, a text and a cursor apart from each other. Put into the document,
they amount to new lines between the old ones: every old line stays what it was, except that the
last line gets an ending where lines are added behind it.

## Main definitions

* `Config.Switch`: a rule to be switched off, with the indentation of one level.
* `Config.LineChange`: how the lines of a document change.

## Main statements

* `Config.addsLines_of_plan`: an insertion of the planner changes the lines as said.
* `Config.plan_adds_whole_lines`: the same with the line that the cursor is at.
-/

namespace RuleOff.Config

/-- A rule to be switched off and the indentation of one level, each within a line. -/
structure Switch where
  rule : Text
  indent : Text
  rule_inline : '\n' ∉ rule
  indent_inline : '\n' ∉ indent

/-- The line that switches the rule off, without its ending. -/
def Switch.entry (s : Switch) : Format → Text
  | .json => s.indent ++ s.indent ++ '"' :: (s.rule ++ "\": \"off\",".toList)
  | .yaml => s.indent ++ s.rule ++ ": off".toList

/-- The carriage return in front of the line feeds of a document, where it has any. -/
def returnOf (t : Text) : Text := if Text.occursIn ['\r', '\n'] t then ['\r'] else []

theorem lineEnding_eq (t : Text) : lineEnding t = returnOf t ++ ['\n'] := by
  unfold lineEnding returnOf
  split <;> rfl

theorem newline_notMem_returnOf (t : Text) : '\n' ∉ returnOf t := by
  unfold returnOf
  split <;> decide

theorem returnOf_of_notMem {t : Text} (h : '\r' ∉ t) : returnOf t = [] := by
  refine if_neg fun hoccurs => h ?_
  exact (Text.occursIn_iff.1 hoccurs).mem (by simp)

theorem Switch.newline_notMem_entry (s : Switch) (format : Format) : '\n' ∉ s.entry format := by
  have hrule := s.rule_inline
  have hindent := s.indent_inline
  cases format with
  | json =>
    have hoff : '\n' ∉ "\": \"off\",".toList := by decide
    simp only [entry, List.mem_append, List.mem_cons, not_or]
    exact ⟨⟨hindent, hindent⟩, by decide, hrule, hoff⟩
  | yaml =>
    have hoff : '\n' ∉ ": off".toList := by decide
    simp only [entry, List.mem_append, not_or]
    exact ⟨⟨hindent, hrule⟩, hoff⟩

theorem newline_notMem_yamlKey : '\n' ∉ yamlKey := by decide

/-- How the lines of a document change when a rule is switched off in it, and the number of the
line at which the cursor ends up. -/
inductive LineChange (format : Format) (s : Switch) (t : Text) : List Text → Nat → Prop where
  /-- The entry comes after the anchor, and nothing else changes. -/
  | inside {above below : List Text} {header a : Nat}
      (hlines : Text.lines t = above ++ below) (hbelow : below ≠ [])
      (hheader : findRulesHeader (Text.lines t) = some header)
      (hanchor : IsAnchor (Text.lines t) header format s.rule a)
      (hlength : above.length = a + 1) :
      LineChange format s t (above ++ (s.entry format ++ returnOf t) :: below) (a + 1)
  /-- The anchor is the last line: it gets an ending, and the entry and an empty line follow. -/
  | atEnd {front : List Text} {last : Text} {header a : Nat}
      (hlines : Text.lines t = front ++ [last])
      (hheader : findRulesHeader (Text.lines t) = some header)
      (hanchor : IsAnchor (Text.lines t) header format s.rule a)
      (hlength : front.length = a) :
      LineChange format s t
        (front ++ [last ++ returnOf t, s.entry format ++ returnOf t, []]) (a + 1)
  /-- There is no header in YAML: the last line gets an ending, and a section follows. -/
  | newSection {front : List Text} {last : Text}
      (hlines : Text.lines t = front ++ [last])
      (hformat : format = .yaml) (hheader : findRulesHeader (Text.lines t) = none) :
      LineChange format s t
        (front ++ [last ++ returnOf t, yamlKey ++ returnOf t, s.entry format ++ returnOf t, []])
        (front.length + 1)

/-! ### Places -/

/-- Empty lines push a header down from the first line. -/
theorem findRulesHeader_below {t : Text} (h : findRulesHeader (Text.lines t) = some 0) (n : Nat) :
    findRulesHeader (Text.lines (Text.below n t)) = some n := by
  rw [Text.lines_below]
  induction n with
  | zero => exact h
  | succ n ih =>
    rw [List.replicate_succ, List.cons_append, findRulesHeader_cons rfl, ih]
    rfl

theorem isEndOf_endOfDocument {t : Text} (ht : t.Addressable) :
    (endOfDocument (Text.lines t)).IsEndOf t := by
  have hlines := ht.lines
  have hpos : 0 < (Text.lines t).length := List.length_pos_iff.2 (Text.lines_ne_nil t)
  obtain ⟨front, last, hconcat⟩ := Text.exists_lines_eq_concat t
  have hlast : Text.width last ≤ Text.width t :=
    Text.width_le_of_mem_lines (by rw [hconcat]; simp)
  have hwidth := ht.width
  constructor
  · simp only [endOfDocument, Position.ofCounts]
    rw [UInt32.toNat_ofNat_of_lt' (by omega)]
    omega
  · simp only [endOfDocument, Position.ofCounts, hconcat, List.getLastD_concat]
    exact UInt32.toNat_ofNat_of_lt' (by omega)

theorem isEndOf_terminated {above : List Text} (h : ∀ l ∈ above, '\n' ∉ l)
    (hlt : above.length < UInt32.size) :
    (Position.ofCounts above.length 0).IsEndOf (Text.terminated above) := by
  have hlines : Text.lines (Text.terminated above) = above ++ [[]] := by
    simpa [Text.lines, Text.split] using Text.lines_terminated_append h []
  constructor
  · rw [hlines, Position.ofCounts, UInt32.toNat_ofNat_of_lt' hlt]
    simp
  · rw [hlines]
    simp [Position.ofCounts]

/-- Lines that are added behind the last line, which gets an ending. -/
theorem lines_append_terminated {t last cr : Text} {front added : List Text}
    (hlines : Text.lines t = front ++ [last]) (hcr : '\n' ∉ cr) (hadded : ∀ l ∈ added, '\n' ∉ l) :
    Text.lines (t ++ (cr ++ '\n' :: Text.terminated added)) =
      front ++ (last ++ cr) :: (added ++ [[]]) := by
  have hold : ∀ l ∈ front ++ [last], '\n' ∉ l := fun l hl =>
    Text.newline_notMem_of_mem_lines (hlines ▸ hl)
  have hnew : ∀ l ∈ front ++ (last ++ cr) :: added, '\n' ∉ l := by
    intro l hl
    simp only [List.mem_append, List.mem_cons] at hl
    rcases hl with hl | rfl | hl
    · exact hold l (by simp [hl])
    · simp only [List.mem_append, not_or]
      exact ⟨hold last (by simp), hcr⟩
    · exact hadded l hl
  have ht : t ++ (cr ++ '\n' :: Text.terminated added) =
      Text.terminated (front ++ (last ++ cr) :: added) ++ [] := by
    rw [Text.eq_terminated_append_last hlines]
    simp
  rw [ht, Text.lines_terminated_append hnew]
  simp [Text.lines, Text.split]

/-! ### The three shapes -/

/-- An insertion whose place is a boundary between two characters of the document, and which
changes the lines as said, with the cursor at the start of a line. -/
structure AddsLines (format : Format) (s : Switch) (t : Text) (i : Insertion) : Prop where
  place : ∃ front rest, t = front ++ rest ∧ i.position.IsEndOf front ∧
    Text.splice t i.position i.text = front ++ i.text ++ rest
  change : LineChange format s t (Text.lines (Text.splice t i.position i.text))
    i.cursor.line.toNat
  column : i.cursor.character = 0

variable {t : Text} {format : Format} {s : Switch} {header a : Nat}

theorem AddsLines.of_place {front rest : Text} {i : Insertion} (ht : t = front ++ rest)
    (hplace : i.position.IsEndOf front)
    (hchange : LineChange format s t (Text.lines (front ++ i.text ++ rest)) i.cursor.line.toNat)
    (hcolumn : i.cursor.character = 0) : AddsLines format s t i := by
  have hsplice : Text.splice t i.position i.text = front ++ i.text ++ rest := by
    rw [ht, Text.splice_append hplace]
  exact ⟨⟨front, rest, ht, hplace, hsplice⟩, hsplice ▸ hchange, hcolumn⟩

theorem newline_notMem_entry_returnOf (s : Switch) (format : Format) (t : Text) :
    ∀ l ∈ [s.entry format ++ returnOf t], '\n' ∉ l := by
  intro l hl
  rw [List.mem_singleton.1 hl, List.mem_append, not_or]
  exact ⟨s.newline_notMem_entry format, newline_notMem_returnOf t⟩

theorem addsLines_newSection (ht : t.Addressable)
    (hheader : findRulesHeader (Text.lines t) = none) :
    AddsLines .yaml s t (newSection (Text.lines t) s.rule s.indent (lineEnding t)) := by
  obtain ⟨front, last, hlines⟩ := Text.exists_lines_eq_concat t
  have htext : (newSection (Text.lines t) s.rule s.indent (lineEnding t)).text =
      returnOf t ++ '\n' ::
        Text.terminated [yamlKey ++ returnOf t, s.entry .yaml ++ returnOf t] := by
    simp [newSection, yamlEntry, Switch.entry, lineEnding_eq]
  have hadded : ∀ l ∈ [yamlKey ++ returnOf t, s.entry .yaml ++ returnOf t], '\n' ∉ l := by
    intro l hl
    rcases List.mem_cons.1 hl with rfl | hl
    · rw [List.mem_append, not_or]
      exact ⟨newline_notMem_yamlKey, newline_notMem_returnOf t⟩
    · exact newline_notMem_entry_returnOf s .yaml t l hl
  have hcursor : (newSection (Text.lines t) s.rule s.indent (lineEnding t)).cursor.line.toNat =
      front.length + 1 := by
    have hlength : (Text.lines t).length = front.length + 1 := by simp [hlines]
    rw [newSection, Position.ofCounts, UInt32.toNat_ofNat_of_lt' ht.lines, hlength]
  refine .of_place (List.append_nil t).symm (isEndOf_endOfDocument ht) ?_ rfl
  rw [htext, List.append_nil, hcursor,
    lines_append_terminated hlines (newline_notMem_returnOf t) hadded]
  exact .newSection hlines rfl hheader

theorem addsLines_inside (ht : t.Addressable)
    (hheader : findRulesHeader (Text.lines t) = some header)
    (hanchor : IsAnchor (Text.lines t) header format s.rule a)
    (hlt : a + 1 < (Text.lines t).length) :
    AddsLines format s t
      ⟨.ofCounts (a + 1) 0, Text.terminated [s.entry format ++ returnOf t],
        .ofCounts (a + 1) 0⟩ := by
  obtain ⟨above, below, hlines, hlength⟩ :
      ∃ above below, Text.lines t = above ++ below ∧ above.length = a + 1 :=
    ⟨(Text.lines t).take (a + 1), (Text.lines t).drop (a + 1),
      (List.take_append_drop _ _).symm, by rw [List.length_take]; omega⟩
  have hbound := ht.lines
  have hold : ∀ l ∈ above ++ below, '\n' ∉ l := fun l hl =>
    Text.newline_notMem_of_mem_lines (hlines ▸ hl)
  have hbelow : below ≠ [] := by
    rintro rfl
    rw [List.append_nil] at hlines
    rw [hlines] at hlt
    omega
  have habove : ∀ l ∈ above, '\n' ∉ l := fun l hl => hold l (List.mem_append_left _ hl)
  have hnew : ∀ l ∈ above ++ [s.entry format ++ returnOf t], '\n' ∉ l := by
    intro l hl
    rcases List.mem_append.1 hl with hl | hl
    · exact habove l hl
    · exact newline_notMem_entry_returnOf s format t l hl
  have hplace := isEndOf_terminated habove (by omega)
  have hrest : Text.lines (Text.join '\n' below) = below :=
    Text.split_join hbelow fun l hl => hold l (List.mem_append_right _ hl)
  rw [hlength] at hplace
  refine .of_place (Text.eq_terminated_append hlines hbelow) hplace ?_ rfl
  -- The entry is one more terminated line of the front, and the rest is cut as before.
  rw [← Text.terminated_append, Text.lines_terminated_append hnew, hrest, Position.ofCounts,
    UInt32.toNat_ofNat_of_lt' (by omega), List.append_assoc, List.singleton_append]
  exact .inside hlines hbelow hheader hanchor hlength

theorem addsLines_atEnd (ht : t.Addressable)
    (hheader : findRulesHeader (Text.lines t) = some header)
    (hanchor : IsAnchor (Text.lines t) header format s.rule a)
    (hend : (Text.lines t).length = a + 1) :
    AddsLines format s t
      ⟨endOfDocument (Text.lines t),
        returnOf t ++ '\n' :: Text.terminated [s.entry format ++ returnOf t],
        .ofCounts (a + 1) 0⟩ := by
  obtain ⟨front, last, hlines⟩ := Text.exists_lines_eq_concat t
  have hlength : front.length = a := by
    rw [hlines, List.length_append, List.length_singleton] at hend
    omega
  refine .of_place (List.append_nil t).symm (isEndOf_endOfDocument ht) ?_ rfl
  have hbound := ht.lines
  rw [List.append_nil, Position.ofCounts, UInt32.toNat_ofNat_of_lt' (by omega),
    lines_append_terminated hlines (newline_notMem_returnOf t)
      (newline_notMem_entry_returnOf s format t)]
  exact .atEnd hlines hheader hanchor hlength

/-- With a header, the planner puts the line of the entry after an anchor. -/
theorem exists_plan_of_header (s : Switch) (format : Format)
    (hheader : findRulesHeader (Text.lines t) = some header) :
    ∃ a, IsAnchor (Text.lines t) header format s.rule a ∧
      plan t format s.rule s.indent =
        some (insertLineAfter (Text.lines t) a
          (Text.terminated [s.entry format ++ returnOf t]) (returnOf t ++ ['\n'])) := by
  cases format with
  | json =>
    refine ⟨header, .json s.rule, ?_⟩
    simp [plan, hheader, jsonEntry, Switch.entry, lineEnding_eq]
  | yaml =>
    refine ⟨_, isAnchor_yamlAnchor _ header s.rule, ?_⟩
    simp [plan, hheader, yamlEntry, Switch.entry, lineEnding_eq]

/-- Without a header, the planner adds a section in YAML and nothing in JSON. -/
theorem plan_of_no_header (s : Switch) (format : Format)
    (hheader : findRulesHeader (Text.lines t) = none) :
    plan t format s.rule s.indent =
      match format with
      | .json => none
      | .yaml => some (newSection (Text.lines t) s.rule s.indent (lineEnding t)) := by
  cases format <;> simp [plan, hheader]

/-- Every insertion of the planner adds lines to an addressable document. -/
theorem addsLines_of_plan (ht : t.Addressable) {i : Insertion}
    (h : plan t format s.rule s.indent = some i) : AddsLines format s t i := by
  cases hheader : findRulesHeader (Text.lines t) with
  | none =>
    rw [plan_of_no_header s format hheader] at h
    cases format with
    | json => exact absurd h (by simp)
    | yaml =>
      rw [← Option.some.inj h]
      exact addsLines_newSection ht hheader
  | some header =>
    obtain ⟨a, hanchor, hplan⟩ := exists_plan_of_header s format hheader
    have hlt : a < (Text.lines t).length := hanchor.lt_length hheader
    rw [hplan, Option.some.injEq, insertLineAfter] at h
    split at h
    next hinside =>
      subst h
      exact addsLines_inside ht hheader hanchor hinside
    next hend =>
      rw [List.append_assoc, List.singleton_append] at h
      subst h
      exact addsLines_atEnd ht hheader hanchor (by omega)

/-- The cursor is at the line of the entry, or at the key of a new section. -/
theorem LineChange.getElem?_cursor {R : List Text} {n : Nat} (h : LineChange format s t R n) :
    R[n]? = some
      ((if findRulesHeader (Text.lines t) = none then yamlKey else s.entry format) ++
        returnOf t) := by
  cases h with
  | inside _ _ hheader _ hlength => simp [hheader, ← hlength]
  | atEnd _ hheader _ hlength => simp [hheader, ← hlength]
  | newSection _ _ hheader => simp [hheader]

/-- An insertion of the planner only adds whole lines to a document: its place is a boundary
between two characters, the lines change in one of the three shapes of `LineChange`, and the
cursor is at the start of the line of the entry, or of the key where a section is new. -/
theorem plan_adds_whole_lines (s : Switch) {t : Text} {format : Format} {i : Insertion}
    (ht : t.Addressable) (h : plan t format s.rule s.indent = some i) :
    (∃ front rest, t = front ++ rest ∧ i.position.IsEndOf front ∧
      Text.splice t i.position i.text = front ++ i.text ++ rest) ∧
    LineChange format s t (Text.lines (Text.splice t i.position i.text)) i.cursor.line.toNat ∧
    i.cursor.character = 0 ∧
    (Text.lines (Text.splice t i.position i.text))[i.cursor.line.toNat]? = some
      ((if findRulesHeader (Text.lines t) = none then yamlKey else s.entry format) ++
        returnOf t) := by
  have hadds := addsLines_of_plan ht h
  exact ⟨hadds.place, hadds.change, hadds.column, hadds.change.getElem?_cursor⟩

/-- A header on a last line without an ending, in a document with carriage returns. -/
theorem plan_adds_whole_lines_after_last_header :
    let s : Switch := ⟨"a/b".toList, ['\t'], by decide, by decide⟩
    let t := "é\r\nrules:".toList
    let i : Insertion := ⟨⟨1, 6⟩, "\r\n\ta/b: off\r\n".toList, ⟨2, 0⟩⟩
    plan t .yaml s.rule s.indent = some i ∧
      Text.splice t i.position i.text = "é\r\nrules:\r\n\ta/b: off\r\n".toList ∧
      LineChange .yaml s t (Text.lines (Text.splice t i.position i.text)) 2 := by
  refine ⟨by decide, by decide, ?_⟩
  exact (plan_adds_whole_lines ⟨"a/b".toList, ['\t'], by decide, by decide⟩
    ⟨by decide, by decide⟩ (by decide)).2.1

end RuleOff.Config
