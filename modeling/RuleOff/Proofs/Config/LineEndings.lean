import RuleOff.Proofs.Config.Runs
import RuleOff.Proofs.Text.Rows

/-!
# Carriage returns

The planner leaves the carriage return of a line inside the line, and an editor takes it for a part of
the ending. As long as every carriage return stands in front of a line feed, the two mean the same
places, and an insertion of the planner leaves it that way: it puts in whole lines, with the endings
that the document has, at the start of a line or behind the last one.

## Main definitions

* `Config.Switch.NoReturn`: a switch whose entry holds no carriage return.
* `Config.KeepsEndings`: what an edit leaves of the line endings of a document.

## Main statements

* `Config.exists_rows_of_plan`: the inserted text is made of whole lines.
* `Config.keepsEndings_splice`: one insertion keeps the endings of a document.
* `Config.plan_denotes_client_place`: the places of any number of insertions.
* `Config.plan_misses_client_place`: a document that is too long for positions of 32 bits.
-/

namespace RuleOff

namespace Text

variable {cr : Text} {ls : List Text}

/-- The lines, each with a line feed at its end and the same text in front of that. -/
def endedBy (cr : Text) (ls : List Text) : Text := terminated (ls.map (· ++ cr))

theorem endedBy_cons (cr l : Text) (ls : List Text) :
    endedBy cr (l :: ls) = l ++ (cr ++ ['\n'] ++ endedBy cr ls) := by
  simp [endedBy]

theorem getLast?_endedBy (cr : Text) (hne : ls ≠ []) : (endedBy cr ls).getLast? = some '\n' := by
  obtain ⟨front, last, rfl⟩ := (List.eq_nil_or_concat' ls).resolve_left hne
  simp [endedBy, List.getLast?_append]

theorem getLast?_terminated_ne (ls : List Text) : (terminated ls).getLast? ≠ some '\r' := by
  rcases List.eq_nil_or_concat' ls with rfl | ⟨front, last, rfl⟩
  · simp
  · simp [List.getLast?_append]

theorem getLast?_ne_of_notMem {t : Text} {c : Char} (h : c ∉ t) : t.getLast? ≠ some c :=
  fun last => h (List.mem_of_getLast? last)

theorem return_notMem_endedBy (inline : ∀ l ∈ ls, '\r' ∉ l) : '\r' ∉ endedBy [] ls := by
  induction ls with
  | nil => exact List.not_mem_nil
  | cons l ls ih =>
    have rest := ih fun m mem => inline m (List.mem_cons_of_mem l mem)
    have first := inline l List.mem_cons_self
    simp [endedBy_cons, rest, first]

theorem returnsPaired_endedBy (ending : cr = [] ∨ cr = ['\r']) (inline : ∀ l ∈ ls, '\r' ∉ l) :
    ReturnsPaired (endedBy cr ls) := by
  induction ls with
  | nil => exact returnsPaired_nil
  | cons l ls ih =>
    have rest := ih fun m mem => inline m (List.mem_cons_of_mem l mem)
    have first := inline l List.mem_cons_self
    have broken : ReturnsPaired (cr ++ ['\n']) := by
      rcases ending with rfl | rfl <;> decide
    rw [endedBy_cons, returnsPaired_append (getLast?_ne_of_notMem first),
      returnsPaired_append (by simp)]
    exact ⟨returnsPaired_of_notMem first, broken, rest⟩

theorem head?_endedBy_ne (feeds : ∀ l ∈ ls, '\n' ∉ l) : (endedBy ['\r'] ls).head? ≠ some '\n' := by
  cases ls with
  | nil => simp [endedBy]
  | cons l ls =>
    have first := feeds l List.mem_cons_self
    rw [endedBy_cons]
    cases l with
    | nil => simp
    | cons c l =>
      rintro e
      rw [Option.some.inj e] at first
      exact first List.mem_cons_self

theorem feedsPaired_endedBy (feeds : ∀ l ∈ ls, '\n' ∉ l) : FeedsPaired (endedBy ['\r'] ls) := by
  induction ls with
  | nil => exact fun front rest e => by simp [endedBy] at e
  | cons l ls ih =>
    have later : ∀ m ∈ ls, '\n' ∉ m := fun m mem => feeds m (List.mem_cons_of_mem l mem)
    have first := feeds l List.mem_cons_self
    have broken : FeedsPaired ['\r', '\n'] := by
      rintro (_ | ⟨c, _ | ⟨d, front⟩⟩) rest e
      · simp at e
      · obtain ⟨rfl, -⟩ := List.cons.inj e
        rfl
      · simp at e
    rw [endedBy_cons, feedsPaired_append (by simp)]
    refine ⟨fun front rest e => absurd (by simp [e]) first, ?_⟩
    exact (feedsPaired_append (head?_endedBy_ne later)).mpr ⟨broken, ih later⟩

end Text

namespace Config

variable {t : Text} {format : Format} {s : Switch} {i : Insertion}

/-- The entry of the rule holds no carriage return. -/
def Switch.NoReturn (s : Switch) : Prop := '\r' ∉ s.rule ∧ '\r' ∉ s.indent

instance (s : Switch) : Decidable s.NoReturn :=
  inferInstanceAs (Decidable ('\r' ∉ s.rule ∧ '\r' ∉ s.indent))

theorem Switch.NoReturn.notMem_entry (h : s.NoReturn) (format : Format) :
    '\r' ∉ s.entry format := by
  obtain ⟨rule, indent⟩ := h
  cases format with
  | json =>
    have off : '\r' ∉ "\": \"off\",".toList := by decide
    simp only [Switch.entry, List.mem_append, List.mem_cons, not_or]
    exact ⟨⟨indent, indent⟩, by decide, rule, off⟩
  | yaml =>
    have off : '\r' ∉ ": off".toList := by decide
    simp only [Switch.entry, List.mem_append, not_or]
    exact ⟨⟨indent, rule⟩, off⟩

/-- What the planner inserts is made of whole lines, with the ending of the document. It is inserted
at the start of a line or at the end of the document, and the cursor goes to the start of a line. -/
theorem exists_rows_of_plan (plain : s.NoReturn) (h : plan t format s.rule s.indent = some i) :
    ∃ ls, ls ≠ [] ∧ (∀ l ∈ ls, '\r' ∉ l ∧ '\n' ∉ l) ∧ i.text = Text.endedBy (returnOf t) ls ∧
      (i.position.character = 0 ∨ i.position = endOfDocument (Text.lines t)) ∧
      i.cursor.character = 0 := by
  have entry : '\r' ∉ s.entry format ∧ '\n' ∉ s.entry format :=
    ⟨plain.notMem_entry format, s.newline_notMem_entry format⟩
  have empty : '\r' ∉ ([] : Text) ∧ '\n' ∉ ([] : Text) := ⟨List.not_mem_nil, List.not_mem_nil⟩
  cases header : findRulesHeader (Text.lines t) with
  | none =>
    rw [plan_of_no_header s format header] at h
    cases format with
    | json => exact absurd h (by simp)
    | yaml =>
      rw [← Option.some.inj h]
      have key : '\r' ∉ yamlKey ∧ '\n' ∉ yamlKey := by decide
      refine ⟨[[], yamlKey, s.entry .yaml], by simp, by simp [entry, key], ?_, .inr rfl, rfl⟩
      simp [newSection, yamlEntry, Switch.entry, lineEnding_eq, Text.endedBy]
  | some header =>
    obtain ⟨a, -, planned⟩ := exists_plan_of_header s format header
    rw [planned, Option.some.injEq, insertLineAfter] at h
    split at h
    · subst h
      exact ⟨[s.entry format], by simp, by simp [entry], rfl, .inl rfl, rfl⟩
    · subst h
      refine ⟨[[], s.entry format], by simp, by simp [entry], ?_, .inr rfl, rfl⟩
      simp [Text.endedBy]

/-- No pair of carriage return and line feed is cut by a place at the start of a line or at the end of
the document. -/
theorem getLast?_ne_of_place {front rest : Text} (addressable : (front ++ rest).Addressable)
    (paired : (front ++ rest).ReturnsPaired) {p : Position} (place : p.IsEndOf front)
    (at_line : p.character = 0 ∨ p = endOfDocument (Text.lines (front ++ rest))) :
    front.getLast? ≠ some '\r' := by
  intro last
  obtain ⟨before, rfl⟩ := List.getLast?_eq_some_iff.mp last
  obtain ⟨more, rfl⟩ : ∃ more, rest = '\n' :: more := by
    obtain ⟨more, next⟩ := List.head?_eq_some_iff.mp (paired before rest (by simp))
    exact ⟨more, next⟩
  rcases at_line with start | stop
  · -- The last line of the front holds the carriage return, so its end is no start of a line.
    have column := place.character
    obtain ⟨ls, l, lines⟩ := Text.exists_lines_eq_concat (before ++ ['\r'])
    rw [start, lines, List.getLastD_concat] at column
    have whole := Text.eq_terminated_append_last lines
    cases l using List.reverseRecOn with
    | nil =>
      rw [List.append_nil] at whole
      rw [whole] at last
      exact Text.getLast?_terminated_ne ls last
    | append_singleton l c =>
      rw [Text.width_append] at column
      have := Text.units_pos c
      simp at column
      omega
  · -- The end of the document has as many lines in front of it as there are.
    have lines := place.line
    have all := (isEndOf_endOfDocument addressable).line
    rw [← stop, lines] at all
    rw [Text.length_lines, Text.length_lines] at all
    simp at all

/-- What an edit leaves of the line endings of a document: carriage returns stand in front of line
feeds only, and a document with one kind of ending keeps to it. -/
structure KeepsEndings (t edited : Text) : Prop where
  paired : edited.ReturnsPaired
  feeds : '\n' ∈ t → t.FeedsPaired → '\n' ∈ edited ∧ edited.FeedsPaired
  plain : '\r' ∉ t → '\r' ∉ edited

theorem KeepsEndings.refl (paired : t.ReturnsPaired) : KeepsEndings t t :=
  ⟨paired, fun feed feeds => ⟨feed, feeds⟩, id⟩

theorem KeepsEndings.trans {t' t'' : Text} (first : KeepsEndings t t') (second : KeepsEndings t' t'') :
    KeepsEndings t t'' where
  paired := second.paired
  feeds feed feeds :=
    have ⟨feed', feeds'⟩ := first.feeds feed feeds
    second.feeds feed' feeds'
  plain plain := second.plain (first.plain plain)

theorem returnOf_eq_nil_or (t : Text) : returnOf t = [] ∨ returnOf t = ['\r'] := by
  unfold returnOf
  split
  · exact .inr rfl
  · exact .inl rfl

theorem returnOf_of_feedsPaired (feed : '\n' ∈ t) (feeds : t.FeedsPaired) :
    returnOf t = ['\r'] := by
  obtain ⟨front, rest, rfl⟩ := List.append_of_mem feed
  obtain ⟨before, rfl⟩ := List.getLast?_eq_some_iff.mp (feeds front rest rfl)
  exact if_pos (Text.occursIn_iff.mpr ⟨before, rest, by simp⟩)

/-- An insertion of the planner keeps the line endings of a document. -/
theorem keepsEndings_splice (addressable : t.Addressable) (paired : t.ReturnsPaired)
    (plain : s.NoReturn) (h : plan t format s.rule s.indent = some i) :
    KeepsEndings t (Text.splice t i.position i.text) := by
  obtain ⟨front, rest, rfl, place, splice⟩ := (addsLines_of_plan addressable h).place
  obtain ⟨ls, hne, inline, text, at_line, -⟩ := exists_rows_of_plan plain h
  have uncut := getLast?_ne_of_place addressable paired place at_line
  obtain ⟨front_paired, rest_paired⟩ := (Text.returnsPaired_append uncut).mp paired
  rw [splice, text, List.append_assoc]
  have ended := Text.getLast?_endedBy (returnOf (front ++ rest)) hne
  refine ⟨?_, fun feed feeds => ?_, fun none => ?_⟩
  · rw [Text.returnsPaired_append uncut, Text.returnsPaired_append (by simp [ended])]
    exact ⟨front_paired,
      Text.returnsPaired_endedBy (returnOf_eq_nil_or _) fun l mem => (inline l mem).1, rest_paired⟩
  · have apart : rest.head? ≠ some '\n' := by
      intro next
      obtain ⟨more, rfl⟩ := List.head?_eq_some_iff.mp next
      exact uncut (feeds front more rfl)
    obtain ⟨front_feeds, rest_feeds⟩ := (Text.feedsPaired_append apart).mp feeds
    rw [returnOf_of_feedsPaired feed feeds] at ended ⊢
    have feeds_only : ∀ l ∈ ls, '\n' ∉ l := fun l mem => (inline l mem).2
    refine ⟨by simp [List.mem_of_getLast? ended], ?_⟩
    rw [← List.append_assoc, Text.feedsPaired_append apart,
      Text.feedsPaired_append (Text.head?_endedBy_ne feeds_only)]
    exact ⟨⟨front_feeds, Text.feedsPaired_endedBy feeds_only⟩, rest_feeds⟩
  · rw [returnOf_of_notMem none]
    have new := Text.return_notMem_endedBy fun l mem => (inline l mem).1
    simp only [List.mem_append, not_or] at none ⊢
    exact ⟨none.1, new, none.2⟩

theorem keepsEndings_switchOff (addressable : t.Addressable) (paired : t.ReturnsPaired)
    (plain : s.NoReturn) : KeepsEndings t (switchOff format t s) := by
  unfold switchOff
  split
  · next planned => exact keepsEndings_splice addressable paired plain planned
  · exact .refl paired

theorem keepsEndings_switchOffAll {steps : List Switch} (plain : ∀ s ∈ steps, s.NoReturn)
    (addressable : (switchOffAll format t steps).Addressable) (paired : t.ReturnsPaired) :
    KeepsEndings t (switchOffAll format t steps) := by
  induction steps generalizing t with
  | nil => exact .refl paired
  | cons s steps ih =>
    have before := addressable_of_switchOffAll (s :: steps) addressable
    have first : KeepsEndings t (switchOff format t s) :=
      keepsEndings_switchOff before paired (plain s List.mem_cons_self)
    have later : ∀ s' ∈ steps, s'.NoReturn := fun s' mem => plain s' (List.mem_cons_of_mem s mem)
    exact first.trans (ih later addressable first.paired)

/-- The position stands at the same character of a document whether the lines end at line feeds only
or as an editor ends them. -/
def SamePlace (t : Text) (p : Position) : Prop :=
  p.offset (Text.clientRows t) = p.offset (Text.feedRows t)

/-- A header on a last line whose number wraps around to zero. The planned column falls behind the
carriage return that an editor takes for a part of the ending of the first line. -/
theorem offset_plan_of_wrap (s : Switch) {n : Nat} (wrap : UInt32.ofNat (n + 1) = 0) :
    let t : Text := "aaaaaa\r\n".toList ++ Text.below n "rules: ".toList
    t.ReturnsPaired ∧ ∃ i, plan t .yaml s.rule s.indent = some i ∧
      i.position.offset (Text.clientRows t) = 6 ∧ i.position.offset (Text.feedRows t) = 7 := by
  intro t
  have paired : t.ReturnsPaired := by
    have plain : '\r' ∉ Text.below n "rules: ".toList := by simp [Text.below, Text.terminated]
    rw [Text.returnsPaired_append (by decide)]
    exact ⟨by decide, Text.returnsPaired_of_notMem plain⟩
  have lines : Text.lines t =
      ("aaaaaa\r".toList :: List.replicate n []) ++ ["rules: ".toList] :=
    congrArg ("aaaaaa\r".toList :: ·) (Text.lines_below n "rules: ".toList)
  have length : ("aaaaaa\r".toList :: List.replicate n []).length = n + 1 := by simp
  have header : findRulesHeader (Text.lines t) = some (n + 1) := by
    change findRulesHeader ("aaaaaa\r".toList :: Text.lines (Text.below n "rules: ".toList)) = _
    rw [findRulesHeader_cons (by decide), findRulesHeader_below (by decide)]
    rfl
  have place : endOfDocument (Text.lines t) = ⟨0, 7⟩ := by
    rw [lines, endOfDocument_of_wrap (by rwa [length])]
    rfl
  refine ⟨paired, _, plan_of_last_header s lines (by rw [header, length]), ?_⟩
  rw [place]
  exact ⟨rfl, rfl⟩

/-- An editor that ends lines at `\r\n`, at `\n` and at `\r` takes every insertion of the planner as
the planner means it, in a document whose carriage returns all stand in front of line feeds, and in
what any number of steps make of it.

* The position of the insertion stands at the same character in both ways of ending lines, and there
  the text is inserted. The cursor does so in the edited document.
* Carriage returns still stand in front of line feeds only. Where each line feed stood behind one, or
  there was none, it stays so.

Documents are those in which positions of 32 bits reach every place; `plan_misses_client_place` shows
one in which they do not. -/
theorem plan_denotes_client_place (format : Format) {t : Text} {steps : List Switch}
    (plain : ∀ s ∈ steps, s.NoReturn) (paired : t.ReturnsPaired)
    (addressable : (switchOffAll format t steps).Addressable) :
    KeepsEndings t (switchOffAll format t steps) ∧
      ∀ s : Switch, s.NoReturn → ∀ i,
        plan (switchOffAll format t steps) format s.rule s.indent = some i →
          let now := switchOffAll format t steps
          let k := i.position.offset (Text.clientRows now)
          let edited := now.take k ++ i.text ++ now.drop k
          SamePlace now i.position ∧ edited = Text.splice now i.position i.text ∧
            SamePlace edited i.cursor ∧ KeepsEndings t edited := by
  have kept := keepsEndings_switchOffAll plain addressable paired
  refine ⟨kept, fun s plain i planned => ?_⟩
  intro now k edited
  obtain ⟨ls, -, -, -, at_line, cursor⟩ := exists_rows_of_plan plain planned
  have place : SamePlace now i.position := by
    refine Text.offset_clientRows kept.paired (at_line.imp_right fun stop => ?_)
    rw [stop, (isEndOf_endOfDocument addressable).line]
  have edit : edited = Text.splice now i.position i.text := by
    rw [Text.splice_eq, ← place]
  have later := keepsEndings_splice addressable kept.paired plain planned
  rw [edit]
  exact ⟨place, rfl, Text.offset_clientRows later.paired (.inl cursor), kept.trans later⟩

/-- A rules section behind a last line without an ending, and then a rule beside its sibling, in a
document with `\r\n`. -/
theorem plan_denotes_client_place_of_two_steps :
    let a : Switch := ⟨"n/a".toList, ['\t'], by decide, by decide⟩
    let b : Switch := ⟨"n/b".toList, [' '], by decide, by decide⟩
    let t : Text := "é\r\n🚀".toList
    let now : Text := "é\r\n🚀\r\nrules:\r\n\tn/a: off\r\n".toList
    let i : Insertion := ⟨⟨4, 0⟩, " n/b: off\r\n".toList, ⟨4, 0⟩⟩
    switchOffAll .yaml t [a] = now ∧ plan now .yaml b.rule b.indent = some i ∧
      i.position.offset (Text.clientRows now) = 25 ∧ SamePlace now i.position ∧
      KeepsEndings t (now ++ i.text) := by
  intro a b t now i
  have first : switchOffAll .yaml t [a] = now := by decide
  have plain : ∀ s ∈ [a], s.NoReturn := by
    intro s mem
    rw [List.mem_singleton.mp mem]
    decide
  have short : (switchOffAll .yaml t [a]).Addressable := ⟨by decide, by decide⟩
  have all := plan_denotes_client_place .yaml plain (by decide : t.ReturnsPaired) short
  obtain ⟨place, -, -, kept⟩ := all.2 b (by decide) i (by rw [first]; decide)
  rw [first] at place kept
  exact ⟨first, by decide, by decide, place, kept⟩

/-- Positions of 32 bits are needed: with a header on the line of number `2 ^ 32`, the planner means a
place between the carriage return and the line feed of the first line, and an editor one in front of
both. -/
theorem plan_misses_client_place :
    let s : Switch := ⟨['a'], [' '], by decide, by decide⟩
    let t : Text := "aaaaaa\r\n".toList ++ Text.below (UInt32.size - 1) "rules: ".toList
    s.NoReturn ∧ t.ReturnsPaired ∧ ∃ i, plan t .yaml s.rule s.indent = some i ∧
      i.position.offset (Text.clientRows t) = 6 ∧ i.position.offset (Text.feedRows t) = 7 := by
  intro s t
  exact ⟨by decide, offset_plan_of_wrap s rfl⟩

end Config

end RuleOff
