import RuleOff.Proofs.Config.Entries

/-!
# Rules of one namespace

An entry in YAML goes behind the last line from the header on that mentions the namespace of its rule,
and mentions it itself. So the rules of one namespace that are switched off one after the other come to
stand together, in their order, and the first of them decides where.

The indentations may be any texts here. One with line feeds makes an entry of several lines, which
stand together as well.

## Main definitions

* `Config.Sibling`: a rule of a namespace to be switched off, with an indentation.
* `Config.aboveRules`, `Config.rulesOn`: the lines above the header, and those from the header on.
* `Config.Follows`: where among the latter a new entry goes.

## Main statements

* `Config.bareLines_enter`: one step puts the entry there.
* `Config.bareLines_enterAll`: any number of steps put their entries there, one behind the other.
* `Config.siblings_stand_together`: the same for the rules of one namespace in any document.
* `Config.enterAll_leaves_header`: a document that is too long for positions of 32 bits.
-/

namespace RuleOff.Config

/-- A rule of the namespace to be switched off, and an indentation for it. -/
structure Sibling (ns : Text) where
  rule : Text
  indent : Text
  rule_inline : '\n' ∉ rule
  member : namespaceOf? rule = some ns

namespace Sibling

variable {ns : Text}

/-- What switches the rule off, without the ending of its line. -/
def entry (s : Sibling ns) : Text := s.indent ++ s.rule ++ ": off".toList

/-- The lines of the entry. -/
def rows (s : Sibling ns) : List Text := bareLines s.entry

end Sibling

/-- The document after a rule is switched off in it. -/
def enter {ns : Text} (t : Text) (s : Sibling ns) : Text :=
  match plan t .yaml s.rule s.indent with
  | some i => Text.splice t i.position i.text
  | none => t

/-- The document after some rules are switched off in it, one after the other. -/
def enterAll {ns : Text} (t : Text) (steps : List (Sibling ns)) : Text := steps.foldl enter t

/-- The lines above the header. -/
def aboveRules (t : Text) : List Text :=
  match findRulesHeader (bareLines t) with
  | some header => (bareLines t).take header
  | none => bareLines t

/-- The lines from the header on. Where there is none, that is the key which the first entry brings
along. -/
def rulesOn (t : Text) : List Text :=
  match findRulesHeader (bareLines t) with
  | some header => (bareLines t).drop header
  | none => [yamlKey]

/-- The lines from the header on, cut where an entry goes that follows a text: behind the last line
that mentions the text, or behind the header. -/
structure Follows (needle : Text) (front below : List Text) : Prop where
  anchor : front.length = 1 ∨ ∃ l, front.getLast? = some l ∧ needle <:+: l
  unmentioned : ∀ l ∈ below, ¬ needle <:+: l

/-- The lines with an empty one for the end of a document whose last line is terminated, where no
other line is left. -/
def closed (below : List Text) : List Text := if below = [] then [[]] else below

variable {ns needle t : Text} {s : Sibling ns} {front below : List Text} {header : Nat}

theorem closed_of_ne_nil (h : below ≠ []) : closed below = below := if_neg h

theorem closed_closed (below : List Text) : closed (closed below) = closed below := by
  refine closed_of_ne_nil ?_
  unfold closed
  split
  · exact List.cons_ne_nil _ _
  · assumption

/-! ### Lines -/

theorem bareLines_append_feed (a b : Text) :
    bareLines (a ++ '\n' :: b) = bareLines a ++ bareLines b := by
  rw [bareLines, Text.lines, Text.split_append, List.map_append]
  rfl

theorem bareLines_append_returnOf (a t : Text) : bareLines (a ++ returnOf t) = bareLines a := by
  obtain ⟨ls, l, h⟩ := Text.exists_lines_eq_concat a
  have inline : ∀ m ∈ Text.lines a, '\n' ∉ m := fun m => Text.newline_notMem_of_mem_lines
  simp only [h, List.mem_append, List.mem_singleton] at inline
  have last : '\n' ∉ l ++ returnOf t := by
    rw [List.mem_append, not_or]
    exact ⟨inline l (.inr rfl), newline_notMem_returnOf t⟩
  rw [bareLines, bareLines, h, Text.eq_terminated_append_last h, List.append_assoc,
    Text.lines_terminated_append fun m mem => inline m (.inl mem), Text.lines,
    Text.split_eq_singleton last, List.map_append, List.map_append, List.map_singleton,
    List.map_singleton, bare_append_returnOf]

theorem bareLines_of_inline {l : Text} (inline : '\n' ∉ l) : bareLines l = [Text.bare l] := by
  rw [bareLines, Text.lines, Text.split_eq_singleton inline, List.map_singleton]

theorem bareLines_terminated {ls : List Text} (inline : ∀ l ∈ ls, '\n' ∉ l) (t : Text) :
    bareLines (Text.terminated ls ++ t) = ls.map Text.bare ++ bareLines t := by
  rw [bareLines, Text.lines_terminated_append inline, List.map_append]
  rfl

theorem Sibling.bare_entry (s : Sibling ns) : Text.bare s.entry = s.entry := by
  have last : s.entry = s.indent ++ s.rule ++ ": of".toList ++ ['f'] := by
    simp [Sibling.entry]
  rw [last, Text.bare_eq_self (by decide)]

theorem Sibling.rows_of_inline (s : Sibling ns) (inline : '\n' ∉ s.indent) : s.rows = [s.entry] := by
  have entry : '\n' ∉ s.entry := by
    have off : '\n' ∉ ": off".toList := by decide
    simp only [Sibling.entry, List.mem_append, not_or]
    exact ⟨⟨inline, s.rule_inline⟩, off⟩
  rw [Sibling.rows, bareLines_of_inline entry, s.bare_entry]

/-- The rule stands on the last line of its entry, and mentions its namespace there. -/
theorem Sibling.mention (s : Sibling ns) :
    ∃ l, s.rows.getLast? = some l ∧ ns ++ ['/'] <:+: l := by
  obtain ⟨-, name, rule⟩ := namespaceOf?_eq_some_iff.mp s.member
  have tail : '\n' ∉ s.rule ++ ": off".toList := by
    have off : '\n' ∉ ": off".toList := by decide
    rw [List.mem_append, not_or]
    exact ⟨s.rule_inline, off⟩
  obtain ⟨ls, l, lines⟩ := Text.exists_lines_eq_concat s.indent
  have inline : ∀ m ∈ Text.lines s.indent, '\n' ∉ m := fun m => Text.newline_notMem_of_mem_lines
  simp only [lines, List.mem_append, List.mem_singleton] at inline
  have last : '\n' ∉ l ++ (s.rule ++ ": off".toList) := by
    rw [List.mem_append, not_or]
    exact ⟨inline l (.inr rfl), tail⟩
  refine ⟨Text.bare (l ++ (s.rule ++ ": off".toList)), ?_, infix_bare ?_⟩
  · rw [Sibling.rows, Sibling.entry, Text.eq_terminated_append_last lines, List.append_assoc,
      List.append_assoc, bareLines_terminated fun m mem => inline m (.inl mem),
      bareLines_of_inline last, List.getLast?_concat]
  · exact ⟨l, name ++ ": off".toList, by rw [rule]; simp⟩

/-! ### The header -/

theorem findRulesHeader_aboveRules (t : Text) : findRulesHeader (aboveRules t) = none := by
  unfold aboveRules
  split
  · next header h =>
    obtain ⟨_, _, before⟩ := List.findIdx?_eq_some_iff_getElem.mp h
    refine List.findIdx?_eq_none_iff.mpr fun l mem => ?_
    obtain ⟨i, hi, rfl⟩ := List.mem_take_iff_getElem.mp mem
    simpa using before i (by omega)
  · assumption

theorem exists_rulesOn_eq_cons (t : Text) :
    ∃ key rest, rulesOn t = key :: rest ∧ isRulesHeader key = true := by
  unfold rulesOn
  split
  · next header h =>
    obtain ⟨lt, key, -⟩ := List.findIdx?_eq_some_iff_getElem.mp h
    exact ⟨_, _, List.drop_eq_getElem_cons lt, key⟩
  · exact ⟨yamlKey, [], rfl, isRulesHeader_yamlKey⟩

theorem cut_of_find {above rest : List Text} (h : bareLines t = above ++ rest)
    (find : findRulesHeader (bareLines t) = some above.length) :
    aboveRules t = above ∧ rulesOn t = rest := by
  simp only [aboveRules, rulesOn, find]
  simp [h]

/-- The first header is where the lines from the header on begin. -/
theorem cut_of_bareLines {above rest : List Text} {key : Text}
    (h : bareLines t = above ++ key :: rest) (none : findRulesHeader above = none)
    (header : isRulesHeader key = true) : aboveRules t = above ∧ rulesOn t = key :: rest := by
  refine cut_of_find h ?_
  rw [h]
  exact findRulesHeader_append_header none header

/-! ### Where an entry goes -/

namespace Follows

theorem front_ne_nil (h : Follows needle front below) : front ≠ [] := by
  rintro rfl
  rcases h.anchor with one | ⟨l, last, -⟩
  · exact absurd one (by decide)
  · exact absurd last (by simp)

theorem exists_cut (needle header : Text) (rest : List Text) :
    ∃ front below, header :: rest = front ++ below ∧ Follows needle front below := by
  -- From the last line up, until one mentions the text or the header is reached.
  induction rest using List.reverseRecOn with
  | nil => exact ⟨[header], [], rfl, .inl rfl, by simp⟩
  | append_singleton rest l ih =>
    by_cases mention : needle <:+: l
    · refine ⟨header :: (rest ++ [l]), [], by simp, .inr ⟨l, ?_, mention⟩, by simp⟩
      rw [← List.cons_append, List.getLast?_concat]
    · obtain ⟨front, below, cut, h⟩ := ih
      refine ⟨front, below ++ [l], by rw [← List.append_assoc, ← cut]; rfl, h.anchor, ?_⟩
      intro m mem
      rcases List.mem_append.mp mem with mem | mem
      · exact h.unmentioned m mem
      · rwa [List.mem_singleton.mp mem]

/-- Of two places for an entry, neither is behind the other. -/
theorem eq_of_append {more : List Text} (h : Follows needle front (more ++ below))
    (h' : Follows needle (front ++ more) below) : more = [] := by
  by_contra hne
  obtain ⟨before, l, rfl⟩ := (List.eq_nil_or_concat' more).resolve_left hne
  have length := List.length_pos_iff.mpr h.front_ne_nil
  rcases h'.anchor with one | ⟨m, last, mention⟩
  · simp only [List.length_append, List.length_singleton] at one
    omega
  · rw [← List.append_assoc, List.getLast?_concat, Option.some.injEq] at last
    exact h.unmentioned m (by simp [last]) mention

theorem unique {front' below' : List Text} (h : Follows needle front below)
    (h' : Follows needle front' below') (same : front ++ below = front' ++ below') :
    front = front' ∧ below = below' := by
  obtain ⟨more, rfl, rfl⟩ | ⟨more, rfl, rfl⟩ := List.append_eq_append_iff.mp same
  · obtain rfl := h.eq_of_append h'
    simp
  · obtain rfl := h'.eq_of_append h
    simp

/-- Lines that end in a mention go behind the place, and the next entry behind them. -/
theorem append {rows : List Text} (h : Follows (ns ++ ['/']) front below)
    (mention : ∃ l, rows.getLast? = some l ∧ ns ++ ['/'] <:+: l) :
    Follows (ns ++ ['/']) (front ++ rows) (closed below) := by
  obtain ⟨l, last, mention⟩ := mention
  refine ⟨.inr ⟨l, by rw [List.getLast?_append, last]; rfl, mention⟩, ?_⟩
  unfold closed
  split
  · intro m mem
    rw [List.mem_singleton.mp mem]
    simp
  · exact h.unmentioned

/-- The line that the planner takes for the anchor is the last in front of the place. -/
theorem of_isAnchor {upper lower : List Text} {l rule : Text}
    (anchor : IsAnchor (upper ++ l :: lower) header .yaml rule upper.length)
    (member : namespaceOf? rule = some ns) :
    Follows (ns ++ ['/']) ((upper.map Text.bare).drop header ++ [Text.bare l])
      (lower.map Text.bare) := by
  have later : IsUnmentioned (ns ++ ['/']) (upper ++ l :: lower) (upper.length + 1) →
      ∀ m ∈ lower.map Text.bare, ¬ ns ++ ['/'] <:+: m := by
    intro none m mem mention
    obtain ⟨line, inLower, rfl⟩ := List.mem_map.mp mem
    obtain ⟨i, hi⟩ := List.getElem?_of_mem inLower
    have place : (upper ++ l :: lower)[upper.length + 1 + i]? = some line := by
      rw [List.getElem?_append_right (by omega), ← hi]
      simp [Nat.add_assoc, Nat.add_comm 1 i]
    exact none _ line (by omega) place (mention.trans (List.rdropWhile_prefix _ line).isInfix)
  have le := anchor.le
  cases anchor with
  | plain slash =>
    rw [namespaceOf?_eq_none_iff.mpr slash] at member
    exact absurd member (by simp)
  | @unmentioned ns' name slash none =>
    rw [namespaceOf?_eq_some_iff.mpr ⟨slash, name, rfl⟩] at member
    obtain rfl := Option.some.inj member
    exact ⟨.inl (by simp), later fun b l hb => none b l (by omega)⟩
  | @mentioned ns' name _ slash last =>
    rw [namespaceOf?_eq_some_iff.mpr ⟨slash, name, rfl⟩] at member
    obtain rfl := Option.some.inj member
    obtain ⟨m, place, mention⟩ := last.mention
    obtain rfl : l = m := by simpa using place
    exact ⟨.inr ⟨Text.bare l, by simp, infix_bare mention⟩, later last.last⟩

end Follows

/-! ### One step -/

theorem enter_eq {i : Insertion} (h : plan t .yaml s.rule s.indent = some i) :
    enter t s = Text.splice t i.position i.text := by
  rw [enter, h]

/-- Behind the last line, the entry gets the ending of the document in front and behind. -/
theorem bareLines_append_entry (a t : Text) (s : Sibling ns) :
    bareLines (a ++ (lineEnding t ++ yamlEntry s.rule s.indent (lineEnding t))) =
      bareLines a ++ (s.rows ++ [[]]) := by
  have text : a ++ (lineEnding t ++ yamlEntry s.rule s.indent (lineEnding t)) =
      a ++ returnOf t ++ '\n' :: (s.entry ++ returnOf t ++ '\n' :: []) := by
    simp [lineEnding_eq, yamlEntry, Sibling.entry]
  rw [text, bareLines_append_feed, bareLines_append_feed, bareLines_append_returnOf,
    bareLines_append_returnOf]
  rfl

theorem splice_endOfDocument (addressable : t.Addressable) (new : Text) :
    Text.splice t (endOfDocument (Text.lines t)) new = t ++ new := by
  have splice := Text.splice_append (isEndOf_endOfDocument addressable) [] new
  rwa [List.append_nil, List.append_nil] at splice

/-- In front of a line, the entry gets the ending of the document behind. -/
theorem bareLines_splice_entry {upper lower : List Text} (cut : Text.lines t = upper ++ lower)
    (inside : lower ≠ []) (short : upper.length < UInt32.size) (s : Sibling ns) :
    bareLines (Text.splice t (.ofCounts upper.length 0)
        (yamlEntry s.rule s.indent (lineEnding t))) =
      upper.map Text.bare ++ (s.rows ++ lower.map Text.bare) := by
  have inline : ∀ m ∈ upper ++ lower, '\n' ∉ m := fun m mem =>
    Text.newline_notMem_of_mem_lines (cut ▸ mem)
  have above : ∀ m ∈ upper, '\n' ∉ m := fun m mem => inline m (List.mem_append_left _ mem)
  have rest : bareLines (Text.join '\n' lower) = lower.map Text.bare := by
    rw [bareLines, Text.lines, Text.split_join inside fun m mem =>
      inline m (List.mem_append_right _ mem)]
  have splice := Text.splice_append (isEndOf_terminated above short) (Text.join '\n' lower)
    (yamlEntry s.rule s.indent (lineEnding t))
  rw [← Text.eq_terminated_append cut inside] at splice
  have text : Text.terminated upper ++ yamlEntry s.rule s.indent (lineEnding t) ++
      Text.join '\n' lower = Text.terminated upper ++
        (s.entry ++ returnOf t ++ '\n' :: Text.join '\n' lower) := by
    simp [lineEnding_eq, yamlEntry, Sibling.entry]
  rw [splice, text, bareLines_terminated above, bareLines_append_feed, bareLines_append_returnOf,
    rest]
  rfl

theorem bareLines_enter_of_no_header (addressable : t.Addressable)
    (none : findRulesHeader (Text.lines t) = none) (s : Sibling ns) :
    bareLines (enter t s) = bareLines t ++ yamlKey :: (s.rows ++ [[]]) := by
  have planned : plan t .yaml s.rule s.indent =
      some (newSection (Text.lines t) s.rule s.indent (lineEnding t)) := by
    simp [plan, none]
  have text : t ++ (newSection (Text.lines t) s.rule s.indent (lineEnding t)).text =
      t ++ returnOf t ++ '\n' ::
        (yamlKey ++ (lineEnding t ++ yamlEntry s.rule s.indent (lineEnding t))) := by
    simp [newSection, lineEnding_eq]
  rw [enter_eq planned]
  refine (congrArg bareLines ((splice_endOfDocument addressable _).trans text)).trans ?_
  rw [bareLines_append_feed, bareLines_append_returnOf, bareLines_append_entry,
    bareLines_of_inline newline_notMem_yamlKey, bare_yamlKey]
  rfl

theorem bareLines_enter_of_header (addressable : t.Addressable)
    (found : findRulesHeader (Text.lines t) = some header) (s : Sibling ns) :
    ∃ upper l lower, Text.lines t = upper ++ l :: lower ∧
      IsAnchor (Text.lines t) header .yaml s.rule upper.length ∧
      bareLines (enter t s) =
        upper.map Text.bare ++ Text.bare l :: (s.rows ++ closed (lower.map Text.bare)) := by
  set a := yamlAnchor (Text.lines t) header s.rule with ha
  have anchor : IsAnchor (Text.lines t) header .yaml s.rule a := isAnchor_yamlAnchor _ _ _
  have lt := anchor.lt_length found
  obtain ⟨upper, l, lower, lines, length⟩ : ∃ upper l lower,
      Text.lines t = upper ++ l :: lower ∧ upper.length = a :=
    ⟨_, _, _, (List.take_append_drop a _).symm.trans (by rw [List.drop_eq_getElem_cons lt]),
      by rw [List.length_take]; omega⟩
  refine ⟨upper, l, lower, lines, by rwa [length], ?_⟩
  have planned : plan t .yaml s.rule s.indent =
      some (insertLineAfter (Text.lines t) a (yamlEntry s.rule s.indent (lineEnding t))
        (lineEnding t)) := by
    simp [plan, found, ha]
  rw [enter_eq planned, insertLineAfter]
  have count := congrArg List.length lines
  rw [List.length_append, List.length_cons, length] at count
  have bound := addressable.lines
  split
  · next inside =>
    have hne : lower ≠ [] := by
      rintro rfl
      rw [List.length_nil] at count
      omega
    have cut : Text.lines t = (upper ++ [l]) ++ lower := by rw [lines]; simp
    have next : (upper ++ [l]).length = a + 1 := by simp [length]
    have entered := bareLines_splice_entry cut hne (by omega) s
    rw [next] at entered
    refine entered.trans ?_
    rw [closed_of_ne_nil (by simpa using hne)]
    simp
  · next stop =>
    obtain rfl : lower = [] := List.length_eq_zero_iff.mp (by omega)
    refine (congrArg bareLines (splice_endOfDocument addressable _)).trans ?_
    rw [bareLines_append_entry, bareLines, lines]
    simp [closed]

/-- One step puts the entry where it goes, and changes no other line. -/
theorem bareLines_enter (addressable : t.Addressable) (s : Sibling ns)
    (cut : rulesOn t = front ++ below) (place : Follows (ns ++ ['/']) front below) :
    bareLines (enter t s) = aboveRules t ++ (front ++ (s.rows ++ closed below)) := by
  have bare := findRulesHeader_map_bare (Text.lines t)
  cases find : findRulesHeader (Text.lines t) with
  | none =>
    have find' : findRulesHeader (bareLines t) = none := bare.trans find
    simp only [rulesOn, find'] at cut
    have hnone := bareLines_enter_of_no_header addressable find s
    have single : Follows (ns ++ ['/']) [yamlKey] [] := ⟨.inl rfl, by simp⟩
    obtain ⟨rfl, rfl⟩ := single.unique place (by simpa using cut)
    simpa [aboveRules, find', closed] using hnone
  | some header =>
    have find' : findRulesHeader (bareLines t) = some header := bare.trans find
    simp only [rulesOn, find'] at cut
    obtain ⟨upper, l, lower, lines, anchor, entered⟩ := bareLines_enter_of_header addressable find s
    have le := anchor.le
    rw [lines] at anchor
    have upper_le : header ≤ (upper.map Text.bare).length := by rwa [List.length_map]
    have all : bareLines t = upper.map Text.bare ++ Text.bare l :: lower.map Text.bare := by
      rw [bareLines, lines, List.map_append, List.map_cons]
    rw [all, List.drop_append_of_le_length upper_le] at cut
    obtain ⟨rfl, rfl⟩ := (Follows.of_isAnchor anchor s.member).unique place (by simpa using cut)
    simp only [aboveRules, find']
    rw [entered, all, List.take_append_of_le_length upper_le]
    rw [List.append_assoc, ← List.append_assoc (List.take _ _), List.take_append_drop]
    rfl

/-! ### Documents that are too long -/

section Wrap

variable {n : Nat}

theorem cut_below_yamlKey (n : Nat) :
    aboveRules (Text.below n yamlKey) = List.replicate n [] ∧
      rulesOn (Text.below n yamlKey) = [yamlKey] := by
  have lines : bareLines (Text.below n yamlKey) = List.replicate n [] ++ [yamlKey] := by
    rw [bareLines, Text.lines_below, List.map_append, List.map_replicate]
    rfl
  refine cut_of_find lines ?_
  rw [bareLines, findRulesHeader_map_bare, List.length_replicate]
  exact findRulesHeader_below (by decide) n

theorem bareLines_enter_of_wrap (s : Sibling ns) (inline : '\n' ∉ s.indent) (pos : 0 < n)
    (wrap : UInt32.ofNat n = 0) :
    bareLines (enter (Text.below n yamlKey) s) =
      [] :: s.entry :: bareLines (Text.below n yamlKey) := by
  let switch : Switch := ⟨s.rule, s.indent, s.rule_inline, inline⟩
  have entered : enter (Text.below n yamlKey) s =
      Text.terminated [[], s.entry] ++ Text.below n yamlKey := switchOff_of_wrap switch pos wrap
  have entry : '\n' ∉ s.entry := switch.newline_notMem_entry .yaml
  have new : ∀ l ∈ [[], s.entry], '\n' ∉ l := by simp [entry]
  rw [entered, bareLines_terminated new, List.map_cons, List.map_cons, s.bare_entry]
  rfl

/-- The entry does not stand where entries of its namespace go. -/
theorem enter_leaves_header_of_wrap (s : Sibling ns) (inline : '\n' ∉ s.indent) (large : 1 < n)
    (wrap : UInt32.ofNat n = 0) :
    let t := Text.below n yamlKey
    ¬ ∃ front below, rulesOn t = front ++ below ∧ Follows (ns ++ ['/']) front below ∧
      bareLines (enter t s) = aboveRules t ++ (front ++ ([s.entry] ++ closed below)) := by
  rintro t ⟨front, below, cut, place, grouped⟩
  obtain ⟨above, rules⟩ := cut_below_yamlKey n
  have single : Follows (ns ++ ['/']) [yamlKey] [] := ⟨.inl rfl, by simp⟩
  obtain ⟨rfl, rfl⟩ := place.unique single (cut.symm.trans rules)
  -- The entry is the second line, which was to stay an empty one.
  have second := congrArg (·[1]?) grouped
  rw [bareLines_enter_of_wrap s inline (by omega) wrap, above,
    List.getElem?_append_left (by simpa), List.getElem?_replicate, if_pos large] at second
  have empty : s.entry = [] := by simpa using second
  simp [Sibling.entry] at empty

end Wrap

/-! ### Any number of steps -/

/-- After a step, the lines from the header on are those before with the entry at its place. -/
theorem cut_enter (addressable : t.Addressable) (s : Sibling ns) (cut : rulesOn t = front ++ below)
    (place : Follows (ns ++ ['/']) front below) :
    aboveRules (enter t s) = aboveRules t ∧
      rulesOn (enter t s) = (front ++ s.rows) ++ closed below := by
  obtain ⟨key, rest, first, header⟩ := exists_rulesOn_eq_cons t
  obtain ⟨key', rest', rfl⟩ := List.exists_cons_of_ne_nil place.front_ne_nil
  obtain rfl : key' = key := (List.cons.inj (cut.symm.trans first)).1
  have lines := bareLines_enter addressable s cut place
  obtain ⟨above, rules⟩ := cut_of_bareLines lines (findRulesHeader_aboveRules t) header
  exact ⟨above, by rw [rules]; simp⟩

theorem addressable_of_enter {s : Sibling ns} (h : (enter t s).Addressable) : t.Addressable := by
  unfold enter at h
  split at h
  · exact h.of_splice
  · exact h

theorem addressable_of_enterAll (steps : List (Sibling ns)) (h : (enterAll t steps).Addressable) :
    t.Addressable := by
  induction steps generalizing t with
  | nil => exact h
  | cons s steps ih => exact addressable_of_enter (ih h)

theorem enterAll_singleton (t : Text) (s : Sibling ns) : enterAll t [s] = enter t s := rfl

/-- Any number of steps put their entries where the first one goes, in the order of the steps. -/
theorem bareLines_enterAll {steps : List (Sibling ns)} (hne : steps ≠ [])
    (addressable : (enterAll t steps).Addressable) (cut : rulesOn t = front ++ below)
    (place : Follows (ns ++ ['/']) front below) :
    bareLines (enterAll t steps) =
      aboveRules t ++ (front ++ (steps.flatMap (·.rows) ++ closed below)) := by
  -- An entry mentions the namespace, so the place for the next one is right behind it.
  induction steps generalizing t front below with
  | nil => exact absurd rfl hne
  | cons s steps ih =>
    have before := addressable_of_enterAll (s :: steps) addressable
    obtain rfl | more := eq_or_ne steps []
    · simpa [enterAll] using bareLines_enter before s cut place
    · obtain ⟨above, rules⟩ := cut_enter before s cut place
      have next := ih more (t := enter t s) addressable rules (place.append s.mention)
      rw [above, closed_closed] at next
      simpa [enterAll] using next

/-- The rules of one namespace that are switched off one after the other in a document, with any
indentations, stand together.

* Their entries are consecutive lines, in the order of the steps.
* In front of the first of them is the last line from the header on that mentioned the namespace
  before, or the header. Where there was no header, that is the key of the new section.
* No line behind the last of them mentions the namespace.
* The lines above the header have no say in this, whatever they mention.

Carriage returns at the ends of lines do not count, and documents are those in which positions of 32
bits reach every place; `enterAll_leaves_header` shows one in which they do not. -/
theorem siblings_stand_together (t : Text) {steps : List (Sibling ns)} (hne : steps ≠ []) :
    ∃ front below, rulesOn t = front ++ below ∧ Follows (ns ++ ['/']) front below ∧
      (∀ l ∈ closed below, ¬ ns ++ ['/'] <:+: l) ∧
      ((∀ s ∈ steps, '\n' ∉ s.indent) → steps.flatMap (·.rows) = steps.map (·.entry)) ∧
      ∀ t' : Text, rulesOn t' = rulesOn t → (enterAll t' steps).Addressable →
        bareLines (enterAll t' steps) =
          aboveRules t' ++ (front ++ (steps.flatMap (·.rows) ++ closed below)) := by
  obtain ⟨key, rest, first, -⟩ := exists_rulesOn_eq_cons t
  obtain ⟨front, below, cut, place⟩ := Follows.exists_cut (ns ++ ['/']) key rest
  rw [← first] at cut
  obtain ⟨s, -⟩ := List.exists_mem_of_ne_nil steps hne
  refine ⟨front, below, cut, place, (place.append s.mention).unmentioned, fun inline => ?_, ?_⟩
  · rw [List.map_eq_flatMap]
    exact List.flatMap_congr fun s mem => s.rows_of_inline (inline s mem)
  · intro t' same addressable
    exact bareLines_enterAll hne addressable (same.trans cut) place

/-- Two rules behind a mention on the last line, which has no ending. A mention above the header does
not count. -/
theorem siblings_stand_together_behind_last_line :
    let a : Sibling ['n'] := ⟨"n/a".toList, [' '], by decide, by decide⟩
    let b : Sibling ['n'] := ⟨"n/b".toList, ['\t'], by decide, by decide⟩
    let t := "n/x\r\nrules:\r\n c: off\r\np: n/y".toList
    enterAll t [a, b] = t ++ "\r\n n/a: off\r\n\tn/b: off\r\n".toList ∧
      ∃ front below, rulesOn t = front ++ below ∧ Follows "n/".toList front below ∧
        bareLines (enterAll t [a, b]) =
          ["n/x".toList] ++ (front ++ ([a.entry, b.entry] ++ closed below)) := by
  intro a b t
  have short : (enterAll t [a, b]).Addressable := ⟨by decide, by decide⟩
  obtain ⟨front, below, cut, place, -, -, all⟩ :=
    siblings_stand_together t (List.cons_ne_nil a [b])
  exact ⟨by decide, front, below, cut, place, all t rfl short⟩

/-- An indentation with a line feed makes an entry of two lines. -/
example :
    let s : Sibling ['n'] := ⟨"n/a".toList, ['\n'], by decide, by decide⟩
    bareLines (enterAll yamlKey [s]) = [yamlKey, [], "n/a: off".toList, []] := by decide

/-- Positions of 32 bits are needed: below `2 ^ 32` empty lines, the entry comes above all of them and
not behind the header. -/
theorem enterAll_leaves_header :
    let a : Sibling ['n'] := ⟨"n/a".toList, [' '], by decide, by decide⟩
    let t := Text.below UInt32.size yamlKey
    rulesOn t = [yamlKey] ∧ bareLines (enterAll t [a]) = [] :: a.entry :: bareLines t ∧
      ¬ ∃ front below, rulesOn t = front ++ below ∧ Follows "n/".toList front below ∧
        bareLines (enterAll t [a]) = aboveRules t ++ (front ++ ([a.entry] ++ closed below)) := by
  intro a t
  have inline : '\n' ∉ a.indent := by decide
  rw [enterAll_singleton]
  have lines := bareLines_enter_of_wrap (n := UInt32.size) a inline (by decide) rfl
  have apart := enter_leaves_header_of_wrap (n := UInt32.size) a inline (by decide) rfl
  exact ⟨(cut_below_yamlKey UInt32.size).2, lines, apart⟩

end RuleOff.Config
