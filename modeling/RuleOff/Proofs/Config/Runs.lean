import RuleOff.Proofs.Config.WholeLines

/-!
# Switching rules off one after the other

Every rule is switched off in the document that the one before has left. Lines are compared
without the carriage returns at their ends, which an unterminated last line may get.

## Main definitions

* `Config.switchOffAll`: a document after some rules are switched off in it.
* `Config.Gains`: lines that are kept, with new ones among and behind them.
* `Config.Stacked`: lines with new ones put in at one place.

## Main statements

* `Config.gains_switchOffAll`: the header stays where it is and no line is lost.
* `Config.stacked_switchOffAll`: in JSON the entries stand below the header, the latest first.
* `Config.switchOffAll_keeps_lines`: what any number of steps leaves of a document.
* `Config.switchOff_of_wrap`: where the number of the last line wraps around to zero, the entry comes
  above all lines.
* `Config.switchOff_moves_header`: a document of that kind, whose header does not stay in its place.
-/

namespace RuleOff.Config

/-- The document after a rule is switched off in it. Where nothing is to be inserted, it stays as
it is. -/
def switchOff (format : Format) (t : Text) (s : Switch) : Text :=
  match plan t format s.rule s.indent with
  | some i => Text.splice t i.position i.text
  | none => t

/-- The document after some rules are switched off in it, one after the other. -/
def switchOffAll (format : Format) (t : Text) (steps : List Switch) : Text :=
  steps.foldl (switchOff format) t

/-- The lines of a document without the carriage returns at their ends. -/
def bareLines (t : Text) : List Text := (Text.lines t).map Text.bare

variable {format : Format} {t : Text} {s : Switch} {header : Nat}

@[simp] theorem switchOffAll_nil : switchOffAll format t [] = t := rfl

@[simp] theorem switchOffAll_cons (steps : List Switch) :
    switchOffAll format t (s :: steps) = switchOffAll format (switchOff format t s) steps := rfl

theorem addressable_of_switchOff (h : (switchOff format t s).Addressable) : t.Addressable := by
  unfold switchOff at h
  split at h
  · exact h.of_splice
  · exact h

/-- Documents only grow, so the one that is left bounds all those before. -/
theorem addressable_of_switchOffAll (steps : List Switch)
    (h : (switchOffAll format t steps).Addressable) : t.Addressable := by
  induction steps generalizing t with
  | nil => exact h
  | cons s steps ih => exact addressable_of_switchOff (ih h)

/-! ### Lines without their endings -/

theorem bare_append_returnOf (l t : Text) : Text.bare (l ++ returnOf t) = Text.bare l := by
  unfold returnOf
  split
  · exact Text.bare_append_return l
  · rw [List.append_nil]

theorem bare_entry (s : Switch) (format : Format) : Text.bare (s.entry format) = s.entry format := by
  cases format with
  | json =>
    have h : s.entry .json = s.indent ++ s.indent ++ '"' :: (s.rule ++ "\": \"off\"".toList) ++
        [','] := by simp [Switch.entry]
    rw [h, Text.bare_eq_self (by decide)]
  | yaml =>
    have h : s.entry .yaml = s.indent ++ s.rule ++ ": of".toList ++ ['f'] := by
      simp [Switch.entry]
    rw [h, Text.bare_eq_self (by decide)]

theorem bare_yamlKey : Text.bare yamlKey = yamlKey := by decide

/-- How the bare lines of a document change when a rule is switched off in it. -/
inductive BareChange (format : Format) (s : Switch) (B : List Text) : List Text → Prop where
  /-- A line below the header gets the entry behind it. -/
  | inside {above below : List Text} {header a : Nat} (hlines : B = above ++ below)
      (hbelow : below ≠ []) (hheader : findRulesHeader B = some header) (hle : header ≤ a)
      (hjson : format = .json → a = header) (hlength : above.length = a + 1) :
      BareChange format s B (above ++ s.entry format :: below)
  /-- The last line, which is not empty, gets the entry and an empty line behind it. -/
  | atEnd {front : List Text} {last : Text} {header a : Nat} (hlines : B = front ++ [last])
      (hlast : last ≠ []) (hheader : findRulesHeader B = some header) (hle : header ≤ a)
      (hjson : format = .json → a = header) (hlength : front.length = a) :
      BareChange format s B (front ++ [last, s.entry format, []])
  /-- There is no header in YAML, and a section comes behind all lines. -/
  | newSection (hformat : format = .yaml) (hheader : findRulesHeader B = none) :
      BareChange format s B (B ++ [yamlKey, s.entry format, []])

theorem LineChange.bareChange {R : List Text} {n : Nat} (h : LineChange format s t R n) :
    BareChange format s (bareLines t) (R.map Text.bare) := by
  have hfind : findRulesHeader (bareLines t) = findRulesHeader (Text.lines t) :=
    findRulesHeader_map_bare _
  cases h with
  | @inside above below header a hlines hbelow hheader hanchor hlength =>
    have hmap : (above ++ (s.entry format ++ returnOf t) :: below).map Text.bare =
        above.map Text.bare ++ s.entry format :: below.map Text.bare := by
      simp only [List.map_append, List.map_cons, bare_append_returnOf, bare_entry]
    rw [hmap]
    refine .inside (by rw [bareLines, hlines, List.map_append]) (by simpa using hbelow)
      (hfind.trans hheader) hanchor.le ?_ (by rwa [List.length_map])
    rintro rfl
    exact hanchor.eq_header_of_json
  | @atEnd front last header a hlines hheader hanchor hlength =>
    have hmap : (front ++ [last ++ returnOf t, s.entry format ++ returnOf t, []]).map Text.bare =
        front.map Text.bare ++ [Text.bare last, s.entry format, []] := by
      simp only [List.map_append, List.map_cons, List.map_nil, bare_append_returnOf, bare_entry,
        Text.bare_nil]
    have hlast : Text.bare last ≠ [] :=
      hanchor.bare_ne_nil hheader (by rw [hlines, ← hlength]; simp)
    rw [hmap]
    refine .atEnd (by rw [bareLines, hlines, List.map_append]; rfl) hlast (hfind.trans hheader)
      hanchor.le ?_ (by rwa [List.length_map])
    rintro rfl
    exact hanchor.eq_header_of_json
  | @newSection front last hlines hformat hheader =>
    have hmap : (front ++ [last ++ returnOf t, yamlKey ++ returnOf t,
        s.entry format ++ returnOf t, []]).map Text.bare =
        bareLines t ++ [yamlKey, s.entry format, []] := by
      simp only [bareLines, hlines, List.map_append, List.map_cons, List.map_nil,
        bare_append_returnOf, bare_entry, bare_yamlKey, Text.bare_nil, List.append_assoc,
        List.cons_append, List.nil_append]
    rw [hmap]
    exact .newSection hformat (hfind.trans hheader)

theorem bareChange_switchOff (ht : t.Addressable) {i : Insertion}
    (h : plan t format s.rule s.indent = some i) :
    BareChange format s (bareLines t) (bareLines (switchOff format t s)) := by
  have hchange := (addsLines_of_plan ht h).change.bareChange
  rwa [bareLines, switchOff, h]

/-! ### Lines kept and lines gained -/

/-- The lines `M` are all lines of `L` in their order, with the lines `added` in any order among and
behind them, and then at most one empty line. -/
def Gains (L added M : List Text) : Prop :=
  ∃ body blank, M = body ++ blank ∧ (blank = [] ∨ blank = [[]]) ∧
    L.Sublist body ∧ body.Perm (L ++ added)

theorem Gains.refl (L : List Text) : Gains L [] L :=
  ⟨L, [], by simp, Or.inl rfl, List.Sublist.refl L, by simp⟩

variable {L added : List Text} {e last : Text}

theorem perm_insert {above below : List Text} (h : (above ++ below).Perm (L ++ added)) :
    (above ++ e :: below).Perm (L ++ (added ++ [e])) := by
  have hfront : (above ++ e :: below).Perm (e :: (L ++ added)) :=
    List.perm_middle.trans (h.cons e)
  have hback : (L ++ added ++ [e]).Perm (e :: (L ++ added)) := List.perm_append_singleton e _
  rw [← List.append_assoc]
  exact hfront.trans hback.symm

theorem Gains.inside {above below : List Text} (h : Gains L added (above ++ below))
    (hbelow : below ≠ []) : Gains L (added ++ [e]) (above ++ e :: below) := by
  obtain ⟨body, blank, hM, hblank | hblank, hsub, hperm⟩ := h
  · subst hblank
    rw [List.append_nil] at hM
    subst hM
    refine ⟨above ++ e :: below, [], by simp, Or.inl rfl, hsub.trans ?_, perm_insert hperm⟩
    exact (List.sublist_cons_self e below).append_left above
  · -- The empty line at the end stays there, since there is a line below the new one.
    subst hblank
    obtain ⟨rest, hrest⟩ : ∃ rest, below = rest ++ [[]] := by
      refine ⟨below.dropLast, ?_⟩
      have hlast := congrArg List.getLast? hM
      rw [List.getLast?_append_of_ne_nil _ hbelow, List.getLast?_concat] at hlast
      exact (List.dropLast_append_getLast? _ hlast).symm
    rw [hrest, ← List.append_assoc, List.append_left_inj] at hM
    subst hM
    refine ⟨above ++ e :: rest, [[]], by simp [hrest], Or.inr rfl, hsub.trans ?_,
      perm_insert hperm⟩
    exact (List.sublist_cons_self e rest).append_left above

theorem Gains.atEnd {front : List Text} (h : Gains L added (front ++ [last]))
    (hlast : last ≠ []) : Gains L (added ++ [e]) (front ++ [last, e, []]) := by
  obtain ⟨body, blank, hM, hblank | hblank, hsub, hperm⟩ := h
  · subst hblank
    rw [List.append_nil] at hM
    subst hM
    refine ⟨front ++ [last] ++ [e], [[]], by simp, Or.inr rfl,
      hsub.trans (List.sublist_append_left _ _), ?_⟩
    exact perm_insert (by simpa using hperm)
  · subst hblank
    exact absurd (List.append_inj' hM rfl).2 (by simpa using hlast)

theorem Gains.section (L : List Text) (key e : Text) : Gains L [key, e] (L ++ [key, e, []]) :=
  ⟨L ++ [key, e], [[]], by simp, Or.inr rfl, List.sublist_append_left _ _, List.Perm.refl _⟩

/-- The lines `M` are those above a place, some new ones, those below the place, and then at most
one empty line. -/
def Stacked (above new below M : List Text) : Prop :=
  ∃ blank, (blank = [] ∨ blank = [[]]) ∧ M = above ++ (new ++ (below ++ blank))

/-! ### One step -/

namespace BareChange

variable {B M : List Text}

theorem take_eq (h : BareChange format s B M) (hheader : findRulesHeader B = some header) :
    M.take (header + 1) = B.take (header + 1) := by
  cases h with
  | inside hlines _ hheader' hle _ hlength =>
    obtain rfl := Option.some.inj (hheader'.symm.trans hheader)
    rw [hlines, List.take_append_of_le_length (by omega), List.take_append_of_le_length (by omega)]
  | @atEnd front last _ _ hlines =>
    have hlt := findRulesHeader_lt_length hheader
    have hsplit : front ++ [last, s.entry format, []] = B ++ [s.entry format, []] := by
      rw [hlines, List.append_assoc]
      rfl
    rw [hsplit, List.take_append_of_le_length (by omega)]
  | newSection _ hnone => exact absurd (hnone.symm.trans hheader) (by simp)

theorem gains (h : BareChange format s B M) (hheader : findRulesHeader B = some header)
    (hB : Gains L added B) : Gains L (added ++ [s.entry format]) M := by
  cases h with
  | inside hlines hbelow =>
    subst hlines
    exact hB.inside hbelow
  | atEnd hlines hlast =>
    subst hlines
    exact hB.atEnd hlast
  | newSection _ hnone => exact absurd (hnone.symm.trans hheader) (by simp)

theorem eq_of_no_header (h : BareChange format s B M) (hheader : findRulesHeader B = none) :
    M = B ++ [yamlKey, s.entry format, []] := by
  cases h with
  | inside _ _ hsome => exact absurd (hsome.symm.trans hheader) (by simp)
  | atEnd _ _ hsome => exact absurd (hsome.symm.trans hheader) (by simp)
  | newSection => rfl

/-- A JSON entry goes on top of the entries below the header. -/
theorem stacked {above new below : List Text} (h : BareChange .json s B M)
    (hheader : findRulesHeader B = some header) (hlength : above.length = header + 1)
    (hB : Stacked above new below B) : Stacked above (s.entry .json :: new) below M := by
  obtain ⟨blank, hblank, hB⟩ := hB
  cases h with
  | inside hlines _ hheader' _ hjson hfront =>
    obtain rfl := Option.some.inj (hheader'.symm.trans hheader)
    obtain rfl := hjson rfl
    obtain ⟨rfl, rfl⟩ := List.append_inj (hlines.symm.trans hB) (by rw [hfront, hlength])
    exact ⟨blank, hblank, rfl⟩
  | @atEnd front last header' a hlines _ hheader' _ hjson hfront =>
    obtain rfl : header' = header := Option.some.inj (hheader'.symm.trans hheader)
    obtain rfl := hjson rfl
    -- The header is the last line, so there is nothing below the place yet.
    have hnil : new ++ (below ++ blank) = [] := by
      have hcount := congrArg List.length (hlines.symm.trans hB)
      simp only [List.length_append, List.length_singleton] at hcount
      rw [← List.length_eq_zero_iff, List.length_append, List.length_append]
      omega
    obtain ⟨rfl, hbelow⟩ := List.append_eq_nil_iff.1 hnil
    obtain ⟨rfl, rfl⟩ := List.append_eq_nil_iff.1 hbelow
    refine ⟨[[]], Or.inr rfl, ?_⟩
    rw [List.append_nil, List.append_nil, List.append_nil] at hB
    rw [← hB, hlines, List.append_assoc]
    rfl
  | newSection hformat => exact absurd hformat (by decide)

end BareChange

/-! ### Documents that are too long

A position counts lines modulo `2 ^ 32`. Where the number of the last line wraps around to zero, the
planner takes the end of the document for a place on the first line. This is said of any such number,
since a document of `2 ^ 32` lines can be reasoned about but not computed. -/

section Wrap

variable {front : List Text} {last : Text} {n : Nat}

theorem endOfDocument_of_wrap (hwrap : UInt32.ofNat front.length = 0) (last : Text) :
    endOfDocument (front ++ [last]) = .ofCounts 0 (Text.width last) := by
  rw [endOfDocument, List.getLastD_concat, List.length_append, List.length_singleton,
    Nat.add_sub_cancel, Position.ofCounts, hwrap]
  rfl

/-- A header on the last line is the anchor of every rule. -/
theorem plan_of_last_header (s : Switch) (hlines : Text.lines t = front ++ [last])
    (hheader : findRulesHeader (Text.lines t) = some front.length) :
    plan t .yaml s.rule s.indent =
      some ⟨endOfDocument (Text.lines t),
        Text.terminated [returnOf t, s.entry .yaml ++ returnOf t],
        .ofCounts (front.length + 1) 0⟩ := by
  obtain ⟨a, hanchor, hplan⟩ := exists_plan_of_header s .yaml hheader
  have hcount : (Text.lines t).length = front.length + 1 := by simp [hlines]
  obtain rfl : a = front.length := by
    have hle := hanchor.le
    have hlt := hanchor.lt_length hheader
    omega
  rw [hplan, insertLineAfter, if_neg (by omega)]
  simp

/-- The entry comes above all lines, and not below the header. -/
theorem switchOff_of_wrap (s : Switch) (hpos : 0 < n) (hwrap : UInt32.ofNat n = 0) :
    switchOff .yaml (Text.below n yamlKey) s =
      Text.terminated [[], s.entry .yaml] ++ Text.below n yamlKey := by
  have hlines : Text.lines (Text.below n yamlKey) = List.replicate n [] ++ [yamlKey] :=
    Text.lines_below n yamlKey
  have hlength : (List.replicate n ([] : Text)).length = n := List.length_replicate
  have hheader : findRulesHeader (Text.lines (Text.below n yamlKey)) = some n :=
    findRulesHeader_below (by decide) n
  have hreturn : returnOf (Text.below n yamlKey) = [] :=
    returnOf_of_notMem (by simp [Text.below, Text.terminated, yamlKey])
  have hplan := plan_of_last_header s hlines (by rw [hheader, hlength])
  rw [hlines, endOfDocument_of_wrap (by rwa [hlength]), hreturn, List.append_nil] at hplan
  rw [switchOff, hplan]
  -- The first line is empty, and a column past its end stands for its start.
  obtain ⟨m, rfl⟩ : ∃ m, n = m + 1 := ⟨n - 1, by omega⟩
  change Text.insertAtColumn _ (5 + 1) ('\n' :: Text.below m yamlKey) = _
  rw [Text.insertAtColumn, if_pos rfl, Text.below_succ]

theorem findRulesHeader_switchOff_of_wrap (hentry : isRulesHeader (s.entry .yaml) = false)
    (hpos : 0 < n) (hwrap : UInt32.ofNat n = 0) :
    findRulesHeader (Text.lines (switchOff .yaml (Text.below n yamlKey) s)) = some (n + 2) := by
  have hnew : ∀ l ∈ [[], s.entry .yaml], '\n' ∉ l := by
    simp [s.newline_notMem_entry .yaml]
  rw [switchOff_of_wrap s hpos hwrap, Text.lines_terminated_append hnew, List.cons_append,
    List.cons_append, List.nil_append, findRulesHeader_cons rfl, findRulesHeader_cons hentry,
    findRulesHeader_below (by decide)]
  rfl

end Wrap

/-! ### Any number of steps -/

theorem bareChange_of_header (s : Switch) (format : Format) (ht : t.Addressable)
    (hheader : findRulesHeader (bareLines t) = some header) :
    BareChange format s (bareLines t) (bareLines (switchOff format t s)) := by
  rw [bareLines, findRulesHeader_map_bare] at hheader
  obtain ⟨_, -, hplan⟩ := exists_plan_of_header s format hheader
  exact bareChange_switchOff ht hplan

/-- Any number of steps in a document with a header keeps the lines up to the header as they are,
and all lines, and adds one line each. -/
theorem gains_switchOffAll {steps : List Switch}
    (hfinal : (switchOffAll format t steps).Addressable)
    (hheader : findRulesHeader (bareLines t) = some header) (hgains : Gains L added (bareLines t)) :
    (bareLines (switchOffAll format t steps)).take (header + 1) =
        (bareLines t).take (header + 1) ∧
      Gains L (added ++ steps.map (·.entry format)) (bareLines (switchOffAll format t steps)) := by
  -- The lines up to the header carry the induction: they find the header again for the next step.
  induction steps generalizing t added with
  | nil => exact ⟨rfl, by simpa using hgains⟩
  | cons s steps ih =>
    have ht := addressable_of_switchOffAll (s :: steps) hfinal
    have hchange := bareChange_of_header s format ht hheader
    have htake := hchange.take_eq hheader
    obtain ⟨hrest, hall⟩ := ih hfinal (findRulesHeader_of_take_eq hheader htake)
      (hchange.gains hheader hgains)
    rw [List.append_assoc, List.singleton_append] at hall
    exact ⟨hrest.trans htake, hall⟩

/-- JSON entries stand below the header, the latest first. -/
theorem stacked_switchOffAll {above new below : List Text} {steps : List Switch}
    (hfinal : (switchOffAll .json t steps).Addressable)
    (hheader : findRulesHeader (bareLines t) = some header) (hlength : above.length = header + 1)
    (h : Stacked above new below (bareLines t)) :
    Stacked above ((steps.map (·.entry .json)).reverse ++ new) below
      (bareLines (switchOffAll .json t steps)) := by
  induction steps generalizing t new with
  | nil => exact h
  | cons s steps ih =>
    have ht := addressable_of_switchOffAll (s :: steps) hfinal
    have hchange := bareChange_of_header s .json ht hheader
    have hnext := findRulesHeader_of_take_eq hheader (hchange.take_eq hheader)
    have hrest := ih hfinal hnext (hchange.stacked hheader hlength h)
    rwa [List.map_cons, List.reverse_cons, List.append_assoc, List.singleton_append]

/-- The first step in a YAML document without a header adds the key of a section, and the others
find it. -/
theorem gains_switchOffAll_newSection {steps : List Switch}
    (hfinal : (switchOffAll .yaml t (s :: steps)).Addressable)
    (hheader : findRulesHeader (bareLines t) = none) :
    (bareLines (switchOffAll .yaml t (s :: steps))).take ((bareLines t).length + 1) =
        bareLines t ++ [yamlKey] ∧
      Gains (bareLines t) (yamlKey :: (s :: steps).map (·.entry .yaml))
        (bareLines (switchOffAll .yaml t (s :: steps))) := by
  have ht := addressable_of_switchOffAll (s :: steps) hfinal
  have hnone := hheader
  rw [bareLines, findRulesHeader_map_bare] at hnone
  have hlines := (bareChange_switchOff ht (plan_of_no_header s .yaml hnone)).eq_of_no_header hheader
  have hfirst : findRulesHeader (bareLines (switchOff .yaml t s)) = some (bareLines t).length := by
    rw [hlines]
    exact findRulesHeader_append_header hheader isRulesHeader_yamlKey
  have hgains : Gains (bareLines t) [yamlKey, s.entry .yaml] (bareLines (switchOff .yaml t s)) := by
    rw [hlines]
    exact Gains.section _ _ _
  obtain ⟨htake, hall⟩ := gains_switchOffAll (t := switchOff .yaml t s) hfinal hfirst hgains
  refine ⟨htake.trans ?_, hall⟩
  rw [hlines, List.take_length_add_append]
  rfl

theorem switchOffAll_json_of_no_header (hheader : findRulesHeader (Text.lines t) = none)
    (steps : List Switch) : switchOffAll .json t steps = t := by
  induction steps with
  | nil => rfl
  | cons s steps ih => rw [switchOffAll_cons, switchOff, plan_of_no_header s .json hheader, ih]

/-- What any number of steps leaves of a document.

* In JSON without a header nothing is ever inserted.
* The first header stays where it was, or where the first step in YAML has put the key of a section.
* All lines stay in their order, but for carriage returns at their ends. New are one entry for each
  step, the key if there was no header, and at most one empty line at the end.
* In JSON the entries stand below the header, the latest first.

All but the first are about documents in which positions of 32 bits reach every place;
`switchOff_moves_header` shows what happens to one that is too long. -/
theorem switchOffAll_keeps_lines (format : Format) (t : Text) (steps : List Switch) :
    (format = .json → findRulesHeader (Text.lines t) = none →
      switchOffAll format t steps = t ∧
        ∀ s : Switch, plan (switchOffAll format t steps) format s.rule s.indent = none) ∧
    ((switchOffAll format t steps).Addressable →
      (∀ header, findRulesHeader (Text.lines t) = some header →
        findRulesHeader (Text.lines (switchOffAll format t steps)) = some header ∧
        Gains (bareLines t) (steps.map (·.entry format))
          (bareLines (switchOffAll format t steps)) ∧
        (format = .json →
          Stacked ((bareLines t).take (header + 1)) (steps.map (·.entry format)).reverse
            ((bareLines t).drop (header + 1)) (bareLines (switchOffAll format t steps)))) ∧
      (findRulesHeader (Text.lines t) = none → format = .yaml → steps ≠ [] →
        findRulesHeader (Text.lines (switchOffAll format t steps)) =
          some (Text.lines t).length ∧
        (bareLines (switchOffAll format t steps))[(Text.lines t).length]? = some yamlKey ∧
        Gains (bareLines t) (yamlKey :: steps.map (·.entry format))
          (bareLines (switchOffAll format t steps)))) := by
  refine ⟨?_, fun hfinal => ⟨?_, ?_⟩⟩
  · rintro rfl hnone
    rw [switchOffAll_json_of_no_header hnone]
    exact ⟨rfl, fun s => plan_of_no_header s .json hnone⟩
  · intro header hheader
    rw [← findRulesHeader_map_bare, ← bareLines] at hheader ⊢
    obtain ⟨htake, hgains⟩ := gains_switchOffAll hfinal hheader (Gains.refl _)
    refine ⟨findRulesHeader_of_take_eq hheader htake, hgains, ?_⟩
    rintro rfl
    have hlt := findRulesHeader_lt_length hheader
    have hlength : ((bareLines t).take (header + 1)).length = header + 1 := by
      rw [List.length_take]
      omega
    have hstacked : Stacked ((bareLines t).take (header + 1)) []
        ((bareLines t).drop (header + 1)) (bareLines t) :=
      ⟨[], Or.inl rfl, by simp⟩
    simpa using stacked_switchOffAll hfinal hheader hlength hstacked
  · rintro hnone rfl hsteps
    obtain ⟨s, steps, rfl⟩ := List.exists_cons_of_ne_nil hsteps
    rw [← findRulesHeader_map_bare, ← bareLines] at hnone ⊢
    have hlength : (Text.lines t).length = (bareLines t).length := by
      rw [bareLines, List.length_map]
    obtain ⟨htake, hgains⟩ := gains_switchOffAll_newSection hfinal hnone
    have hkeyed : findRulesHeader (bareLines t ++ [yamlKey]) = some (bareLines t).length :=
      findRulesHeader_append_header hnone isRulesHeader_yamlKey
    rw [hlength]
    refine ⟨findRulesHeader_of_take_eq hkeyed (htake.trans ?_), ?_, hgains⟩
    · rw [List.take_of_length_le (by simp)]
    · have hget := congrArg (·[(bareLines t).length]?) htake
      simpa [List.getElem?_take] using hget

/-- Two rules below a JSON header on the last line, and two in a YAML document without a header. -/
theorem switchOffAll_keeps_lines_of_two_steps :
    let a : Switch := ⟨"a".toList, [' '], by decide, by decide⟩
    let b : Switch := ⟨"n/b".toList, [], by decide, by decide⟩
    let t := "\x7b\r\n\"rules\": \x7b".toList
    (switchOffAll .json t [a, b] =
        "\x7b\r\n\"rules\": \x7b\r\n\"n/b\": \"off\",\r\n  \"a\": \"off\",\r\n".toList ∧
      Stacked ((bareLines t).take 2) [b.entry .json, a.entry .json] ((bareLines t).drop 2)
        (bareLines (switchOffAll .json t [a, b]))) ∧
    (switchOffAll .yaml ['x'] [b, a] = "x\nrules:\n a: off\nn/b: off\n".toList ∧
      findRulesHeader (Text.lines (switchOffAll .yaml ['x'] [b, a])) = some 1) := by
  intro a b t
  have hjson := (switchOffAll_keeps_lines .json t [a, b]).2 ⟨by decide, by decide⟩
  have hyaml := (switchOffAll_keeps_lines .yaml ['x'] [b, a]).2 ⟨by decide, by decide⟩
  refine ⟨⟨by decide, ((hjson.1 1 (by decide)).2.2 rfl)⟩, by decide, ?_⟩
  exact (hyaml.2 (by decide) rfl (by simp)).1

/-- Positions of 32 bits are needed: below `2 ^ 32` empty lines, a header on the last line is moved by
the very first step. -/
theorem switchOff_moves_header :
    let t := Text.below UInt32.size yamlKey
    let s : Switch := ⟨['a'], [' '], by decide, by decide⟩
    findRulesHeader (Text.lines t) = some UInt32.size ∧
      findRulesHeader (Text.lines (switchOffAll .yaml t [s])) = some (UInt32.size + 2) := by
  intro t s
  have hmoved := findRulesHeader_switchOff_of_wrap (s := s) (n := UInt32.size) (by decide)
    (by decide) rfl
  rw [switchOffAll_cons, switchOffAll_nil]
  exact ⟨findRulesHeader_below (by decide) UInt32.size, hmoved⟩

end RuleOff.Config
