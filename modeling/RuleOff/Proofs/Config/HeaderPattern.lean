import RuleOff.Proofs.Config.Header
import RuleOff.Proofs.Text.Pattern

/-!
# The header as a pattern

The header of the rules section is given by a regular expression, and the search for it goes by hand.
This module reads the expression and shows that the search finds the first line in which it occurs.

## Main definitions

* `Config.headerPattern`: the expression, as it is written.
* `Config.IsFirst`: the first line with a property.

## Main statements

* `Config.ofText?_headerPattern`: the expression as a pattern.
* `Config.findRulesHeader_first_occurrence`: the search finds its first occurrence, or there is none.
-/

namespace RuleOff.Config

open Pattern

/-- The expression for a header, as it is written. -/
def headerPattern : Text := "^rules:\\s*|\\s*\"rules\":\\s*\\\x7b\\s*".toList

/-- The key of the section at the start, and white space. -/
def yamlPattern : Pattern := start.append (word yamlKey (blank.many.append nothing))

/-- The other key, white space, and a brace, with white space on both sides. -/
def jsonPattern : Pattern :=
  blank.many.append (word jsonKey (blank.many.append (word ['\x7b'] (blank.many.append nothing))))

/-- The anchor belongs to the first alternative. -/
theorem ofText?_headerPattern :
    Pattern.ofText? headerPattern = some (yamlPattern.either jsonPattern) := by
  decide

theorem matches_blanks_iff {p : Pattern} {front t : Text} :
    (blank.many.append p).Matches front t ↔
      ∃ blanks u, (∀ c ∈ blanks, Text.isBlank c = true) ∧ t = blanks ++ u ∧
        p.Matches (front ++ blanks) u := by
  rw [matches_append_iff]
  constructor
  · rintro ⟨blanks, u, rfl, white, rest⟩
    exact ⟨blanks, u, matches_many_blank_iff.mp white, rfl, rest⟩
  · rintro ⟨blanks, u, white, rfl, rest⟩
    exact ⟨blanks, u, rfl, matches_many_blank_iff.mpr white, rest⟩

theorem occurs_yamlPattern_iff {line : Text} : yamlPattern.Occurs line ↔ yamlKey <+: line := by
  unfold yamlPattern
  constructor
  · rintro ⟨front, part, rest, rfl, here⟩
    obtain ⟨_, u, rfl, anchor, key⟩ := matches_append_iff.mp here
    obtain ⟨rfl, rfl⟩ := matches_start_iff.mp anchor
    obtain ⟨v, rfl, -⟩ := matches_word_iff.mp key
    exact ⟨v ++ rest, by simp⟩
  · rintro ⟨rest, rfl⟩
    have behind : (blank.many.append nothing).Matches yamlKey [] :=
      .append (.none blank _) (.nothing _)
    have key : (word yamlKey (blank.many.append nothing)).Matches [] yamlKey :=
      matches_word_iff.mpr ⟨[], (List.append_nil _).symm, behind⟩
    exact ⟨[], yamlKey, rest, rfl, .append .start key⟩

theorem occurs_jsonPattern_iff {line : Text} :
    jsonPattern.Occurs line ↔
      ∃ before blanks rest, (∀ c ∈ blanks, Text.isBlank c = true) ∧
        line = before ++ (jsonKey ++ (blanks ++ '\x7b' :: rest)) := by
  unfold jsonPattern
  constructor
  · rintro ⟨front, part, rest, rfl, here⟩
    obtain ⟨leading, _, -, rfl, key⟩ := matches_blanks_iff.mp here
    obtain ⟨_, rfl, gap⟩ := matches_word_iff.mp key
    obtain ⟨blanks, _, white, rfl, brace⟩ := matches_blanks_iff.mp gap
    obtain ⟨v, rfl, -⟩ := matches_word_iff.mp brace
    exact ⟨front ++ leading, blanks, v ++ rest, white, by simp⟩
  · rintro ⟨before, blanks, rest, white, rfl⟩
    -- Of the white space around the key and the brace, only what stands between them is needed.
    have behind : (blank.many.append nothing).Matches (before ++ (jsonKey ++ blanks) ++ ['\x7b']) [] :=
      .append (.none blank _) (.nothing _)
    have brace : (word ['\x7b'] (blank.many.append nothing)).Matches
        (before ++ (jsonKey ++ blanks)) ['\x7b'] :=
      matches_word_iff.mpr ⟨[], rfl, behind⟩
    refine ⟨before, jsonKey ++ (blanks ++ ['\x7b']), rest, by simp, ?_⟩
    refine matches_blanks_iff.mpr ⟨[], _, by simp, rfl, matches_word_iff.mpr ⟨_, rfl, ?_⟩⟩
    exact matches_blanks_iff.mpr ⟨blanks, _, white, rfl, by simpa using brace⟩

/-- The scanner accepts the language of the expression. -/
theorem isRulesHeader_iff_occurs {line : Text} :
    isRulesHeader line = true ↔ (yamlPattern.either jsonPattern).Occurs line := by
  rw [isRulesHeader_iff, occurs_either_iff, occurs_yamlPattern_iff, occurs_jsonPattern_iff]

/-- The line with the number is the first with the property. -/
structure IsFirst (holds : Text → Prop) (lines : List Text) (i : Nat) : Prop where
  here : ∃ line, lines[i]? = some line ∧ holds line
  no_earlier : ∀ j < i, ∀ line, lines[j]? = some line → ¬ holds line

theorem findRulesHeader_eq_some_iff {lines : List Text} {i : Nat} :
    findRulesHeader lines = some i ↔ IsFirst (isRulesHeader · = true) lines i := by
  unfold findRulesHeader
  rw [List.findIdx?_eq_some_iff_getElem]
  constructor
  · rintro ⟨lt, here, earlier⟩
    refine ⟨⟨lines[i], List.getElem?_eq_getElem lt, here⟩, fun j lt' line at_j => ?_⟩
    obtain ⟨-, rfl⟩ := List.getElem?_eq_some_iff.mp at_j
    exact earlier j lt'
  · rintro ⟨⟨line, at_i, here⟩, earlier⟩
    obtain ⟨lt, rfl⟩ := List.getElem?_eq_some_iff.mp at_i
    exact ⟨lt, here, fun j lt' => earlier j lt' _ (List.getElem?_eq_getElem (lt'.trans lt))⟩

/-- The search for a header finds the first line in which the expression occurs, and nothing if it
occurs in no line. It occurs in the lines that start with the one key, and in those that hold the
other with an opening brace after any white space. -/
theorem findRulesHeader_first_occurrence :
    ∃ P, Pattern.ofText? headerPattern = some P ∧
      (∀ line, P.Occurs line ↔
        "rules:".toList <+: line ∨
          ∃ before blanks rest, (∀ c ∈ blanks, Text.isBlank c = true) ∧
            line = before ++ ("\"rules\":".toList ++ (blanks ++ '\x7b' :: rest))) ∧
      (∀ line, isRulesHeader line = true ↔ P.Occurs line) ∧
      ∀ lines : List Text,
        (∀ i, findRulesHeader lines = some i ↔ IsFirst P.Occurs lines i) ∧
          (findRulesHeader lines = none ↔ ∀ line ∈ lines, ¬ P.Occurs line) := by
  have same : (isRulesHeader · = true) = (yamlPattern.either jsonPattern).Occurs :=
    funext fun line => propext isRulesHeader_iff_occurs
  refine ⟨_, ofText?_headerPattern, fun line => ?_, fun line => isRulesHeader_iff_occurs,
    fun lines => ⟨fun i => ?_, ?_⟩⟩
  · rw [← isRulesHeader_iff_occurs]
    exact isRulesHeader_iff
  · rw [findRulesHeader_eq_some_iff, same]
  · unfold findRulesHeader
    rw [List.findIdx?_eq_none_iff]
    simp only [← isRulesHeader_iff_occurs, Bool.not_eq_true]

/-- A key that no brace follows does not hide a later one, and a no-break space is white. -/
example :
    findRulesHeader
      ["\"rules:".toList, "\"rules\": [\"rules\":\u00a0\x7b".toList, "rules:".toList] = some 1 := by
  decide

end RuleOff.Config
