import Mathlib.Data.List.DropRight
import RuleOff.Config.Header

/-!
# What makes a line a header

The search for the header, read as a pattern over the characters of a line. A carriage return at
the end of a line, which belongs to its ending, is no part of the pattern, so lines may be compared
without it.

## Main definitions

* `Text.bare`: a line without the carriage returns at its end.

## Main statements

* `Config.isRulesHeader_iff`: the lines that are headers.
* `Config.findRulesHeader_map_bare`: carriage returns at the ends of lines do not count.
-/

namespace RuleOff

namespace Text

/-- The line without the carriage returns at its end. -/
def bare (l : Text) : Text := l.rdropWhile (· == '\r')

@[simp] theorem bare_nil : bare [] = [] := rfl

@[simp] theorem bare_append_return (l : Text) : bare (l ++ ['\r']) = bare l :=
  List.rdropWhile_concat_pos _ l '\r' rfl

theorem bare_eq_self {l : Text} {c : Char} (h : c ≠ '\r') : bare (l ++ [c]) = l ++ [c] :=
  List.rdropWhile_concat_neg _ l c (by simpa using h)

/-- What a carriage return at the end of a line does not change is a matter of the bare line. -/
theorem apply_bare {α : Type} {f : Text → α} (h : ∀ l, f (l ++ ['\r']) = f l) (l : Text) :
    f (bare l) = f l := by
  induction l using List.reverseRecOn with
  | nil => rfl
  | append_singleton l c ih =>
    by_cases hc : c = '\r'
    · rw [hc, bare_append_return, ih, h]
    · rw [bare_eq_self hc]

end Text

namespace Config

theorem opensBrace_iff {t : Text} :
    opensBrace t = true ↔
      ∃ blanks rest, (∀ c ∈ blanks, Text.isBlank c = true) ∧ t = blanks ++ '\x7b' :: rest := by
  induction t with
  | nil => simp [opensBrace]
  | cons c cs ih =>
    have hbrace : Text.isBlank '\x7b' = false := by decide
    rw [opensBrace]
    split
    next hc =>
      rw [ih]
      constructor
      · rintro ⟨blanks, rest, hb, rfl⟩
        exact ⟨c :: blanks, rest, by simpa [hc] using hb, rfl⟩
      · rintro ⟨blanks, rest, hb, h⟩
        cases blanks with
        | nil =>
          rw [(List.cons.inj h).1, hbrace] at hc
          exact absurd hc Bool.false_ne_true
        | cons b blanks =>
          exact ⟨blanks, rest, fun d hd => hb d (List.mem_cons_of_mem _ hd), (List.cons.inj h).2⟩
    next hc =>
      rw [beq_iff_eq]
      constructor
      · rintro rfl
        exact ⟨[], cs, by simp, rfl⟩
      · rintro ⟨blanks, rest, hb, h⟩
        cases blanks with
        | nil => exact (List.cons.inj h).1
        | cons b blanks =>
          rw [(List.cons.inj h).1] at hc
          exact absurd (hb b List.mem_cons_self) hc

theorem startsSection_iff {t : Text} :
    startsSection t = true ↔
      ∃ blanks rest, (∀ c ∈ blanks, Text.isBlank c = true) ∧
        t = jsonKey ++ (blanks ++ '\x7b' :: rest) := by
  unfold startsSection
  split
  next rest hrest =>
    rw [Text.afterPrefix?_eq_some_iff] at hrest
    simp only [hrest, opensBrace_iff, List.append_cancel_left_eq]
  next hnone =>
    constructor
    · intro h
      exact absurd h Bool.false_ne_true
    · rintro ⟨blanks, rest, -, h⟩
      rw [Text.afterPrefix?_eq_some_iff.2 h] at hnone
      exact absurd hnone (by simp)

theorem holdsSection_iff {t : Text} :
    holdsSection t = true ↔
      ∃ before blanks rest, (∀ c ∈ blanks, Text.isBlank c = true) ∧
        t = before ++ (jsonKey ++ (blanks ++ '\x7b' :: rest)) := by
  induction t with
  | nil => simp [holdsSection]
  | cons c cs ih =>
    rw [holdsSection, Bool.or_eq_true, startsSection_iff, ih]
    constructor
    · rintro (⟨blanks, rest, hb, h⟩ | ⟨before, blanks, rest, hb, h⟩)
      · exact ⟨[], blanks, rest, hb, h⟩
      · exact ⟨c :: before, blanks, rest, hb, by rw [h]; rfl⟩
    · rintro ⟨before, blanks, rest, hb, h⟩
      cases before with
      | nil => exact Or.inl ⟨blanks, rest, hb, h⟩
      | cons d before => exact Or.inr ⟨before, blanks, rest, hb, (List.cons.inj h).2⟩

/-- A line is a header if it starts with the YAML key, or holds the JSON key with an opening brace
after any white space. -/
theorem isRulesHeader_iff {line : Text} :
    isRulesHeader line = true ↔
      yamlKey <+: line ∨
        ∃ before blanks rest, (∀ c ∈ blanks, Text.isBlank c = true) ∧
          line = before ++ (jsonKey ++ (blanks ++ '\x7b' :: rest)) := by
  rw [isRulesHeader, Bool.or_eq_true, List.isPrefixOf_iff_prefix, holdsSection_iff]

theorem isRulesHeader_append {line : Text} (h : isRulesHeader line = true) (more : Text) :
    isRulesHeader (line ++ more) = true := by
  rw [isRulesHeader_iff] at h ⊢
  rcases h with h | ⟨before, blanks, rest, hb, rfl⟩
  · exact Or.inl (h.trans (List.prefix_append line more))
  · exact Or.inr ⟨before, blanks, rest ++ more, hb, by simp⟩

/-- A carriage return at the end makes no header: neither key nor brace ends in one. -/
theorem isRulesHeader_append_return (line : Text) :
    isRulesHeader (line ++ ['\r']) = isRulesHeader line := by
  refine Bool.eq_iff_iff.2 ⟨fun h => ?_, fun h => isRulesHeader_append h _⟩
  rw [isRulesHeader_iff] at h ⊢
  rcases h with h | ⟨before, blanks, rest, hb, h⟩
  · -- The whole line would be the key, whose last character is the colon.
    rcases List.prefix_concat_iff.1 h with h | h
    · have hlast := congrArg List.getLast? h
      simp [yamlKey] at hlast
    · exact Or.inl h
  · -- With nothing after the brace, the brace would be the carriage return.
    rcases List.eq_nil_or_concat rest with rfl | ⟨rest, c, rfl⟩
    · have hlast := congrArg List.getLast? h
      simp at hlast
    · simp only [List.concat_eq_append, ← List.cons_append, ← List.append_assoc] at h
      obtain ⟨hline, -⟩ := List.append_inj' h rfl
      exact Or.inr ⟨before, blanks, rest, hb, by rw [hline]; simp⟩

theorem isRulesHeader_bare (line : Text) : isRulesHeader (Text.bare line) = isRulesHeader line :=
  Text.apply_bare isRulesHeader_append_return line

theorem findRulesHeader_map_bare (lines : List Text) :
    findRulesHeader (lines.map Text.bare) = findRulesHeader lines := by
  unfold findRulesHeader
  rw [List.findIdx?_map]
  exact congrArg (List.findIdx? · lines) (funext isRulesHeader_bare)

theorem isRulesHeader_yamlKey : isRulesHeader yamlKey = true :=
  isRulesHeader_iff.2 (Or.inl List.prefix_rfl)

theorem findRulesHeader_cons {l : Text} (h : isRulesHeader l = false) (lines : List Text) :
    findRulesHeader (l :: lines) = (findRulesHeader lines).map (· + 1) := by
  rw [findRulesHeader, List.findIdx?_cons, h]
  rfl

theorem findRulesHeader_append {lines : List Text} {header : Nat}
    (h : findRulesHeader lines = some header) (more : List Text) :
    findRulesHeader (lines ++ more) = some header := by
  unfold findRulesHeader at *
  rw [List.findIdx?_append, h]
  rfl

theorem findRulesHeader_of_append {front rest : List Text} {header : Nat}
    (h : findRulesHeader (front ++ rest) = some header) (hlt : header < front.length) :
    findRulesHeader front = some header := by
  unfold findRulesHeader at *
  rw [List.findIdx?_append] at h
  cases hf : List.findIdx? isRulesHeader front with
  | some i => simpa [hf] using h
  | none =>
    exfalso
    rw [hf] at h
    simp at h
    omega

/-- Lists of lines that agree up to the header have it at the same place. -/
theorem findRulesHeader_of_take_eq {lines others : List Text} {header : Nat}
    (h : findRulesHeader lines = some header)
    (htake : others.take (header + 1) = lines.take (header + 1)) :
    findRulesHeader others = some header := by
  have hlt : header < lines.length := (List.findIdx?_eq_some_iff_getElem.1 h).1
  have hfront : findRulesHeader (lines.take (header + 1)) = some header := by
    rw [← List.take_append_drop (header + 1) lines] at h
    exact findRulesHeader_of_append h (by rw [List.length_take]; omega)
  rw [← List.take_append_drop (header + 1) others, htake]
  exact findRulesHeader_append hfront _

theorem findRulesHeader_append_header {lines rest : List Text} {key : Text}
    (h : findRulesHeader lines = none) (hkey : isRulesHeader key = true) :
    findRulesHeader (lines ++ key :: rest) = some lines.length := by
  unfold findRulesHeader at *
  rw [List.findIdx?_append, h, List.findIdx?_cons, if_pos hkey]
  simp

theorem findRulesHeader_lt_length {lines : List Text} {header : Nat}
    (h : findRulesHeader lines = some header) : header < lines.length :=
  (List.findIdx?_eq_some_iff_getElem.1 h).1

theorem isRulesHeader_of_find {lines : List Text} {header : Nat} {l : Text}
    (h : findRulesHeader lines = some header) (hl : lines[header]? = some l) :
    isRulesHeader l = true := by
  obtain ⟨hlt, hp, -⟩ := List.findIdx?_eq_some_iff_getElem.1 h
  rw [List.getElem?_eq_getElem hlt] at hl
  rwa [Option.some.inj hl] at hp

end Config

end RuleOff
