import RuleOff.Json.Parser
import RuleOff.Proofs.Config.WholeLines
import RuleOff.Proofs.Yaml.Line

/-!
# Entries that read back

The entry that switches a rule off is written without a writer of JSON or YAML. In JSON it reads as
a member for the rule, because the identifiers of rules need no escapes. In YAML it reads as an
entry for the rule only if the identifier may stand without quotation marks, which the sign of a
scope in front rules out.

## Main definitions

* `Config.IsRuleId`: the shape of the identifiers of rules.
* `Config.Switch.ReadsBack`: the line of an entry reads as an entry for its rule.

## Main statements

* `Config.plan_entry_reads_back_iff`: the entries that read back.
* `Config.plan_entry_of_scope`: an entry that reads as nothing.
-/

namespace RuleOff.Config

/-- A letter, a digit, a hyphen or an underscore. Beyond ASCII, all that can be seen counts as a
letter. -/
def isIdChar (c : Char) : Bool :=
  c.isAlphanum || c == '-' || c == '_' || (decide (0x7F < c.toNat) && Yaml.isWord c)

/-- Segments between slashes, none of them empty. -/
def IsSegmented (t : Text) : Prop := ∀ p ∈ Text.split '/' t, p ≠ [] ∧ ∀ c ∈ p, isIdChar c = true

instance (t : Text) : Decidable (IsSegmented t) :=
  inferInstanceAs (Decidable (∀ p ∈ Text.split '/' t, p ≠ [] ∧ ∀ c ∈ p, isIdChar c = true))

/-- Segments between slashes, the first of which may have the sign of a scope in front. -/
def IsRuleId (rule : Text) : Prop := IsSegmented rule ∨ ∃ t, IsSegmented t ∧ rule = '@' :: t

/-- Read in its format, the line of the entry is an entry for the rule and no other, and switches
it off. In JSON a comma follows, and the object is written around the line. -/
def Switch.ReadsBack (s : Switch) : Format → Prop
  | .json => ∃ member, s.entry .json = member ++ [','] ∧
      Json.parse? ('\x7b' :: (member ++ ['\x7d'])) = some (.obj [(s.rule, .str "off".toList)])
  | .yaml => ∀ key value, Yaml.IsEntry (s.entry .yaml) key value ↔
      key = s.rule ∧ value = "off".toList

/-! ### Characters of identifiers -/

theorem toNat_lt_of_isAlphanum {c : Char} (h : c.isAlphanum = true) : c.toNat < 0x80 := by
  unfold Char.isAlphanum Char.isAlpha Char.isUpper Char.isLower Char.isDigit at h
  simp only [Bool.or_eq_true, Bool.and_eq_true, decide_eq_true_eq, UInt32.le_iff_toNat_le,
    ge_iff_le] at h
  have value : c.toNat = c.val.toNat := rfl
  have upper : 'Z'.val.toNat = 90 := rfl
  have lower : 'z'.val.toNat = 122 := rfl
  have digit : '9'.val.toNat = 57 := rfl
  omega

/-- An identifier has no characters that mean something in JSON or YAML, except for hyphens. -/
theorem isIdChar_plain {c : Char} (id : isIdChar c = true) :
    Yaml.isWord c = true ∧ (c ∈ Yaml.indicators → c = '-') ∧ c ≠ '\\' := by
  by_cases ascii : c.toNat < 0x80
  · have each : ∀ n, n < 0x80 → isIdChar (Char.ofNat n) = true →
        Yaml.isWord (Char.ofNat n) = true ∧
          (Char.ofNat n ∈ Yaml.indicators → Char.ofNat n = '-') ∧ Char.ofNat n ≠ '\\' := by
      decide
    have here := each c.toNat ascii
    rw [Char.ofNat_toNat] at here
    exact here id
  · have word : Yaml.isWord c = true := by
      rcases Bool.or_eq_true_iff.mp id with id | beyond
      · rcases Bool.or_eq_true_iff.mp id with id | underscore
        · rcases Bool.or_eq_true_iff.mp id with alphanum | hyphen
          · exact absurd (toNat_lt_of_isAlphanum alphanum) ascii
          · rw [beq_iff_eq.mp hyphen]
            decide
        · rw [beq_iff_eq.mp underscore]
          decide
      · exact (Bool.and_eq_true_iff.mp beyond).2
    have low : ∀ d ∈ '\\' :: Yaml.indicators, d.toNat < 0x80 := by decide
    refine ⟨word, fun mem => absurd (low c (List.mem_cons_of_mem _ mem)) ascii, ?_⟩
    rintro rfl
    exact ascii (by decide)

theorem exists_mem_split {sep c : Char} {t : Text} (mem : c ∈ t) (other : c ≠ sep) :
    ∃ p ∈ Text.split sep t, c ∈ p := by
  rw [← Text.join_split sep t] at mem
  generalize Text.split sep t = pieces at mem ⊢
  induction pieces with
  | nil => exact absurd mem List.not_mem_nil
  | cons p pieces ih =>
    cases pieces with
    | nil => exact ⟨p, List.mem_cons_self, mem⟩
    | cons q pieces =>
      rw [Text.join_cons_of_ne_nil sep p (List.cons_ne_nil q pieces)] at mem
      rcases List.mem_append.mp mem with here | later
      · exact ⟨p, List.mem_cons_self, here⟩
      · obtain ⟨r, mem_r, mem⟩ := ih ((List.mem_cons.mp later).resolve_left other)
        exact ⟨r, List.mem_cons_of_mem p mem_r, mem⟩

/-! ### Identifiers -/

namespace IsSegmented

variable {t : Text}

theorem plain (segmented : IsSegmented t) {c : Char} (mem : c ∈ t) :
    Yaml.isWord c = true ∧ (c ∈ Yaml.indicators → c = '-') ∧ c ≠ '\\' := by
  by_cases slash : c = '/'
  · rw [slash]
    decide
  · obtain ⟨p, mem_p, mem⟩ := exists_mem_split mem slash
    exact isIdChar_plain ((segmented p mem_p).2 c mem)

theorem exists_eq_cons (segmented : IsSegmented t) : ∃ c rest, t = c :: rest := by
  cases t with
  | nil => exact absurd rfl (segmented [] List.mem_cons_self).1
  | cons c rest => exact ⟨c, rest, rfl⟩

theorem isBare (segmented : IsSegmented t) : Yaml.IsBare t := by
  intro c mem
  obtain ⟨word, indicator, -⟩ := segmented.plain mem
  refine ⟨word, ?_, ?_⟩
  · rintro rfl
    exact absurd (indicator (by decide)) (by decide)
  · rintro rfl
    exact absurd (indicator (by decide)) (by decide)

/-- Without a sign in front, the identifier is a plain scalar. A hyphen in front is no obstacle, as
a character of the identifier or the colon stands behind it. -/
theorem isPlain (segmented : IsSegmented t) (rest : Text) : Yaml.IsPlain (':' :: rest) t := by
  have bare := segmented.isBare
  obtain ⟨c, more, rfl⟩ := segmented.exists_eq_cons
  obtain ⟨word, indicator, -⟩ := segmented.plain List.mem_cons_self
  have bare_more : Yaml.IsBare more := fun d mem => bare d (List.mem_cons_of_mem c mem)
  refine ⟨?_, bare_more.goesOn _ word⟩
  unfold Yaml.startsPlain
  by_cases mem : c ∈ Yaml.indicators
  · rw [if_pos mem, indicator mem]
    cases more with
    | nil => rfl
    | cons d more =>
      show Yaml.isWord d = true
      exact (bare_more d List.mem_cons_self).1
  · rw [if_neg mem]
    exact word

end IsSegmented

theorem not_isPlain_scoped (after t : Text) : ¬ Yaml.IsPlain after ('@' :: t) :=
  fun plain => Bool.noConfusion (show false = true from plain.1)

section Entries

variable {s : Switch}

theorem IsRuleId.isBare {rule : Text} (id : IsRuleId rule) : Yaml.IsBare rule := by
  rcases id with segmented | ⟨t, segmented, rfl⟩
  · exact segmented.isBare
  · intro c mem
    rcases List.mem_cons.mp mem with rfl | mem
    · decide
    · exact segmented.isBare c mem

theorem IsRuleId.isPlain_iff {rule : Text} (id : IsRuleId rule) (rest : Text) :
    Yaml.IsPlain (':' :: rest) rule ↔ rule.head? ≠ some '@' := by
  rcases id with segmented | ⟨t, -, rfl⟩
  · refine ⟨fun plain scope => ?_, fun _ => segmented.isPlain rest⟩
    obtain ⟨c, more, rfl⟩ := segmented.exists_eq_cons
    obtain rfl := Option.some.inj scope
    exact not_isPlain_scoped _ _ plain
  · exact ⟨fun plain => absurd plain (not_isPlain_scoped _ t), fun unscoped => absurd rfl unscoped⟩

theorem isEntry_yaml_iff (id : IsRuleId s.rule) (spaces : ∀ c ∈ s.indent, c = ' ')
    (key value : Text) :
    Yaml.IsEntry (s.entry .yaml) key value ↔
      key = s.rule ∧ value = "off".toList ∧ s.rule.head? ≠ some '@' ∧ s.rule.length ≤ 1024 := by
  have bare_off : Yaml.IsBare "off".toList := by decide
  have plain_off : Yaml.IsPlain [] "off".toList := by decide
  have line : s.entry .yaml = s.indent ++ (s.rule ++ ':' :: ' ' :: "off".toList) := by
    show s.indent ++ s.rule ++ ": off".toList = _
    rw [List.append_assoc]
    rfl
  rw [line, Yaml.isEntry_iff spaces id.isBare bare_off, id.isPlain_iff]
  simp only [plain_off, true_and]

end Entries

/-! ### Strings without escapes -/

section Strings

open Json

theorem stringBody?_append {t : Text} (plain : ∀ c ∈ t, c ≠ '"' ∧ c ≠ '\\' ∧ 0x20 ≤ c.toNat)
    (rest : Text) {n : Nat} (enough : t.length < n) :
    stringBody? n (t ++ '"' :: rest) = some (t, rest) := by
  induction t generalizing n with
  | nil =>
    obtain ⟨n, rfl⟩ := Nat.exists_eq_add_one_of_ne_zero (Nat.ne_of_gt enough)
    rfl
  | cons c t ih =>
    obtain ⟨n, rfl⟩ := Nat.exists_eq_add_one_of_ne_zero (Nat.ne_of_gt (Nat.zero_lt_of_lt enough))
    obtain ⟨not_quote, not_slash, printed⟩ := plain c List.mem_cons_self
    have later := ih (fun d mem => plain d (List.mem_cons_of_mem c mem))
      (Nat.lt_of_succ_lt_succ enough)
    rw [List.cons_append, stringBody?]
    · rw [if_neg (not_or.mpr ⟨not_slash, Nat.not_lt.mpr printed⟩), later]
      rfl
    · exact not_quote
    · exact fun _ slash _ => not_slash slash
    · exact fun _ _ slash _ => not_slash slash

theorem string?_append {t : Text} (plain : ∀ c ∈ t, c ≠ '"' ∧ c ≠ '\\' ∧ 0x20 ≤ c.toNat)
    (rest : Text) : string? ('"' :: (t ++ '"' :: rest)) = some (t, rest) := by
  refine stringBody?_append plain rest ?_
  rw [List.length_append, List.length_cons]
  omega

theorem skipSpace_cons {c : Char} (visible : isSpace c = false) (t : Text) :
    skipSpace (c :: t) = c :: t :=
  List.dropWhile_cons_of_neg (Bool.eq_false_iff.mp visible)

/-- An object of one member, which switches off a rule that needs no escapes. -/
theorem parse?_member {indent rule : Text} (spaces : ∀ c ∈ indent, isSpace c = true)
    (plain : ∀ c ∈ rule, c ≠ '"' ∧ c ≠ '\\' ∧ 0x20 ≤ c.toNat) :
    parse? ('\x7b' :: (indent ++ '"' :: (rule ++ '"' :: ':' :: " \"off\"\x7d".toList))) =
      some (.obj [(rule, .str "off".toList)]) := by
  have value : ∀ n, value? (n + 1) " \"off\"\x7d".toList =
      some (.str "off".toList, ['\x7d']) := fun n => rfl
  have members : ∀ n, members? (n + 2) ('"' :: (rule ++ '"' :: ':' :: " \"off\"\x7d".toList)) =
      some ([(rule, .str "off".toList)], []) := by
    intro n
    rw [members?, skipSpace_cons (by decide), string?_append plain]
    dsimp only
    rw [skipSpace_cons (by decide)]
    simp only [value]
    rfl
  have inside : skipSpace (indent ++ '"' :: (rule ++ '"' :: ':' :: " \"off\"\x7d".toList)) =
      '"' :: (rule ++ '"' :: ':' :: " \"off\"\x7d".toList) :=
    List.dropWhile_append_of_pos spaces
  have object : ∀ n, value? (n + 3) ('\x7b' :: (indent ++ '"' ::
      (rule ++ '"' :: ':' :: " \"off\"\x7d".toList))) =
        some (.obj [(rule, .str "off".toList)], []) := by
    intro n
    rw [value?, skipSpace_cons (by decide)]
    simp only [inside]
    show (members? (n + 2) _).map _ = _
    rw [members]
    rfl
  unfold parse?
  rw [List.length_cons, Nat.mul_succ]
  -- The bound is at least three steps.
  rw [object (2 * _ + 1)]
  rfl

end Strings

section Lines

variable {s : Switch}

/-- An identifier needs no escapes. -/
theorem IsRuleId.json_plain {rule : Text} (id : IsRuleId rule) :
    ∀ c ∈ rule, c ≠ '"' ∧ c ≠ '\\' ∧ 0x20 ≤ c.toNat := by
  have segment : ∀ {t : Text}, IsSegmented t → ∀ c ∈ t, c ≠ '"' ∧ c ≠ '\\' ∧ 0x20 ≤ c.toNat := by
    intro t segmented c mem
    obtain ⟨word, indicator, not_slash⟩ := segmented.plain mem
    refine ⟨?_, not_slash, ?_⟩
    · rintro rfl
      exact absurd (indicator (by decide)) (by decide)
    · simp only [Yaml.isWord, Text.inRanges, Yaml.wordRanges, List.any_cons, List.any_nil,
        Bool.or_eq_true, Bool.and_eq_true, decide_eq_true_eq, Bool.or_false] at word
      omega
  rcases id with segmented | ⟨t, segmented, rfl⟩
  · exact segment segmented
  · intro c mem
    rcases List.mem_cons.mp mem with rfl | mem
    · decide
    · exact segment segmented c mem

theorem readsBack_json (id : IsRuleId s.rule) (spaces : ∀ c ∈ s.indent, c = ' ') :
    s.ReadsBack .json := by
  have all_spaces : ∀ c ∈ s.indent ++ s.indent, Json.isSpace c = true := by
    intro c mem
    rw [spaces c ((List.mem_append.mp mem).elim (fun h => h) (fun h => h))]
    rfl
  refine ⟨s.indent ++ s.indent ++ '"' :: (s.rule ++ "\": \"off\"".toList), ?_, ?_⟩
  · show _ ++ _ ++ '"' :: (s.rule ++ "\": \"off\",".toList) = _
    simp
  · have read := parse?_member all_spaces id.json_plain
    simpa using read

/-- In JSON every entry reads back, and in YAML those of short identifiers without a scope. -/
theorem readsBack_iff (id : IsRuleId s.rule) (spaces : ∀ c ∈ s.indent, c = ' ')
    (format : Format) :
    s.ReadsBack format ↔
      (format = .yaml → s.rule.head? ≠ some '@' ∧ s.rule.length ≤ 1024) := by
  cases format with
  | json => exact ⟨fun _ yaml => Format.noConfusion yaml, fun _ => readsBack_json id spaces⟩
  | yaml =>
    constructor
    · intro reads _
      exact ((isEntry_yaml_iff id spaces _ _).mp ((reads _ _).mpr ⟨rfl, rfl⟩)).2.2
    · intro short key value
      rw [isEntry_yaml_iff id spaces]
      exact ⟨fun ⟨key_eq, value_eq, _⟩ => ⟨key_eq, value_eq⟩,
        fun ⟨key_eq, value_eq⟩ => ⟨key_eq, value_eq, short rfl⟩⟩

/-- The text of an insertion is the line of the entry, behind a line break or a new header, or
nothing. -/
theorem exists_text_of_plan {t : Text} {format : Format} {i : Insertion}
    (h : plan t format s.rule s.indent = some i) :
    ∃ front ∈ [[], lineEnding t, lineEnding t ++ yamlKey ++ lineEnding t],
      i.text = front ++ (s.entry format ++ lineEnding t) := by
  cases header : findRulesHeader (Text.lines t) with
  | none =>
    rw [plan_of_no_header s format header] at h
    cases format with
    | json => exact absurd h (Option.some_ne_none i).symm
    | yaml =>
      rw [← Option.some.inj h]
      exact ⟨_, by simp, rfl⟩
  | some n =>
    obtain ⟨a, -, planned⟩ := exists_plan_of_header s format header
    have line : Text.terminated [s.entry format ++ returnOf t] =
        s.entry format ++ lineEnding t := by
      rw [lineEnding_eq]
      simp
    rw [planned, line, ← lineEnding_eq, Option.some.injEq, insertLineAfter] at h
    split at h
    · rw [← h]
      exact ⟨[], by simp, rfl⟩
    · rw [← h]
      exact ⟨lineEnding t, by simp, rfl⟩

end Lines

/-- The line that the planner writes for a rule, with an indentation of spaces, reads in its format
as an entry of exactly this rule that is off, except in YAML if the identifier starts with the sign
of a scope or is too long for a key. -/
theorem plan_entry_reads_back_iff (s : Switch) (id : IsRuleId s.rule)
    (spaces : ∀ c ∈ s.indent, c = ' ') {t : Text} {format : Format} {i : Insertion}
    (h : plan t format s.rule s.indent = some i) :
    (∃ front ∈ [[], lineEnding t, lineEnding t ++ yamlKey ++ lineEnding t],
      i.text = front ++ (s.entry format ++ lineEnding t)) ∧
    (s.ReadsBack format ↔
      (format = .yaml → s.rule.head? ≠ some '@' ∧ s.rule.length ≤ 1024)) :=
  ⟨exists_text_of_plan h, readsBack_iff id spaces format⟩

/-- A rule of a plugin, in a document without a rules section. -/
theorem plan_entry_reads_back_iff_of_plugin :
    let s : Switch := ⟨"react/jsx-key".toList, "  ".toList, by decide, by decide⟩
    let i : Insertion := ⟨⟨0, 0⟩, "\nrules:\n  react/jsx-key: off\n".toList, ⟨1, 0⟩⟩
    plan [] .yaml s.rule s.indent = some i ∧
      (∃ front ∈ [[], lineEnding [], lineEnding [] ++ yamlKey ++ lineEnding []],
        i.text = front ++ (s.entry .yaml ++ lineEnding [])) ∧
      (s.ReadsBack .yaml ↔
        (Format.yaml = .yaml → s.rule.head? ≠ some '@' ∧ s.rule.length ≤ 1024)) ∧
      s.ReadsBack .yaml := by
  intro s i
  have planned : plan [] .yaml s.rule s.indent = some i := by decide
  obtain ⟨text, iff⟩ := plan_entry_reads_back_iff s (.inl (by decide)) (by decide) planned
  exact ⟨planned, text, iff, iff.mpr fun _ => by decide⟩

/-- The sign of a scope is reserved in YAML, and nothing that starts with it is a key. -/
theorem plan_entry_of_scope :
    let s : Switch :=
      ⟨"@typescript-eslint/no-explicit-any".toList, "  ".toList, by decide, by decide⟩
    IsRuleId s.rule ∧
      plan "rules:\n".toList .yaml s.rule s.indent =
        some ⟨⟨1, 0⟩, s.entry .yaml ++ ['\n'], ⟨1, 0⟩⟩ ∧
      ∀ key value, ¬ Yaml.IsEntry (s.entry .yaml) key value := by
  intro s
  have id : IsRuleId s.rule := .inr ⟨"typescript-eslint/no-explicit-any".toList, by decide, rfl⟩
  refine ⟨id, by decide, fun key value entry => ?_⟩
  exact ((isEntry_yaml_iff id (by decide) key value).mp entry).2.2.1 rfl

end RuleOff.Config
