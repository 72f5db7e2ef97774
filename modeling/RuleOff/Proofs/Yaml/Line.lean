import Mathlib.Data.List.Basic
import RuleOff.Text.Blank

/-!
# Entries of YAML mappings on one line

The lines of YAML that are an entry of a block mapping, with a plain scalar for the key and another
one for the value. What a plain scalar may hold depends on what stands next to it: a colon is a part
of it only in front of a word, and a number sign only behind one.

## Main definitions

* `Yaml.IsPlain`: a text is a plain scalar in front of another text.
* `Yaml.IsEntry`: a line is the entry with a key and a value.

## Main statements

* `Yaml.isEntry_iff`: a line of two words, with a colon and a space between them, is no entry but
  that of the two words, and is that one if they are plain.

## Design notes

The rules are those of version 1.2 for block mappings. The names of the productions are `ns-char`
for `isWord`, `ns-plain-first` for `startsPlain`, `nb-ns-plain-in-line` for `goesOn` and
`c-forbidden` for `isMarker`. A comment may hold any characters, so that more lines are entries here
than there, and a value that goes on in the next line is cut off.
-/

namespace RuleOff.Yaml

/-- The characters that can be seen, which leaves out white space and the byte order mark. -/
def wordRanges : List (Nat × Nat) :=
  [(0x21, 0x7E), (0x85, 0x85), (0xA0, 0xD7FF), (0xE000, 0xFEFE), (0xFF00, 0xFFFD),
   (0x10000, 0x10FFFF)]

def isWord (c : Char) : Bool := Text.inRanges wordRanges c.toNat

def isWhite (c : Char) : Bool := c == ' ' || c == '\t'

/-- The characters with a meaning of their own at the start of a node. Two of them are reserved. -/
def indicators : List Char := "-?:,[]\x7b\x7d#&*!|>'\"%@\x60".toList

/-- Whether a text starts with a word. -/
def wordFollows : Text → Bool
  | [] => false
  | c :: _ => isWord c

/-- Whether the character may start a plain scalar in front of a text. -/
def startsPlain (c : Char) (rest : Text) : Bool :=
  if c ∈ indicators then (c == '-' || c == '?' || c == ':') && wordFollows rest else isWord c

/-- Whether a plain scalar may go on with a text, behind a character and in front of a text. -/
def goesOn (after : Text) : Char → Text → Bool
  | last, [] => !isWhite last
  | last, c :: rest =>
    (if c = ':' then wordFollows (rest ++ after)
      else if c = '#' then isWord last
      else isWord c || isWhite c) && goesOn after c rest

/-- The text is a plain scalar of one line in front of another text. -/
def IsPlain (after : Text) : Text → Prop
  | [] => False
  | c :: rest => startsPlain c (rest ++ after) = true ∧ goesOn after c rest = true

instance (after : Text) : DecidablePred (IsPlain after)
  | [] => inferInstanceAs (Decidable False)
  | c :: rest =>
    inferInstanceAs (Decidable (startsPlain c (rest ++ after) = true ∧ goesOn after c rest = true))

/-- Whether the line starts or ends a document. -/
def isMarker (line : Text) : Bool :=
  ["---".toList, "...".toList].contains (line.takeWhile fun c => !isWhite c)

/-- White space with a comment or without. -/
inductive IsTrailing : Text → Prop
  | blank {t : Text} (white : ∀ c ∈ t, isWhite c = true) : IsTrailing t
  | comment {front : Text} (white : ∀ c ∈ front, isWhite c = true) (nonempty : front ≠ [])
    (t : Text) : IsTrailing (front ++ '#' :: t)

/-- The line is the entry with the key and the value, both plain scalars. The colon must come soon
behind the start of the key. -/
inductive IsEntry : Text → Text → Text → Prop
  | mk {indent key gap separation value trailing : Text} (spaces : ∀ c ∈ indent, c = ' ')
    (gap_white : ∀ c ∈ gap, isWhite c = true) (soon : (key ++ gap).length ≤ 1024)
    (separation_white : ∀ c ∈ separation, isWhite c = true) (separated : separation ≠ [])
    (trails : IsTrailing trailing)
    (plain_key : IsPlain (gap ++ ':' :: (separation ++ (value ++ trailing))) key)
    (plain_value : IsPlain trailing value)
    (no_marker : isMarker (indent ++ (key ++ gap ++ ':' :: (separation ++ (value ++ trailing)))) =
      false) :
    IsEntry (indent ++ (key ++ gap ++ ':' :: (separation ++ (value ++ trailing)))) key value

/-! ### Words -/

theorem isWhite_eq_false_of_isWord {c : Char} (word : isWord c = true) : isWhite c = false := by
  by_contra not_false
  have white := Bool.not_eq_false _ ▸ not_false
  rcases Bool.or_eq_true_iff.mp white with space | tab
  · rw [beq_iff_eq.mp space] at word
    exact absurd word (by decide)
  · rw [beq_iff_eq.mp tab] at word
    exact absurd word (by decide)

theorem isWhite_eq_false_of_startsPlain {c : Char} {rest : Text}
    (starts : startsPlain c rest = true) : isWhite c = false := by
  unfold startsPlain at starts
  by_cases indicator : c ∈ indicators
  · have none_white : ∀ c ∈ indicators, isWhite c = false := by decide
    exact none_white c indicator
  · rw [if_neg indicator] at starts
    exact isWhite_eq_false_of_isWord starts

/-- A text of words that stand together, without a colon or a number sign. -/
def IsBare (t : Text) : Prop := ∀ c ∈ t, isWord c = true ∧ c ≠ ':' ∧ c ≠ '#'

instance (t : Text) : Decidable (IsBare t) :=
  inferInstanceAs (Decidable (∀ c ∈ t, isWord c = true ∧ c ≠ ':' ∧ c ≠ '#'))

theorem IsBare.not_white {t : Text} (bare : IsBare t) {c : Char} (mem : c ∈ t) :
    isWhite c = false := isWhite_eq_false_of_isWord (bare c mem).1

/-- What starts a plain scalar, goes on in one. -/
theorem IsBare.goesOn {t : Text} (bare : IsBare t) (after : Text) {last : Char}
    (word : isWord last = true) : goesOn after last t = true := by
  induction t generalizing last with
  | nil =>
    show (!isWhite last) = true
    rw [isWhite_eq_false_of_isWord word]
    rfl
  | cons c rest ih =>
    obtain ⟨word_c, not_colon, not_sign⟩ := bare c List.mem_cons_self
    have later := ih (fun d mem => bare d (List.mem_cons_of_mem c mem)) word_c
    show ((if c = ':' then _ else if c = '#' then _ else isWord c || isWhite c) && _) = true
    rw [if_neg not_colon, if_neg not_sign, word_c, later]
    rfl

theorem IsBare.of_append {t u : Text} (bare : IsBare (t ++ u)) : IsBare t ∧ IsBare u :=
  ⟨fun c mem => bare c (List.mem_append_left u mem),
    fun c mem => bare c (List.mem_append_right t mem)⟩

theorem IsBare.eq_nil {t : Text} (bare : IsBare t) (white : ∀ c ∈ t, isWhite c = true) :
    t = [] := by
  rw [List.eq_nil_iff_forall_not_mem]
  intro c mem
  have not_white := bare.not_white mem
  rw [white c mem] at not_white
  exact Bool.noConfusion not_white

theorem IsTrailing.eq_nil {t : Text} (trails : IsTrailing t) (bare : IsBare t) : t = [] := by
  cases trails with
  | blank white => exact bare.eq_nil white
  | comment white nonempty t => exact absurd (bare.of_append.1.eq_nil white) nonempty

/-! ### Entries of two words -/

/-- The indentation ends where a text begins that is not white. -/
theorem dropWhile_spaces {indent t : Text} (spaces : ∀ c ∈ indent, c = ' ')
    (boundary : ∀ c ∈ t.head?, isWhite c = false) : (indent ++ t).dropWhile (· == ' ') = t := by
  have skipped : ∀ c ∈ indent, (c == ' ') = true := fun c mem => beq_iff_eq.mpr (spaces c mem)
  rw [List.dropWhile_append_of_pos skipped]
  cases t with
  | nil => rfl
  | cons c rest =>
    refine List.dropWhile_cons_of_neg fun space => ?_
    have not_white := boundary c rfl
    rw [beq_iff_eq.mp space] at not_white
    exact absurd not_white (by decide)

theorem IsPlain.head_not_white {after t more : Text} (plain : IsPlain after t) :
    ∀ c ∈ (t ++ more).head?, isWhite c = false := by
  cases t with
  | nil => exact plain.elim
  | cons c rest =>
    intro d first
    obtain rfl := Option.some.inj first
    exact isWhite_eq_false_of_startsPlain plain.1

theorem IsBare.head_not_white {t : Text} (bare : IsBare t) :
    ∀ c ∈ t.head?, isWhite c = false :=
  fun _ first => bare.not_white (List.mem_of_head? first)

/-- A line that starts with a word and a colon is no marker. -/
theorem isMarker_eq_false {indent key rest : Text} (spaces : ∀ c ∈ indent, c = ' ')
    (bare : IsBare key) : isMarker (indent ++ (key ++ ':' :: ' ' :: rest)) = false := by
  have unlike : ∀ m ∈ ["---".toList, "...".toList], m ≠ [] ∧ m.getLast? ≠ some ':' := by decide
  cases indent with
  | nil =>
    have front : ∀ c ∈ key ++ [':'], (!isWhite c) = true := by
      intro c mem
      rcases List.mem_append.mp mem with mem | mem
      · rw [bare.not_white mem]
        rfl
      · rw [List.mem_singleton.mp mem]
        rfl
    have cut : (key ++ ':' :: ' ' :: rest).takeWhile (fun c => !isWhite c) = key ++ [':'] := by
      rw [← List.singleton_append, ← List.append_assoc, List.takeWhile_append_of_pos front]
      exact List.append_nil _
    show ["---".toList, "...".toList].contains _ = false
    rw [List.nil_append, cut]
    by_contra found
    have mem := List.contains_iff_mem.mp (Bool.not_eq_false _ ▸ found)
    exact (unlike _ mem).2 List.getLast?_concat
  | cons c indent =>
    obtain rfl := spaces c List.mem_cons_self
    rfl

/-- A line of two bare words is an entry for no other key or value than these, and is one if both
are plain scalars where they stand. -/
theorem isEntry_iff {indent k v key value : Text} (spaces : ∀ c ∈ indent, c = ' ')
    (bare_k : IsBare k) (bare_v : IsBare v) :
    IsEntry (indent ++ (k ++ ':' :: ' ' :: v)) key value ↔
      key = k ∧ value = v ∧ IsPlain (':' :: ' ' :: v) k ∧ IsPlain [] v ∧ k.length ≤ 1024 := by
  constructor
  · intro entry
    generalize line_eq : indent ++ (k ++ ':' :: ' ' :: v) = line at entry
    obtain @⟨indent', key, gap, separation, value, trailing, spaces', gap_white, soon,
      separation_white, separated, trails, plain_key, plain_value, -⟩ := entry
    -- The line has one colon, which cuts it the same way in both forms.
    have no_colon_k : ':' ∉ indent ++ k := by
      intro mem
      rcases List.mem_append.mp mem with mem | mem
      · exact absurd (spaces _ mem) (by decide)
      · exact (bare_k _ mem).2.1 rfl
    have no_colon_v : ':' ∉ ' ' :: v := by
      intro mem
      rcases List.mem_cons.mp mem with space | mem
      · exact absurd space (by decide)
      · exact (bare_v _ mem).2.1 rfl
    rw [← List.append_assoc, ← List.append_assoc] at line_eq
    obtain ⟨front, -, behind⟩ :=
      (List.append_cons_inj_of_notMem no_colon_k no_colon_v).mp line_eq
    have key_eq := congrArg (List.dropWhile (· == ' ')) front
    rw [dropWhile_spaces spaces bare_k.head_not_white,
      dropWhile_spaces spaces' plain_key.head_not_white] at key_eq
    subst key_eq
    obtain rfl := bare_k.of_append.2.eq_nil gap_white
    cases separation with
    | nil => exact absurd rfl separated
    | cons c separation =>
      obtain ⟨rfl, rfl⟩ := List.cons.inj behind
      have more_white : ∀ c ∈ separation, isWhite c = true := fun c mem =>
        separation_white c (List.mem_cons_of_mem _ mem)
      obtain ⟨bare_separation, bare_rest⟩ := bare_v.of_append
      obtain rfl := bare_separation.eq_nil more_white
      obtain rfl := trails.eq_nil bare_rest.of_append.2
      exact ⟨by simp, by simp, by simpa using plain_key, by simpa using plain_value, soon⟩
  · rintro ⟨rfl, rfl, plain_key, plain_value, soon⟩
    have entry := @IsEntry.mk indent key [] [' '] value [] spaces (by simp) (by simpa) (by decide)
      (List.cons_ne_nil _ _) (.blank (by simp))
    simp only [List.append_nil, List.cons_append, List.nil_append] at entry
    exact entry plain_key plain_value (isMarker_eq_false spaces bare_k)

end RuleOff.Yaml
