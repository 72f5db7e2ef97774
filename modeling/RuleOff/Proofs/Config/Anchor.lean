import RuleOff.Config.Insertion
import RuleOff.Proofs.Config.Header

/-!
# The line that an entry follows

In JSON an entry follows the header. In YAML it follows the last mention of its namespace from the
header on, and the header where there is none. The search for that line is read here as a relation
between the lines and the number of the line.

## Main definitions

* `Config.IsLastMention`: the last line from a given one on that mentions a text.
* `Config.IsAnchor`: the line that an entry follows.

## Main statements

* `Config.isAnchor_yamlAnchor`: what the planner takes for the anchor is one.
* `Config.IsAnchor.le`, `Config.IsAnchor.lt_length`: it is a line from the header on.
-/

namespace RuleOff.Config

/-- No line from `start` on mentions the text. -/
def IsUnmentioned (needle : Text) (lines : List Text) (start : Nat) : Prop :=
  ∀ b l, start ≤ b → lines[b]? = some l → ¬ needle <:+: l

/-- Line `a` is the last of those from `start` on that mention the text. -/
structure IsLastMention (needle : Text) (lines : List Text) (start a : Nat) : Prop where
  le : start ≤ a
  mention : ∃ l, lines[a]? = some l ∧ needle <:+: l
  last : IsUnmentioned needle lines (a + 1)

/-- The entry for a rule follows line `a`, where the header is line `header`. -/
inductive IsAnchor (lines : List Text) (header : Nat) : Format → Text → Nat → Prop where
  | json (rule : Text) : IsAnchor lines header .json rule header
  /-- The rule has no namespace. -/
  | plain {rule : Text} (h : '/' ∉ rule) : IsAnchor lines header .yaml rule header
  | unmentioned {ns name : Text} (hns : '/' ∉ ns)
      (h : IsUnmentioned (ns ++ ['/']) lines header) :
      IsAnchor lines header .yaml (ns ++ '/' :: name) header
  | mentioned {ns name : Text} {a : Nat} (hns : '/' ∉ ns)
      (h : IsLastMention (ns ++ ['/']) lines header a) :
      IsAnchor lines header .yaml (ns ++ '/' :: name) a

theorem namespaceOf?_eq_none_iff {rule : Text} : namespaceOf? rule = none ↔ '/' ∉ rule := by
  simp [namespaceOf?]

theorem takeWhile_ne_slash {ns : Text} (h : '/' ∉ ns) (name : Text) :
    (ns ++ '/' :: name).takeWhile (· ≠ '/') = ns := by
  have hns : ∀ c ∈ ns, decide (c ≠ '/') = true := fun c hc =>
    decide_eq_true fun e => h (e ▸ hc)
  rw [List.takeWhile_append_of_pos hns, List.takeWhile_cons_of_neg (by simp), List.append_nil]

theorem namespaceOf?_eq_some_iff {rule ns : Text} :
    namespaceOf? rule = some ns ↔ '/' ∉ ns ∧ ∃ name, rule = ns ++ '/' :: name := by
  constructor
  · intro h
    unfold namespaceOf? at h
    split at h
    next hmem =>
      obtain ⟨front, name, rfl, hfront⟩ := List.eq_append_cons_of_mem hmem
      rw [takeWhile_ne_slash hfront, Option.some.injEq] at h
      subst h
      exact ⟨hfront, name, rfl⟩
    next => exact absurd h (by simp)
  · rintro ⟨hns, name, rfl⟩
    rw [namespaceOf?, if_pos (by simp), takeWhile_ne_slash hns]

theorem lastMention?_concat (needle : Text) (lines : List Text) (l : Text) (start : Nat) :
    lastMention? needle (lines ++ [l]) start =
      if start ≤ lines.length ∧ Text.occursIn needle l = true then some lines.length
      else lastMention? needle lines start := by
  have hdrop : (List.zipIdx [l] (0 + lines.length)).drop (start - lines.zipIdx.length) =
      if start ≤ lines.length then [(l, lines.length)] else [] := by
    split
    next hs => simp [Nat.sub_eq_zero_of_le hs]
    next hs =>
      simp
      omega
  unfold lastMention?
  rw [List.zipIdx_append, List.drop_append, hdrop, List.filter_append, List.getLast?_append]
  by_cases hs : start ≤ lines.length
  · by_cases ho : Text.occursIn needle l = true
    · rw [if_pos hs, if_pos ⟨hs, ho⟩, List.filter_cons_of_pos (by exact ho)]
      rfl
    · rw [if_pos hs, if_neg (fun h => ho h.2), List.filter_cons_of_neg (by exact ho)]
      rfl
  · rw [if_neg hs, if_neg (fun h => hs h.1)]
    rfl

theorem IsUnmentioned.concat {needle l : Text} {lines : List Text} {start : Nat}
    (h : IsUnmentioned needle lines start) (hl : ¬ (start ≤ lines.length ∧ needle <:+: l)) :
    IsUnmentioned needle (lines ++ [l]) start := by
  intro b k hb hk hin
  by_cases hlt : b < lines.length
  · exact h b k hb (by rwa [List.getElem?_append_left hlt] at hk) hin
  · have hbl : b < (lines ++ [l]).length := (List.getElem?_eq_some_iff.1 hk).1
    have hbe : b = lines.length := by
      rw [List.length_append, List.length_singleton] at hbl
      omega
    rw [hbe, List.getElem?_concat_length, Option.some.injEq] at hk
    exact hl ⟨by omega, hk ▸ hin⟩

theorem IsLastMention.concat {needle l : Text} {lines : List Text} {start a : Nat}
    (h : IsLastMention needle lines start a) (hl : ¬ (start ≤ lines.length ∧ needle <:+: l)) :
    IsLastMention needle (lines ++ [l]) start a := by
  obtain ⟨m, hm, hin⟩ := h.mention
  have ha : a < lines.length := (List.getElem?_eq_some_iff.1 hm).1
  have hle := h.le
  refine ⟨h.le, ⟨m, by rw [List.getElem?_append_left ha, hm], hin⟩, h.last.concat ?_⟩
  rintro ⟨-, hl'⟩
  exact hl ⟨by omega, hl'⟩

/-- The search answers the last mention, and nothing only if there is none. -/
theorem lastMention?_spec (needle : Text) (lines : List Text) (start : Nat) :
    match lastMention? needle lines start with
    | some a => IsLastMention needle lines start a
    | none => IsUnmentioned needle lines start := by
  -- The search answers the last hit, so the lines are taken away from the end.
  induction lines using List.reverseRecOn with
  | nil => simp [lastMention?, IsUnmentioned]
  | append_singleton lines l ih =>
    rw [lastMention?_concat]
    split_ifs with hl
    · obtain ⟨hs, ho⟩ := hl
      refine ⟨hs, ⟨l, List.getElem?_concat_length, Text.occursIn_iff.1 ho⟩, ?_⟩
      intro b k hb hk
      have hlt : b < (lines ++ [l]).length := (List.getElem?_eq_some_iff.1 hk).1
      rw [List.length_append, List.length_singleton] at hlt
      omega
    · rw [Text.occursIn_iff] at hl
      cases hm : lastMention? needle lines start with
      | some a =>
        rw [hm] at ih
        exact IsLastMention.concat ih hl
      | none =>
        rw [hm] at ih
        exact IsUnmentioned.concat ih hl

theorem isAnchor_yamlAnchor (lines : List Text) (header : Nat) (rule : Text) :
    IsAnchor lines header .yaml rule (yamlAnchor lines header rule) := by
  unfold yamlAnchor
  split
  next hns => exact .plain (namespaceOf?_eq_none_iff.1 hns)
  next ns hns =>
    obtain ⟨hslash, name, rfl⟩ := namespaceOf?_eq_some_iff.1 hns
    have hspec := lastMention?_spec (ns ++ ['/']) lines header
    split at hspec
    next a hm => rw [hm]; exact .mentioned hslash hspec
    next hm => rw [hm]; exact .unmentioned hslash hspec

namespace IsAnchor

variable {lines : List Text} {header a : Nat} {format : Format} {rule : Text}

theorem eq_header_of_json (h : IsAnchor lines header .json rule a) : a = header := by
  cases h
  rfl

theorem le (h : IsAnchor lines header format rule a) : header ≤ a := by
  cases h with
  | json | plain | unmentioned => exact le_rfl
  | mentioned _ hm => exact hm.le

theorem lt_length (h : IsAnchor lines header format rule a)
    (hh : findRulesHeader lines = some header) : a < lines.length := by
  cases h with
  | json | plain | unmentioned => exact findRulesHeader_lt_length hh
  | mentioned _ hm =>
    obtain ⟨l, hl, -⟩ := hm.mention
    exact (List.getElem?_eq_some_iff.1 hl).1

/-- An anchor is no empty line, whatever its ending: it holds a key or a slash. -/
theorem bare_ne_nil (h : IsAnchor lines header format rule a)
    (hh : findRulesHeader lines = some header) {l : Text} (hl : lines[a]? = some l) :
    Text.bare l ≠ [] := by
  have hheader : ∀ m, lines[header]? = some m → Text.bare m ≠ [] := by
    intro m hm hnil
    have hp := isRulesHeader_of_find hh hm
    rw [← isRulesHeader_bare, hnil] at hp
    exact absurd hp (by decide)
  cases h with
  | json | plain | unmentioned => exact hheader l hl
  | mentioned _ hm =>
    obtain ⟨m, hm, hin⟩ := hm.mention
    rw [hl, Option.some.injEq] at hm
    intro hnil
    have hslash : '/' ∈ l := by
      rw [hm]
      exact hin.mem (by simp)
    have hall := List.rdropWhile_eq_nil_iff.1 hnil '/' hslash
    exact absurd hall (by decide)

end IsAnchor

end RuleOff.Config
