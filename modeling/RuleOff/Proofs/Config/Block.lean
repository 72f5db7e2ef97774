import RuleOff.Proofs.Config.WholeLines

/-!
# Where the rules section ends in YAML

The lines below a header that are indented, empty or comments belong to its section. The search for
the namespace of a rule does not stop where they end, so an entry leaves its section exactly if the
namespace is mentioned behind it.

## Main definitions

* `Config.inBlock`: whether a line below a header belongs to its section.
* `Config.blockEnd`: the first line below a header that does not.

## Main statements

* `Config.plan_in_block_iff`: when an entry stays within its section.
* `Config.plan_behind_block`: an entry that does not.
-/

namespace RuleOff.Config

/-- Whether a line below a header at the margin belongs to its section: it is blank, a comment, or
starts with a space or a tab. -/
def inBlock (l : Text) : Bool :=
  l.all Text.isBlank || l.head?.any fun c => c == '#' || c == ' ' || c == '\t'

/-- The number of the first line below the header that does not belong to its section, or the
number of lines. -/
def blockEnd (lines : List Text) (header : Nat) : Nat :=
  header + 1 + (lines.drop (header + 1)).findIdx fun l => !inBlock l

/-- A carriage return is a blank, so the ending of a line does not count. -/
theorem inBlock_append_return (l : Text) : inBlock (l ++ ['\r']) = inBlock l := by
  cases l with
  | nil => decide
  | cons c cs =>
    have hreturn : Text.isBlank '\r' = true := by decide
    simp [inBlock, hreturn]

theorem inBlock_append_returnOf (l t : Text) : inBlock (l ++ returnOf t) = inBlock l := by
  unfold returnOf
  split
  · exact inBlock_append_return l
  · rw [List.append_nil]

variable {lines : List Text} {header a : Nat}

/-- A line from the header on is in front of the end of the section if and only if all lines
between the two, and the line itself, belong to the section. -/
theorem lt_blockEnd_iff (hle : header ≤ a) (hlt : a < lines.length) :
    a < blockEnd lines header ↔
      ∀ b l, header < b → b ≤ a → lines[b]? = some l → inBlock l = true := by
  obtain rfl | ⟨k, rfl⟩ : a = header ∨ ∃ k, a = header + 1 + k := by
    by_cases h : a = header
    · exact Or.inl h
    · exact Or.inr ⟨a - (header + 1), by omega⟩
  · constructor
    · intro _ b l hb hba
      omega
    · intro _
      unfold blockEnd
      omega
  · have hk : k < (lines.drop (header + 1)).length := by
      rw [List.length_drop]
      omega
    have hend : header + 1 + k < blockEnd lines header ↔
        k < (lines.drop (header + 1)).findIdx fun l => !inBlock l := by
      unfold blockEnd
      omega
    rw [hend, List.lt_findIdx_iff]
    constructor
    · rintro ⟨_, hall⟩ b l hb hba hl
      obtain ⟨j, rfl⟩ : ∃ j, b = header + 1 + j := ⟨b - (header + 1), by omega⟩
      have hj := hall j (by omega)
      obtain ⟨hblt, rfl⟩ := List.getElem?_eq_some_iff.1 hl
      simpa using hj
    · intro hall
      refine ⟨hk, fun j hj => ?_⟩
      rw [List.length_drop] at hk
      have hget : lines[header + 1 + j]? = some (lines.drop (header + 1))[j] := by
        rw [List.getElem_drop]
        exact List.getElem?_eq_getElem _
      rw [hall _ _ (by omega) (by omega) hget]
      rfl

/-- The line that an entry follows is in the section if and only if the namespace of the rule is
mentioned nowhere behind it. -/
theorem IsAnchor.lt_blockEnd_iff {rule : Text} (h : IsAnchor lines header .yaml rule a) :
    a < blockEnd lines header ↔
      ∀ ns, namespaceOf? rule = some ns →
        IsUnmentioned (ns ++ ['/']) lines (blockEnd lines header) := by
  have hheader : header < blockEnd lines header := by
    unfold blockEnd
    omega
  have hns : ∀ {ns name : Text}, '/' ∉ ns → namespaceOf? (ns ++ '/' :: name) = some ns :=
    fun hslash => namespaceOf?_eq_some_iff.2 ⟨hslash, _, rfl⟩
  cases h with
  | plain hslash =>
    refine ⟨fun _ ns hsome => ?_, fun _ => hheader⟩
    rw [namespaceOf?_eq_none_iff.2 hslash] at hsome
    exact absurd hsome (by simp)
  | unmentioned hslash hnone =>
    refine ⟨fun _ ns hsome => ?_, fun _ => hheader⟩
    obtain rfl := Option.some.inj ((hns hslash).symm.trans hsome)
    intro b l hb
    exact hnone b l (by omega)
  | mentioned hslash hlast =>
    constructor
    · intro hlt ns hsome
      obtain rfl := Option.some.inj ((hns hslash).symm.trans hsome)
      intro b l hb
      exact hlast.last b l (by omega)
    · intro hall
      refine Nat.lt_of_not_le fun hle => ?_
      obtain ⟨l, hl, hin⟩ := hlast.mention
      exact hall _ (hns hslash) a l hle hl hin

theorem LineChange.exists_anchor {format : Format} {s : Switch} {t : Text} {R : List Text} {n : Nat}
    (h : LineChange format s t R n) (hheader : findRulesHeader (Text.lines t) = some header) :
    ∃ a, IsAnchor (Text.lines t) header format s.rule a ∧ n = a + 1 := by
  cases h with
  | inside _ _ hheader' hanchor =>
    obtain rfl := Option.some.inj (hheader'.symm.trans hheader)
    exact ⟨_, hanchor, rfl⟩
  | atEnd _ hheader' hanchor =>
    obtain rfl := Option.some.inj (hheader'.symm.trans hheader)
    exact ⟨_, hanchor, rfl⟩
  | newSection _ _ hnone => exact absurd (hnone.symm.trans hheader) (by simp)

/-- Above the cursor the lines stay what they are, but for the ending of the last line. -/
theorem LineChange.getElem?_of_lt {format : Format} {s : Switch} {t : Text} {R : List Text}
    {n b : Nat} (h : LineChange format s t R n) (hb : b < n) :
    R[b]? = (Text.lines t)[b]? ∨
      ∃ l, (Text.lines t)[b]? = some l ∧ R[b]? = some (l ++ returnOf t) := by
  have hcases : ∀ {front more : List Text} {last : Text}, Text.lines t = front ++ [last] →
      b < front.length + 1 → (front ++ (last ++ returnOf t) :: more)[b]? = (Text.lines t)[b]? ∨
        ∃ l, (Text.lines t)[b]? = some l ∧
          (front ++ (last ++ returnOf t) :: more)[b]? = some (l ++ returnOf t) := by
    intro front more last hlines hlt
    by_cases hbe : b = front.length
    · subst hbe
      exact Or.inr ⟨last, by simp [hlines], by simp⟩
    · left
      rw [hlines, List.getElem?_append_left (by omega), List.getElem?_append_left (by omega)]
  cases h with
  | inside hlines _ _ _ hlength =>
    left
    rw [hlines, List.getElem?_append_left (by omega), List.getElem?_append_left (by omega)]
  | atEnd hlines _ _ hlength => exact hcases hlines (by omega)
  | newSection hlines => exact hcases hlines hb

theorem LineChange.map_inBlock {format : Format} {s : Switch} {t : Text} {R : List Text}
    {n b : Nat} (h : LineChange format s t R n) (hb : b < n) :
    R[b]?.map inBlock = (Text.lines t)[b]?.map inBlock := by
  obtain hsame | ⟨l, hl, hreturn⟩ := h.getElem?_of_lt hb
  · rw [hsame]
  · rw [hl, hreturn, Option.map_some, Option.map_some, inBlock_append_returnOf]

/-- The line of a YAML entry is below the header. The lines between the two belong to the section
if and only if no line from the end of the section on mentions the namespace of the rule, which
holds in particular of a rule without one. -/
theorem plan_in_block_iff (s : Switch) {t : Text} (ht : t.Addressable)
    (hheader : findRulesHeader (Text.lines t) = some header) :
    ∃ i, plan t .yaml s.rule s.indent = some i ∧ header < i.cursor.line.toNat ∧
      (Text.lines (Text.splice t i.position i.text))[i.cursor.line.toNat]? =
        some (s.entry .yaml ++ returnOf t) ∧
      ((∀ b l, header < b → b < i.cursor.line.toNat →
          (Text.lines (Text.splice t i.position i.text))[b]? = some l → inBlock l = true) ↔
        ∀ ns, namespaceOf? s.rule = some ns →
          IsUnmentioned (ns ++ ['/']) (Text.lines t) (blockEnd (Text.lines t) header)) := by
  obtain ⟨_, -, hplan⟩ := exists_plan_of_header s .yaml hheader
  have hchange := (addsLines_of_plan ht hplan).change
  obtain ⟨a, hanchor, hcursor⟩ := hchange.exists_anchor hheader
  have hle := hanchor.le
  refine ⟨_, hplan, by omega, ?_, ?_⟩
  · rw [hchange.getElem?_cursor, hheader]
    rfl
  · rw [← hanchor.lt_blockEnd_iff, lt_blockEnd_iff hle (hanchor.lt_length hheader)]
    -- The same numbers on both sides, and lines that differ by their endings.
    constructor
    · intro hall b l hb hba hl
      have hmap := hchange.map_inBlock (b := b) (by omega)
      rw [hl, Option.map_some, Option.map_eq_some_iff] at hmap
      obtain ⟨l', hl', hblock⟩ := hmap
      exact hblock ▸ hall b l' hb (by omega) hl'
    · intro hall b l hb hba hl
      have hmap := hchange.map_inBlock (b := b) (by omega)
      rw [hl, Option.map_some, eq_comm, Option.map_eq_some_iff] at hmap
      obtain ⟨l', hl', hblock⟩ := hmap
      exact hblock ▸ hall b l' hb (by omega) hl'

/-- A section of three lines, the last of them a comment, with another key behind it. -/
theorem plan_in_block_iff_with_comment :
    let s : Switch := ⟨"a/d".toList, [' '], by decide, by decide⟩
    let t := "rules:\n a/b: off\n\n# a/c\np: x/y".toList
    let i : Insertion := ⟨⟨4, 0⟩, " a/d: off\n".toList, ⟨4, 0⟩⟩
    plan t .yaml s.rule s.indent = some i ∧ blockEnd (Text.lines t) 0 = 4 ∧
      ∀ b l, 0 < b → b < 4 → (Text.lines (Text.splice t i.position i.text))[b]? = some l →
        inBlock l = true := by
  intro s t i
  have ht : Text.Addressable t := ⟨by decide, by decide⟩
  have hplan : plan t .yaml s.rule s.indent = some i := by decide
  have hend : blockEnd (Text.lines t) 0 = 4 := by decide
  have hheader : findRulesHeader (Text.lines t) = some 0 := by decide
  obtain ⟨j, hj, -, -, hiff⟩ := plan_in_block_iff s ht hheader
  obtain rfl := Option.some.inj (hplan.symm.trans hj)
  refine ⟨hplan, hend, hiff.2 fun ns hns b l hb hl => ?_⟩
  obtain rfl : "a".toList = ns := Option.some.inj hns
  have hlast : b = 4 := by
    have hlt : b < 5 := (List.getElem?_eq_some_iff.1 hl).1
    omega
  subst hlast
  obtain rfl : "p: x/y".toList = l := Option.some.inj hl
  rw [← Text.occursIn_iff]
  decide

/-- Where another key behind the section mentions the namespace, the entry follows it there. -/
theorem plan_behind_block :
    let s : Switch := ⟨"a/d".toList, [' '], by decide, by decide⟩
    let t := "rules:\n a/b: off\np: a/c\n".toList
    let i : Insertion := ⟨⟨3, 0⟩, " a/d: off\n".toList, ⟨3, 0⟩⟩
    (Text.lines t)[0]? = some yamlKey ∧ findRulesHeader (Text.lines t) = some 0 ∧
      plan t .yaml s.rule s.indent = some i ∧
      Text.lines (Text.splice t i.position i.text) =
        [yamlKey, " a/b: off".toList, "p: a/c".toList, s.entry .yaml, []] ∧
      inBlock "p: a/c".toList = false := by
  decide

end RuleOff.Config
