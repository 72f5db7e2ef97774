import Mathlib.Data.List.Chain
import RuleOff.Proofs.Json.Tree

/-!
# The grammar is unambiguous

A text is one of at most one tree. Its tokens are found from the left: a mark is told by its
character, a string ends at the first quotation mark that is not escaped, and a word or a numeral
ends where a space or a mark follows, since no two of them are neighbours. The tree is found from
the tokens in the same way.

## Main statements

* `Json.Written.unique`: a text has one list of tokens.
* `Json.Tree.tokens_append_inj`: the tree at the beginning of some tokens is found again.
* `Json.ReadsAs.unique`: a text is one of at most one tree.
-/

namespace RuleOff.Json

/-! ### Tokens of a text -/

def Token.isMark : Token → Bool
  | mark _ => true
  | _ => false

/-- Of two neighbours at least one is a mark. -/
def Alternating (ts : List Token) : Prop :=
  ts.IsChain fun k l => k.isMark = true ∨ l.isMark = true

theorem Alternating.tail {k : Token} {ts : List Token} (h : Alternating (k :: ts)) :
    Alternating ts := by
  cases ts with
  | nil => exact .nil
  | cons l ts => exact (List.isChain_cons_cons.1 h).2

theorem Alternating.append_mark {ts us : List Token} (hts : Alternating ts) (hus : Alternating us)
    (m : Mark) : Alternating (ts ++ .mark m :: us) := by
  refine List.isChain_append.2 ⟨hts, ?_, ?_⟩
  · exact List.isChain_cons.2 ⟨fun _ _ => Or.inl rfl, hus⟩
  · intro k _ l hl
    obtain rfl : Token.mark m = l := by simpa using hl
    exact Or.inr rfl

/-- No string is the beginning of another with its quotation mark. -/
theorem IsEscaped.not_append_quote {t rest : Text} (h : IsEscaped t) :
    ¬ IsEscaped (t ++ '"' :: rest) := by
  induction h with
  | nil =>
    intro h
    cases h with
    | plain hquote => exact hquote rfl
  | @plain c t _ hslash _ _ ih =>
    intro h
    rw [List.cons_append] at h
    generalize t ++ '"' :: rest = u at h ih
    cases h with
    | plain _ _ _ h => exact ih h
    | escape => exact hslash rfl
  | escape _ _ ih =>
    intro h
    rw [List.cons_append, List.cons_append] at h
    cases h with
    | plain _ hslash => exact hslash rfl
    | escape _ h => exact ih h

theorem Quoted.eq_of_append {s s' : Quoted} {t t' : Text}
    (h : s.body ++ '"' :: t = s'.body ++ '"' :: t') : s = s' ∧ t = t' := by
  obtain ⟨body, valid⟩ := s
  obtain ⟨body', valid'⟩ := s'
  obtain ⟨c, rfl, hc⟩ | ⟨c, rfl, hc⟩ := List.append_eq_append_iff.1 h
  · cases c with
    | nil =>
      refine ⟨by simp, ?_⟩
      exact (List.cons.inj hc).2
    | cons d c =>
      obtain ⟨rfl, -⟩ := List.cons.inj hc
      exact absurd valid'.isEscaped valid.isEscaped.not_append_quote
  · cases c with
    | nil =>
      refine ⟨by simp, ?_⟩
      exact (List.cons.inj hc).2.symm
    | cons d c =>
      obtain ⟨rfl, -⟩ := List.cons.inj hc
      exact absurd valid.isEscaped valid'.isEscaped.not_append_quote

namespace Written

variable {ts us : List Token} {t : Text}

theorem exists_head {c : Char} (h : Written us (c :: t)) (hc : Text.isBlank c = false) :
    ∃ l ls rest, us = l :: ls ∧ c :: t = l.text ++ rest ∧ Written ls rest := by
  generalize hs : c :: t = s at h
  cases h with
  | nil => exact absurd hs (List.cons_ne_nil c t)
  | space hd h =>
    have hblank := isBlank_of_isSpace hd
    rw [← (List.cons.inj hs).1, hc] at hblank
    exact absurd hblank (by decide)
  | token l h => exact ⟨l, _, _, rfl, rfl, h⟩

/-- What follows a word or a numeral starts with neither. -/
theorem not_isScalarChar {s : Scalar} {c : Char} (h : Written ts (c :: t))
    (hts : Alternating (.scalar s :: ts)) : ¬ isScalarChar c = true := by
  intro hc
  obtain ⟨l, ls, rest, rfl, hl, -⟩ := h.exists_head (isBlank_eq_false_of_isScalarChar hc)
  obtain hmark | hmark := (List.isChain_cons_cons.1 hts).1
  · exact absurd hmark Bool.false_ne_true
  · cases l with
    | mark m =>
      rw [(List.cons.inj hl).1] at hc
      cases m <;> exact absurd hc (by decide)
    | string => exact absurd hmark Bool.false_ne_true
    | scalar => exact absurd hmark Bool.false_ne_true

theorem scalar_eq_of_append {s s' : Scalar} {t' : Text} (h : Written ts t) (h' : Written us t')
    (hts : Alternating (.scalar s :: ts)) (hus : Alternating (.scalar s' :: us))
    (ht : s.text ++ t = s'.text ++ t') : s = s' ∧ t = t' := by
  obtain ⟨text, valid⟩ := s
  obtain ⟨text', valid'⟩ := s'
  obtain ⟨c, rfl, rfl⟩ | ⟨c, rfl, rfl⟩ := List.append_eq_append_iff.1 ht
  · cases c with
    | nil => simp
    | cons d c =>
      have hd := valid'.isScalarChar d (by simp)
      exact absurd hd (h.not_isScalarChar hts)
  · cases c with
    | nil => simp
    | cons d c =>
      have hd := valid.isScalarChar d (by simp)
      exact absurd hd (h'.not_isScalarChar hus)

/-- The first token of a text is found again. -/
theorem exists_eq_cons {k : Token} (h : Written ts t) (h' : Written us (k.text ++ t))
    (hts : Alternating (k :: ts)) (hus : Alternating us) :
    ∃ ls, us = k :: ls ∧ Written ls t := by
  obtain ⟨c, cs, hk, hc⟩ := k.exists_text_eq_cons
  rw [hk, List.cons_append] at h'
  obtain ⟨l, ls, rest, rfl, hl, hrest⟩ := h'.exists_head hc
  have htext : k.text ++ t = l.text ++ rest := by rw [hk, ← hl, List.cons_append]
  have hquote : ∀ s : Scalar, ∀ cs, s.text ≠ '"' :: cs := fun s cs hs =>
    absurd (s.valid.isScalarChar '"' (hs ▸ List.mem_cons_self)) (by decide)
  cases k with
  | mark m =>
    obtain ⟨d, ds, hd, -⟩ := l.exists_text_eq_cons
    rw [hd] at htext
    obtain ⟨hchar, hds⟩ : m.char = d ∧ t = ds ++ rest := List.cons.inj htext
    obtain ⟨rfl, rfl⟩ := Token.eq_mark_of_text (hd.trans (by rw [← hchar]))
    exact ⟨ls, rfl, hds ▸ hrest⟩
  | string s =>
    cases l with
    | mark m => cases m <;> exact absurd (List.cons.inj htext).1 (by decide)
    | string s' =>
      have hbody : s.body ++ '"' :: t = s'.body ++ '"' :: rest := by
        simpa [Token.text] using htext
      obtain ⟨rfl, rfl⟩ := Quoted.eq_of_append hbody
      exact ⟨ls, rfl, hrest⟩
    | scalar s' =>
      obtain ⟨d, ds, hd⟩ := List.exists_cons_of_ne_nil s'.valid.ne_nil
      have hchar : '"' = d := by
        rw [Token.text, Token.text, hd] at htext
        exact (List.cons.inj htext).1
      exact absurd (hchar ▸ hd) (hquote s' ds)
  | scalar s =>
    cases l with
    | mark m =>
      have hchar : c = m.char := by
        rw [hk] at htext
        exact (List.cons.inj htext).1
      obtain ⟨hmark, -⟩ := Token.eq_mark_of_text (hchar ▸ hk)
      exact absurd hmark (by simp)
    | string s' =>
      have hchar : c = '"' := by
        rw [hk] at htext
        exact (List.cons.inj htext).1
      exact absurd (hchar ▸ hk) (hquote s cs)
    | scalar s' =>
      obtain ⟨rfl, rfl⟩ := scalar_eq_of_append h hrest hts hus htext
      exact ⟨ls, rfl, hrest⟩

/-- A text has one list of tokens. -/
theorem unique (h : Written ts t) (h' : Written us t) (hts : Alternating ts)
    (hus : Alternating us) : ts = us := by
  induction h generalizing us with
  | nil => exact (h'.eq_nil_of_blanks (by simp)).symm
  | space hc _ ih => exact ih (of_blank_cons h' (isBlank_of_isSpace hc)).2 hts hus
  | token k h ih =>
    obtain ⟨ls, rfl, hls⟩ := exists_eq_cons h h' hts hus
    rw [ih hls hts.tail hus.tail]

end Written

/-! ### The tree of some tokens -/

theorem alternating_separated {xs : List (List Token)} (h : ∀ x ∈ xs, Alternating x) :
    Alternating (separated xs) := by
  induction xs with
  | nil => exact .nil
  | cons x xs ih =>
    have hx := h x List.mem_cons_self
    have hxs := ih fun y hy => h y (List.mem_cons_of_mem x hy)
    cases xs with
    | nil => exact hx
    | cons y ys => exact hx.append_mark hxs .comma

theorem Tree.alternating_tokens (v : Tree) : Alternating v.tokens := by
  induction v using Tree.induction with
  | scalar s => exact .singleton _
  | string s => exact .singleton _
  | array items ih =>
    rw [tokens, itemTokens_eq_map]
    have hitems : Alternating (separated (items.map tokens)) :=
      alternating_separated (by simpa using ih)
    exact Alternating.append_mark .nil (hitems.append_mark .nil .closeBracket) .openBracket
  | object members ih =>
    rw [tokens, memberTokens_eq_map]
    have hmembers : Alternating (separated (members.map fun m => memberRun m.1 m.2.tokens)) := by
      refine alternating_separated fun x hx => ?_
      obtain ⟨m, hm, rfl⟩ := List.mem_map.1 hx
      have hkey : Alternating [.string m.1] := .singleton _
      exact hkey.append_mark (ih m hm) .colon
    exact Alternating.append_mark .nil (hmembers.append_mark .nil .closeBrace) .openBrace

section Enclosed

variable {α : Type} {run : α → List Token} {close : Mark} {xs ys : List α} {a b : List Token}

theorem following_inj (hclose : close ≠ .comma)
    (hread : ∀ x ∈ xs, ∀ y a b, run x ++ a = run y ++ b → x = y ∧ a = b)
    (h : following (xs.map run) ++ .mark close :: a = following (ys.map run) ++ .mark close :: b) :
    xs = ys ∧ a = b := by
  induction xs generalizing ys with
  | nil =>
    cases ys with
    | nil => exact ⟨rfl, (List.cons.inj h).2⟩
    | cons y ys => exact absurd (Token.mark.inj (List.cons.inj h).1) hclose
  | cons x xs ih =>
    cases ys with
    | nil => exact absurd (Token.mark.inj (List.cons.inj h).1).symm hclose
    | cons y ys =>
      have hruns : run x ++ (following (xs.map run) ++ .mark close :: a) =
          run y ++ (following (ys.map run) ++ .mark close :: b) := by
        simpa [following] using h
      obtain ⟨rfl, hrest⟩ := hread x List.mem_cons_self y _ _ hruns
      obtain ⟨rfl, rfl⟩ := ih (fun z hz => hread z (List.mem_cons_of_mem x hz)) hrest
      exact ⟨rfl, rfl⟩

/-- Runs between brackets are found again if each of them is, and none starts like the end. -/
theorem separated_inj (hclose : close ≠ .comma)
    (hread : ∀ x ∈ xs, ∀ y a b, run x ++ a = run y ++ b → x = y ∧ a = b)
    (hopen : ∀ x a b, run x ++ a ≠ .mark close :: b)
    (h : separated (xs.map run) ++ .mark close :: a = separated (ys.map run) ++ .mark close :: b) :
    xs = ys ∧ a = b := by
  cases xs with
  | nil =>
    cases ys with
    | nil => exact ⟨rfl, (List.cons.inj h).2⟩
    | cons y ys =>
      rw [List.map_cons, separated_cons, List.append_assoc] at h
      exact absurd h.symm (hopen y _ _)
  | cons x xs =>
    cases ys with
    | nil =>
      rw [List.map_cons, separated_cons, List.append_assoc] at h
      exact absurd h (hopen x _ _)
    | cons y ys =>
      rw [List.map_cons, List.map_cons, separated_cons, separated_cons, List.append_assoc,
        List.append_assoc] at h
      obtain ⟨rfl, hrest⟩ := hread x List.mem_cons_self y _ _ h
      obtain ⟨rfl, rfl⟩ :=
        following_inj hclose (fun z hz => hread z (List.mem_cons_of_mem x hz)) hrest
      exact ⟨rfl, rfl⟩

end Enclosed

theorem Tree.tokens_append_ne_close (v : Tree) (a b : List Token) :
    v.tokens ++ a ≠ .mark .closeBracket :: b := by
  cases v <;> simp [tokens]

/-- The tree at the beginning of some tokens is found again. -/
theorem Tree.tokens_append_inj {v w : Tree} {a b : List Token}
    (h : v.tokens ++ a = w.tokens ++ b) : v = w ∧ a = b := by
  induction v using Tree.induction generalizing w a b with
  | scalar s => cases w <;> simp_all [tokens]
  | string s => cases w <;> simp_all [tokens]
  | array items ih =>
    cases w with
    | scalar => simp [tokens] at h
    | string => simp [tokens] at h
    | object => simp [tokens] at h
    | array items' =>
      rw [tokens, tokens, itemTokens_eq_map, itemTokens_eq_map] at h
      simp only [List.cons_append, List.append_assoc, List.nil_append, List.cons.injEq,
        true_and] at h
      obtain ⟨rfl, rfl⟩ := separated_inj (by decide) (fun v hv w a b => ih v hv)
        tokens_append_ne_close h
      exact ⟨rfl, rfl⟩
  | object members ih =>
    cases w with
    | scalar => simp [tokens] at h
    | string => simp [tokens] at h
    | array => simp [tokens] at h
    | object members' =>
      rw [tokens, tokens, memberTokens_eq_map, memberTokens_eq_map] at h
      simp only [List.cons_append, List.append_assoc, List.nil_append, List.cons.injEq,
        true_and] at h
      have hread : ∀ m ∈ members, ∀ (n : Quoted × Tree) a b,
          memberRun m.1 m.2.tokens ++ a = memberRun n.1 n.2.tokens ++ b → m = n ∧ a = b := by
        intro m hm n a b h
        simp only [memberRun, List.cons_append, List.cons.injEq, Token.string.injEq,
          true_and] at h
        obtain ⟨hvalue, rfl⟩ := ih m hm h.2
        exact ⟨Prod.ext h.1 hvalue, rfl⟩
      obtain ⟨rfl, rfl⟩ := separated_inj (by decide) hread (by simp [memberRun]) h
      exact ⟨rfl, rfl⟩

/-- A text is one of at most one tree. -/
theorem ReadsAs.unique {t : Text} {v w : Tree} (hv : ReadsAs t v) (hw : ReadsAs t w) : v = w := by
  have htokens := Written.unique hv hw v.alternating_tokens w.alternating_tokens
  exact (Tree.tokens_append_inj (a := []) (b := []) (by rw [htokens])).1

end RuleOff.Json
