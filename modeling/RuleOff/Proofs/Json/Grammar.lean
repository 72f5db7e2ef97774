import Mathlib.Data.List.TakeWhile
import RuleOff.Json.Parser
import RuleOff.Text.Blank

/-!
# The grammar of JSON

A JSON text is a list of tokens with space between them. Strings and scalars stay as they are
written, so nothing of the text is lost but the space.

## Main definitions

* `Json.Token`: the tokens, well-formed by their types.
* `Json.Written`: the texts of a list of tokens.

## Main statements

* `Json.Written.cut`: a cut of a text falls between two tokens or within one.
* `Json.Written.cut_newline`: a line feed ends between two tokens.
* `Json.written_iff`: whether a text is one of some tokens can be computed.
-/

namespace RuleOff.Json

/-! ### Tokens -/

/-- What may stand between the quotation marks of a string. -/
inductive IsStringBody : Text → Prop where
  | nil : IsStringBody []
  | plain {c : Char} {t : Text} (hquote : c ≠ '"') (hslash : c ≠ '\\')
      (hcontrol : 0x20 ≤ c.toNat) (h : IsStringBody t) : IsStringBody (c :: t)
  | letter {e : Char} {t : Text} (he : (letterEscape? e).isSome = true) (h : IsStringBody t) :
      IsStringBody ('\\' :: e :: t)
  | unicode {a b c d : Char} {t : Text}
      (hdigits : ∀ x ∈ [a, b, c, d], (Text.hexDigit? x).isSome = true) (h : IsStringBody t) :
      IsStringBody ('\\' :: 'u' :: a :: b :: c :: d :: t)

/-- At least one decimal digit and nothing else. -/
def IsDigits (t : Text) : Prop := t ≠ [] ∧ ∀ c ∈ t, c.isDigit = true

/-- A sign, a whole part without leading zeros, a fraction and an exponent, of which only the whole
part must be there. -/
inductive IsNumeral : Text → Prop where
  | mk {sign whole fraction exponent : Text} (hsign : sign = [] ∨ sign = ['-'])
      (hwhole : whole = ['0'] ∨ IsDigits whole ∧ whole.head? ≠ some '0')
      (hfraction : fraction = [] ∨ ∃ ds, IsDigits ds ∧ fraction = '.' :: ds)
      (hexponent : exponent = [] ∨ ∃ e s ds, (e = 'e' ∨ e = 'E') ∧
        (s = [] ∨ s = ['+'] ∨ s = ['-']) ∧ IsDigits ds ∧ exponent = e :: (s ++ ds)) :
      IsNumeral (sign ++ (whole ++ (fraction ++ exponent)))

/-- The words of the grammar. -/
def words : List Text := ["null".toList, "true".toList, "false".toList]

def IsScalar (t : Text) : Prop := t ∈ words ∨ IsNumeral t

/-- A string as it is written, without its quotation marks. -/
structure Quoted where
  body : Text
  valid : IsStringBody body

/-- A word or a number as it is written. -/
structure Scalar where
  text : Text
  valid : IsScalar text

inductive Mark where
  | openBrace
  | closeBrace
  | openBracket
  | closeBracket
  | comma
  | colon
deriving DecidableEq, Repr

def Mark.char : Mark → Char
  | openBrace => '\x7b'
  | closeBrace => '\x7d'
  | openBracket => '['
  | closeBracket => ']'
  | comma => ','
  | colon => ':'

inductive Token where
  | mark (m : Mark)
  | string (s : Quoted)
  | scalar (s : Scalar)

def Token.text : Token → Text
  | mark m => [m.char]
  | string s => '"' :: (s.body ++ ['"'])
  | scalar s => s.text

/-- A string that needs no escapes. -/
def Quoted.ofPlain (t : Text) (h : ∀ c ∈ t, c ≠ '"' ∧ c ≠ '\\' ∧ 0x20 ≤ c.toNat) : Quoted where
  body := t
  valid := by
    induction t with
    | nil => exact .nil
    | cons c t ih =>
      obtain ⟨hquote, hslash, hcontrol⟩ := h c List.mem_cons_self
      exact .plain hquote hslash hcontrol (ih fun d hd => h d (List.mem_cons_of_mem c hd))

/-! ### Characters of tokens -/

/-- The characters of words and numerals, and some more. -/
def isScalarChar (c : Char) : Bool := c.isAlphanum || c == '-' || c == '+' || c == '.'

theorem isBlank_of_isSpace {c : Char} (h : isSpace c = true) : Text.isBlank c = true := by
  simp only [isSpace, Bool.or_eq_true, beq_iff_eq] at h
  obtain ((rfl | rfl) | rfl) | rfl := h <;> decide

theorem toNat_of_isScalarChar {c : Char} (h : isScalarChar c = true) :
    0x20 < c.toNat ∧ c.toNat < 0x7b := by
  have hrange : ∀ a b : Char, 0x20 < a.toNat → b.toNat < 0x7b → a.val ≤ c.val → c.val ≤ b.val →
      0x20 < c.toNat ∧ c.toNat < 0x7b := by
    intro a b ha hb hac hcb
    exact ⟨Nat.lt_of_lt_of_le ha (UInt32.le_iff_toNat_le.1 hac),
      Nat.lt_of_le_of_lt (UInt32.le_iff_toNat_le.1 hcb) hb⟩
  simp only [isScalarChar, Char.isAlphanum, Bool.or_eq_true, beq_iff_eq] at h
  obtain (((h | h) | rfl) | rfl) | rfl := h
  · obtain h | h := Bool.or_eq_true_iff.1 h
    · obtain ⟨hlow, hhigh⟩ := of_decide_eq_true h
      exact hrange 'A' 'Z' (by decide) (by decide) hlow hhigh
    · obtain ⟨hlow, hhigh⟩ := Bool.and_eq_true_iff.1 h
      exact hrange 'a' 'z' (by decide) (by decide) (of_decide_eq_true hlow)
        (of_decide_eq_true hhigh)
  · obtain ⟨hlow, hhigh⟩ := Bool.and_eq_true_iff.1 h
    exact hrange '0' '9' (by decide) (by decide) (of_decide_eq_true hlow)
      (of_decide_eq_true hhigh)
  · decide
  · decide
  · decide

theorem isBlank_eq_false_of_isScalarChar {c : Char} (h : isScalarChar c = true) :
    Text.isBlank c = false := by
  obtain ⟨hlow, hhigh⟩ := toNat_of_isScalarChar h
  simp [Text.isBlank, Text.inRanges, Text.blankRanges]
  omega

theorem IsNumeral.cases_mem {t : Text} (h : IsNumeral t) {c : Char} (hc : c ∈ t) :
    c.isDigit = true ∨ c ∈ "-+.eE".toList := by
  obtain ⟨hsign, hwhole, hfraction, hexponent⟩ := h
  simp only [List.mem_append] at hc
  obtain hc | hc | hc | hc := hc
  · obtain rfl | rfl := hsign
    · exact absurd hc List.not_mem_nil
    · exact Or.inr (List.mem_singleton.1 hc ▸ by decide)
  · obtain rfl | ⟨hds, -⟩ := hwhole
    · exact Or.inl (List.mem_singleton.1 hc ▸ by decide)
    · exact Or.inl (hds.2 c hc)
  · obtain rfl | ⟨ds, hds, rfl⟩ := hfraction
    · exact absurd hc List.not_mem_nil
    · obtain rfl | hc := List.mem_cons.1 hc
      · exact Or.inr (by decide)
      · exact Or.inl (hds.2 c hc)
  · obtain rfl | ⟨e, s, ds, he, hs, hds, rfl⟩ := hexponent
    · exact absurd hc List.not_mem_nil
    · simp only [List.mem_cons, List.mem_append] at hc
      obtain rfl | hc | hc := hc
      · obtain rfl | rfl := he <;> exact Or.inr (by decide)
      · obtain rfl | rfl | rfl := hs
        · exact absurd hc List.not_mem_nil
        · exact Or.inr (List.mem_singleton.1 hc ▸ by decide)
        · exact Or.inr (List.mem_singleton.1 hc ▸ by decide)
      · exact Or.inl (hds.2 c hc)

theorem IsScalar.isScalarChar {t : Text} (h : IsScalar t) : ∀ c ∈ t, isScalarChar c = true := by
  intro c hc
  obtain hw | hn := h
  · have hall : ∀ w ∈ words, ∀ c ∈ w, Json.isScalarChar c = true := by decide
    exact hall t hw c hc
  · obtain hd | hs := hn.cases_mem hc
    · simp [Json.isScalarChar, Char.isAlphanum, hd]
    · have hall : ∀ c ∈ "-+.eE".toList, Json.isScalarChar c = true := by decide
      exact hall c hs

theorem IsScalar.ne_nil {t : Text} (h : IsScalar t) : t ≠ [] := by
  obtain hw | ⟨-, hwhole, -, -⟩ := h
  · rintro rfl
    exact absurd hw (by decide)
  · obtain rfl | ⟨hds, -⟩ := hwhole
    · simp
    · simp [hds.1]

theorem IsScalar.getLast?_ne {t : Text} (h : IsScalar t) : t.getLast? ≠ some 's' := by
  obtain hw | hn := h
  · have hall : ∀ w ∈ words, w.getLast? ≠ some 's' := by decide
    exact hall t hw
  · intro hs
    obtain hd | hs := hn.cases_mem (List.mem_of_getLast? hs)
    · exact absurd hd (by decide)
    · exact absurd hs (by decide)

theorem plain_of_hexDigit? {x : Char} (h : (Text.hexDigit? x).isSome = true) :
    x ≠ '"' ∧ x ≠ '\\' ∧ 0x20 ≤ x.toNat := by
  refine ⟨by rintro rfl; exact absurd h (by decide), by rintro rfl; exact absurd h (by decide), ?_⟩
  refine Nat.le_of_not_lt fun hlow => ?_
  have hnone : Text.hexDigit? x = none := by
    have hval : x.val.toNat < 0x20 := hlow
    simp only [Text.hexDigit?, Char.isDigit, Bool.and_eq_true, decide_eq_true_eq, Char.le_def,
      UInt32.le_iff_toNat_le, ge_iff_le]
    rw [if_neg, if_neg, if_neg]
    all_goals
      intro hrange
      have hlow := hrange.1
      simp at hlow
      omega
  rw [hnone] at h
  exact absurd h (by decide)

theorem control_of_letterEscape? {e : Char} (h : (letterEscape? e).isSome = true) :
    0x20 ≤ e.toNat := by
  unfold letterEscape? at h
  split at h
  any_goals decide
  exact absurd h (by decide)

/-- What a reader that only looks for the end of a string knows of it: an escape is a backslash and
one more character. -/
inductive IsEscaped : Text → Prop where
  | nil : IsEscaped []
  | plain {c : Char} {t : Text} (hquote : c ≠ '"') (hslash : c ≠ '\\')
      (hcontrol : 0x20 ≤ c.toNat) (h : IsEscaped t) : IsEscaped (c :: t)
  | escape {e : Char} {t : Text} (hcontrol : 0x20 ≤ e.toNat) (h : IsEscaped t) :
      IsEscaped ('\\' :: e :: t)

theorem IsStringBody.isEscaped {t : Text} (h : IsStringBody t) : IsEscaped t := by
  induction h with
  | nil => exact .nil
  | plain hquote hslash hcontrol _ ih => exact .plain hquote hslash hcontrol ih
  | letter he _ ih => exact .escape (control_of_letterEscape? he) ih
  | unicode hdigits _ ih =>
    -- The digits after `u` are plain characters.
    simp only [List.mem_cons, List.not_mem_nil, or_false, forall_eq_or_imp, forall_eq] at hdigits
    obtain ⟨ha, hb, hc, hd⟩ := hdigits
    have step : ∀ {x t}, (Text.hexDigit? x).isSome = true → IsEscaped t → IsEscaped (x :: t) := by
      intro x t hx ht
      obtain ⟨hquote, hslash, hcontrol⟩ := plain_of_hexDigit? hx
      exact .plain hquote hslash hcontrol ht
    exact .escape (by decide) (step ha (step hb (step hc (step hd ih))))

theorem IsEscaped.control {t : Text} (h : IsEscaped t) : ∀ c ∈ t, 0x20 ≤ c.toNat := by
  induction h with
  | nil => simp
  | plain _ _ hcontrol _ ih => simpa [hcontrol] using ih
  | escape hcontrol _ ih => simpa [hcontrol] using ih

/-- A quotation mark within a string is escaped. -/
theorem IsEscaped.getLast?_of_quote {front rest : Text} (h : IsEscaped (front ++ '"' :: rest)) :
    front.getLast? = some '\\' := by
  generalize ht : front ++ '"' :: rest = t at h
  induction h generalizing front with
  | nil => simp at ht
  | plain hquote _ _ _ ih =>
    cases front with
    | nil => exact absurd (List.cons.inj ht).1.symm hquote
    | cons d front => rw [List.getLast?_cons, ih (List.cons.inj ht).2, Option.getD_some]
  | escape _ _ ih =>
    match front, ht with
    | [_], ht => rw [(List.cons.inj ht).1]; rfl
    | _ :: _ :: front, ht =>
      have hlast := ih (List.cons.inj (List.cons.inj ht).2).2
      rw [List.getLast?_cons, List.getLast?_cons, hlast, Option.getD_some, Option.getD_some]

/-! ### Texts of tokens -/

namespace Token

theorem isBlank_char (m : Mark) : Text.isBlank m.char = false := by
  cases m <;> decide

/-- A token starts with a character that is no space. -/
theorem exists_text_eq_cons (k : Token) : ∃ c cs, k.text = c :: cs ∧ Text.isBlank c = false := by
  cases k with
  | mark m => exact ⟨m.char, [], rfl, isBlank_char m⟩
  | string s => exact ⟨'"', _, rfl, by decide⟩
  | scalar s =>
    obtain ⟨c, cs, hs⟩ := List.exists_cons_of_ne_nil s.valid.ne_nil
    have hc := s.valid.isScalarChar c (hs ▸ List.mem_cons_self)
    exact ⟨c, cs, hs, isBlank_eq_false_of_isScalarChar hc⟩

theorem text_ne_nil (k : Token) : k.text ≠ [] := by
  obtain ⟨c, cs, hk, -⟩ := k.exists_text_eq_cons
  simp [hk]

theorem control (k : Token) : ∀ c ∈ k.text, 0x20 ≤ c.toNat := by
  cases k with
  | mark m => cases m <;> decide
  | string s =>
    intro c hc
    simp only [text, List.mem_cons, List.mem_append, List.not_mem_nil, or_false] at hc
    obtain rfl | hc | rfl := hc
    · decide
    · exact s.valid.isEscaped.control c hc
    · decide
  | scalar s =>
    intro c hc
    exact Nat.le_of_lt (toNat_of_isScalarChar (s.valid.isScalarChar c hc)).1

theorem newline_notMem_text (k : Token) : '\n' ∉ k.text := fun h =>
  absurd (k.control '\n' h) (by decide)

theorem getLast?_text_ne (k : Token) : k.text.getLast? ≠ some 's' := by
  cases k with
  | mark m => cases m <;> decide
  | string s => simp [text, List.getLast?_cons]
  | scalar s => exact s.valid.getLast?_ne

/-- The only tokens that start like a mark are the mark itself. -/
theorem eq_mark_of_text {k : Token} {m : Mark} {cs : Text} (h : k.text = m.char :: cs) :
    k = .mark m ∧ cs = [] := by
  cases k with
  | mark n =>
    obtain ⟨hchar, rfl⟩ := List.cons.inj h
    refine ⟨?_, rfl⟩
    cases m <;> cases n <;> first | rfl | exact absurd hchar (by decide)
  | string s =>
    have hchar := (List.cons.inj h).1
    cases m <;> exact absurd hchar (by decide)
  | scalar s =>
    have hmem : m.char ∈ (scalar s).text := h ▸ List.mem_cons_self
    have hchar := s.valid.isScalarChar m.char hmem
    cases m <;> exact absurd hchar (by decide)

end Token

/-- The texts of some tokens: the tokens with any space around them. -/
inductive Written : List Token → Text → Prop where
  | nil : Written [] []
  | space {c : Char} {ts : List Token} {t : Text} (hc : isSpace c = true) (h : Written ts t) :
      Written ts (c :: t)
  | token (k : Token) {ts : List Token} {t : Text} (h : Written ts t) :
      Written (k :: ts) (k.text ++ t)

namespace Written

variable {ts us : List Token} {t a b : Text}

theorem append (ha : Written ts a) (hb : Written us b) : Written (ts ++ us) (a ++ b) := by
  induction ha with
  | nil => exact hb
  | space hc _ ih => exact .space hc ih
  | token k _ ih => simpa using Written.token k ih

theorem of_spaces (h : ∀ c ∈ t, isSpace c = true) : Written [] t := by
  induction t with
  | nil => exact .nil
  | cons c t ih =>
    exact .space (h c List.mem_cons_self) (ih fun d hd => h d (List.mem_cons_of_mem c hd))

theorem singleton (k : Token) : Written [k] k.text := by
  simpa using Written.token k Written.nil

/-- The text of two runs of tokens is that of the first and that of the second. -/
theorem exists_of_append (h : Written (ts ++ us) t) :
    ∃ a b, t = a ++ b ∧ Written ts a ∧ Written us b := by
  generalize hk : ts ++ us = ks at h
  induction h generalizing ts with
  | nil =>
    obtain ⟨rfl, rfl⟩ := List.append_eq_nil_iff.1 hk
    exact ⟨[], [], rfl, .nil, .nil⟩
  | @space c _ t hc h ih =>
    obtain ⟨a, b, rfl, ha, hb⟩ := ih hk
    exact ⟨c :: a, b, rfl, .space hc ha, hb⟩
  | @token k ks t h ih =>
    cases ts with
    | nil =>
      rw [List.nil_append] at hk
      exact ⟨[], k.text ++ t, rfl, .nil, hk ▸ .token k h⟩
    | cons l ts =>
      obtain ⟨rfl, hks⟩ := List.cons.inj hk
      obtain ⟨a, b, rfl, ha, hb⟩ := ih hks
      exact ⟨l.text ++ a, b, by simp, .token l ha, hb⟩

/-- Where a cut between two parts of a text falls. -/
inductive Cut : List Token → Text → Text → Prop where
  | between {ts us : List Token} {a b : Text} (ha : Written ts a) (hb : Written us b) :
      Cut (ts ++ us) a b
  | within {ts us : List Token} {k : Token} {a x y b : Text} (ha : Written ts a)
      (hb : Written us b) (hk : k.text = x ++ y) (hx : x ≠ []) (hy : y ≠ []) :
      Cut (ts ++ k :: us) (a ++ x) (y ++ b)

theorem Cut.space {c : Char} (hc : isSpace c = true) (h : Cut ts a b) : Cut ts (c :: a) b := by
  cases h with
  | between ha hb => exact .between (.space hc ha) hb
  | within ha hb hk hx hy => exact .within (.space hc ha) hb hk hx hy

theorem Cut.token (k : Token) (h : Cut ts a b) : Cut (k :: ts) (k.text ++ a) b := by
  cases h with
  | between ha hb => exact .between (.token k ha) hb
  | within ha hb hk hx hy =>
    rw [← List.append_assoc]
    exact .within (.token k ha) hb hk hx hy

/-- A cut of a text falls between two tokens or within one. -/
theorem cut (h : Written ts (a ++ b)) : Cut ts a b := by
  generalize ht : a ++ b = t at h
  induction h generalizing a with
  | nil =>
    obtain ⟨rfl, rfl⟩ := List.append_eq_nil_iff.1 ht
    exact .between .nil .nil
  | @space c ts t hc h ih =>
    cases a with
    | nil =>
      rw [List.nil_append] at ht
      exact ht ▸ .between .nil (.space hc h)
    | cons d a =>
      obtain ⟨rfl, hts⟩ := List.cons.inj ht
      exact (ih hts).space hc
  | @token k ts t h ih =>
    obtain ⟨y, hk, hb⟩ | ⟨x, ha, ht⟩ := List.append_eq_append_iff.1 ht
    · by_cases hnil : a = []
      · subst hnil
        have hall : b = k.text ++ t := ht
        exact hall ▸ .between .nil (.token k h)
      · by_cases hy : y = []
        · subst hy
          rw [hb, List.append_nil] at *
          exact hk ▸ .between (singleton k) h
        · rw [hb]
          exact .within .nil h hk hnil hy
    · rw [ha]
      exact (ih ht.symm).token k

/-- A line feed is in no token, so it ends between two. -/
theorem cut_newline (h : Written ts (a ++ '\n' :: b)) :
    ∃ us vs, ts = us ++ vs ∧ Written us (a ++ ['\n']) ∧ Written vs b := by
  have hcut : Cut ts (a ++ ['\n']) b := cut (by simpa using h)
  generalize hfront : a ++ ['\n'] = front at hcut
  cases hcut with
  | between ha hb => exact ⟨_, _, rfl, ha, hb⟩
  | @within _ _ k a' x y _ _ _ hk hx _ =>
    exfalso
    obtain ⟨x, c, rfl⟩ := (List.eq_nil_or_concat x).resolve_left hx
    rw [List.concat_eq_append, ← List.append_assoc] at hfront
    obtain rfl : '\n' = c := by simpa using (List.append_inj' hfront rfl).2
    exact k.newline_notMem_text (by simp [hk])

theorem of_blank_cons {c : Char} (h : Written ts (c :: t)) (hc : Text.isBlank c = true) :
    isSpace c = true ∧ Written ts t := by
  generalize hs : c :: t = s at h
  cases h with
  | nil => exact absurd hs (List.cons_ne_nil c t)
  | space hd h =>
    obtain ⟨rfl, rfl⟩ := List.cons.inj hs
    exact ⟨hd, h⟩
  | token k h =>
    obtain ⟨d, ds, hk, hd⟩ := k.exists_text_eq_cons
    rw [hk, List.cons_append] at hs
    rw [← (List.cons.inj hs).1, hc] at hd
    exact absurd hd (by decide)

/-- White space in front of tokens is no part of them. -/
theorem of_blanks_append (h : Written ts (a ++ b)) (ha : ∀ c ∈ a, Text.isBlank c = true) :
    Written [] a ∧ Written ts b := by
  induction a with
  | nil => exact ⟨.nil, h⟩
  | cons c a ih =>
    obtain ⟨hc, hrest⟩ := h.of_blank_cons (ha c List.mem_cons_self)
    obtain ⟨hleft, hright⟩ := ih hrest fun d hd => ha d (List.mem_cons_of_mem c hd)
    exact ⟨.space hc hleft, hright⟩

theorem eq_nil_of_blanks (h : Written ts a) (ha : ∀ c ∈ a, Text.isBlank c = true) : ts = [] := by
  have hnil : Written ts [] := (of_blanks_append (b := []) (by simpa using h) ha).2
  generalize hs : ([] : Text) = s at hnil
  cases hnil with
  | nil => rfl
  | space => exact absurd hs.symm (List.cons_ne_nil _ _)
  | token k => exact absurd (List.append_eq_nil_iff.1 hs.symm).1 k.text_ne_nil

/-- Only space stands in front of the first token. -/
theorem exists_of_token {k : Token} (h : Written (k :: ts) t) :
    ∃ spaces rest, t = spaces ++ (k.text ++ rest) ∧ Written [] spaces := by
  generalize hk : k :: ts = ks at h
  induction h with
  | nil => exact absurd hk (List.cons_ne_nil k ts)
  | @space c _ _ hc _ ih =>
    obtain ⟨spaces, rest, rfl, hspaces⟩ := ih hk
    exact ⟨c :: spaces, rest, rfl, .space hc hspaces⟩
  | @token l _ t =>
    obtain ⟨rfl, -⟩ := List.cons.inj hk
    exact ⟨[], t, rfl, .nil⟩

theorem of_token {k : Token} (h : Written (k :: ts) (k.text ++ t)) : Written ts t := by
  generalize hs : k.text ++ t = s at h
  cases h with
  | space hc h =>
    obtain ⟨d, ds, hk, hd⟩ := k.exists_text_eq_cons
    rw [hk, List.cons_append] at hs
    rw [(List.cons.inj hs).1, isBlank_of_isSpace hc] at hd
    exact absurd hd (by decide)
  | token _ h => exact List.append_cancel_left hs ▸ h

theorem of_mark {m : Mark} (h : Written ts (m.char :: t)) :
    ∃ us, ts = .mark m :: us ∧ Written us t := by
  generalize hs : m.char :: t = s at h
  cases h with
  | nil => exact absurd hs (List.cons_ne_nil _ t)
  | space hc h =>
    have hblank := isBlank_of_isSpace hc
    rw [← (List.cons.inj hs).1, Token.isBlank_char] at hblank
    exact absurd hblank (by decide)
  | @token k ts t' h =>
    obtain ⟨d, ds, hk, -⟩ := k.exists_text_eq_cons
    rw [hk, List.cons_append] at hs
    obtain ⟨rfl, rfl⟩ := List.cons.inj hs
    obtain ⟨rfl, rfl⟩ := Token.eq_mark_of_text hk
    exact ⟨ts, rfl, h⟩

theorem getLast?_ne (h : Written ts t) : t.getLast? ≠ some 's' := by
  induction h with
  | nil => simp
  | @space c _ t hc _ ih =>
    rw [List.getLast?_cons]
    cases ht : t.getLast? with
    | none =>
      rintro ⟨⟩
      exact absurd hc (by decide)
    | some d => rwa [ht] at ih
  | @token k _ t _ ih =>
    rw [List.getLast?_append]
    cases ht : t.getLast? with
    | none => exact k.getLast?_text_ne
    | some d => rwa [ht] at ih

/-- What follows the text of the first tokens is a text of the others. -/
theorem of_append (ha : Written ts a) (h : Written (ts ++ us) (a ++ b)) : Written us b := by
  induction ha with
  | nil => exact h
  | space hc _ ih => exact ih (of_blank_cons h (isBlank_of_isSpace hc)).2
  | token k _ ih => exact ih (of_token (by simpa using h))

end Written

/-- Computes whether the text is one of the tokens. -/
def checks : List Token → Text → Bool
  | [], t => t.all isSpace
  | k :: ts, t =>
    match Text.afterPrefix? k.text (skipSpace t) with
    | some rest => checks ts rest
    | none => false

theorem checks_cons_space {c : Char} (hc : isSpace c = true) (ts : List Token) (t : Text) :
    checks ts (c :: t) = checks ts t := by
  cases ts <;> simp [checks, skipSpace, hc]

theorem written_iff {ts : List Token} {t : Text} : Written ts t ↔ checks ts t = true := by
  constructor
  · intro h
    induction h with
    | nil => rfl
    | space hc _ ih => rw [checks_cons_space hc, ih]
    | @token k ts t _ ih =>
      obtain ⟨c, cs, hk, hc⟩ := k.exists_text_eq_cons
      have hspace : ¬ isSpace c = true := fun h => by
        rw [isBlank_of_isSpace h] at hc
        exact absurd hc (by decide)
      have hskip : skipSpace (k.text ++ t) = k.text ++ t := by
        rw [skipSpace, hk, List.cons_append, List.dropWhile_cons_of_neg hspace]
      rw [checks, hskip, Text.afterPrefix?_eq_some_iff.2 rfl]
      exact ih
  · intro h
    induction ts generalizing t with
    | nil => exact .of_spaces (by simpa [checks] using h)
    | cons k ts ih =>
      have hsplit : t = t.takeWhile isSpace ++ skipSpace t := List.takeWhile_append_dropWhile.symm
      rw [checks] at h
      split at h
      next rest hrest =>
        rw [Text.afterPrefix?_eq_some_iff] at hrest
        rw [hsplit, hrest]
        have hspaces : ∀ c ∈ t.takeWhile isSpace, isSpace c = true := fun c hc =>
          List.mem_takeWhile_imp hc
        exact (Written.of_spaces hspaces).append (.token k (ih h))
      next => exact absurd h (by decide)

instance (ts : List Token) (t : Text) : Decidable (Written ts t) :=
  decidable_of_iff (checks ts t = true) written_iff.symm

end RuleOff.Json
