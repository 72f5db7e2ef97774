import RuleOff.Proofs.Json.Tree

/-!
# How deep a place lies

The depth of a place in a text is the number of brackets that are open there. It is counted on the
tokens, or on the characters with an eye on the quotation marks, and both counts agree. The tokens
of a tree leave the depth as it was, and this tells the brackets of an object from those within it.

## Main definitions

* `Json.depth?`, `Json.scan`: the depth behind some tokens, and behind some characters.
* `Json.IsBalanced`: a text that closes what it opens, and nothing else.
* `Json.Place.Within`: a cut of a text within an object, at the level of its members.

## Main statements

* `Json.Written.scan_eq`: the counts on tokens and on characters agree.
* `Json.depth?_tokens`: the tokens of a tree leave the depth as it was.
* `Json.within_iff`: a cut is within an object if the text from its brace on is balanced.
-/

namespace RuleOff.Json

/-- The depth behind a mark. At depth zero nothing can be closed. -/
def Mark.enter (d : Nat) : Mark → Option Nat
  | openBrace | openBracket => some (d + 1)
  | closeBrace | closeBracket => if d = 0 then none else some (d - 1)
  | comma | colon => some d

def Token.enter (d : Nat) : Token → Option Nat
  | mark m => m.enter d
  | _ => some d

/-- The depth behind some tokens. -/
def depth? (d : Nat) (ts : List Token) : Option Nat := ts.foldlM Token.enter d

/-- Where a reader of single characters stands: outside of strings, within one, or in one just
behind a backslash. -/
inductive Mode where
  | outside
  | inside
  | escaped
deriving DecidableEq, Repr

def scanChar : Mode × Nat → Char → Option (Mode × Nat)
  | (.outside, d), c =>
    if c = '"' then some (.inside, d)
    else if c = '\x7b' ∨ c = '[' then some (.outside, d + 1)
    else if c = '\x7d' ∨ c = ']' then if d = 0 then none else some (.outside, d - 1)
    else some (.outside, d)
  | (.inside, d), c =>
    if c = '"' then some (.outside, d)
    else if c = '\\' then some (.escaped, d)
    else some (.inside, d)
  | (.escaped, d), _ => some (.inside, d)

/-- The depth behind some characters. -/
def scan (t : Text) (m : Mode × Nat) : Option (Mode × Nat) := t.foldlM scanChar m

/-- Outside of its strings, the text closes the brackets that it opens and no others. -/
def IsBalanced (t : Text) : Prop := scan t (.outside, 0) = some (.outside, 0)

instance (t : Text) : Decidable (IsBalanced t) :=
  inferInstanceAs (Decidable (scan t (.outside, 0) = some (.outside, 0)))

@[simp] theorem depth?_nil (d : Nat) : depth? d [] = some d := rfl

@[simp] theorem depth?_cons (d : Nat) (k : Token) (ts : List Token) :
    depth? d (k :: ts) = (k.enter d).bind (depth? · ts) := rfl

theorem depth?_append (d : Nat) (ts us : List Token) :
    depth? d (ts ++ us) = (depth? d ts).bind (depth? · us) :=
  List.foldlM_append

@[simp] theorem scan_nil (m : Mode × Nat) : scan [] m = some m := rfl

@[simp] theorem scan_cons (c : Char) (t : Text) (m : Mode × Nat) :
    scan (c :: t) m = (scanChar m c).bind (scan t) := rfl

theorem scan_append (t u : Text) (m : Mode × Nat) :
    scan (t ++ u) m = (scan t m).bind (scan u) :=
  List.foldlM_append

/-! ### Characters and tokens -/

/-- The characters that the count takes notice of outside of strings. -/
def isCounted (c : Char) : Bool :=
  c == '"' || c == '\x7b' || c == '[' || c == '\x7d' || c == ']'

theorem scan_uncounted {t : Text} (d : Nat) (h : ∀ c ∈ t, isCounted c = false) :
    scan t (.outside, d) = some (.outside, d) := by
  induction t with
  | nil => rfl
  | cons c t ih =>
    have hc : scanChar (.outside, d) c = some (.outside, d) := by
      have hcounted := h c List.mem_cons_self
      simp only [isCounted, Bool.or_eq_false_iff, beq_eq_false_iff_ne] at hcounted
      obtain ⟨⟨⟨⟨hquote, hbrace⟩, hbracket⟩, hbrace'⟩, hbracket'⟩ := hcounted
      simp [scanChar, hquote, hbrace, hbracket, hbrace', hbracket']
    rw [scan_cons, hc, Option.bind_some]
    exact ih fun e he => h e (List.mem_cons_of_mem c he)

theorem isCounted_eq_false {p : Char → Bool} {c : Char} (h : p c = true)
    (hp : ∀ d ∈ ['"', '\x7b', '[', '\x7d', ']'], p d = false) : isCounted c = false := by
  refine Bool.eq_false_iff.2 fun hcounted => ?_
  simp only [isCounted, Bool.or_eq_true, beq_iff_eq] at hcounted
  have hfalse := hp c (by simpa [or_assoc] using hcounted)
  rw [h] at hfalse
  exact absurd hfalse (by decide)

/-- A string without its quotation marks does not end. -/
theorem IsEscaped.scan_eq {t : Text} (h : IsEscaped t) (d : Nat) :
    scan t (.inside, d) = some (.inside, d) := by
  induction h with
  | nil => rfl
  | plain hquote hslash _ _ ih => simpa [scanChar, hquote, hslash] using ih
  | escape _ _ ih => simpa [scanChar] using ih

theorem Token.scan_eq (k : Token) (d : Nat) :
    scan k.text (.outside, d) = (k.enter d).map (Mode.outside, ·) := by
  cases k with
  | mark m =>
    cases m
    case closeBrace | closeBracket =>
      by_cases hd : d = 0 <;> simp [text, enter, Mark.enter, Mark.char, scanChar, hd]
    all_goals simp [text, enter, Mark.enter, Mark.char, scanChar]
  | string s =>
    have hbody := s.valid.isEscaped.scan_eq d
    simp [text, enter, scan_append, scanChar, hbody]
  | scalar s =>
    exact scan_uncounted d fun c hc =>
      isCounted_eq_false (s.valid.isScalarChar c hc) (by decide)

/-- The depth behind the text of some tokens is that behind the tokens. -/
theorem Written.scan_eq {ts : List Token} {t : Text} (h : Written ts t) (d : Nat) :
    scan t (.outside, d) = (depth? d ts).map (Mode.outside, ·) := by
  induction h generalizing d with
  | nil => rfl
  | @space c ts t hc _ ih =>
    have hspace : scan [c] (.outside, d) = some (.outside, d) :=
      scan_uncounted d fun e he =>
        isCounted_eq_false (p := isSpace) (List.mem_singleton.1 he ▸ hc) (by decide)
    have happend := scan_append [c] t (.outside, d)
    rw [hspace, Option.bind_some, ih] at happend
    exact happend
  | token k _ ih =>
    rw [scan_append, k.scan_eq, depth?_cons]
    cases k.enter d with
    | none => rfl
    | some e => exact ih e

theorem Written.isBalanced_iff {ts : List Token} {t : Text} (h : Written ts t) :
    IsBalanced t ↔ depth? 0 ts = some 0 := by
  rw [IsBalanced, h.scan_eq]
  simp

/-! ### Trees -/

theorem depth?_separated {xs : List (List Token)} {d : Nat}
    (h : ∀ x ∈ xs, depth? d x = some d) : depth? d (separated xs) = some d := by
  induction xs with
  | nil => rfl
  | cons x xs ih =>
    have hx := h x List.mem_cons_self
    have hxs := ih fun y hy => h y (List.mem_cons_of_mem x hy)
    cases xs with
    | nil => exact hx
    | cons y ys => simpa [separated, depth?_append, hx, Token.enter, Mark.enter] using hxs

theorem depth?_memberRun (key : Quoted) (value : List Token) (d : Nat) :
    depth? d (memberRun key value) = depth? d value := by
  simp [memberRun, Token.enter, Mark.enter]

/-- The tokens of a tree leave the depth as it was. -/
theorem depth?_tokens (v : Tree) (d : Nat) : depth? d v.tokens = some d := by
  induction v using Tree.induction generalizing d with
  | scalar s => rfl
  | string s => rfl
  | array items ih =>
    have hitems : depth? (d + 1) (separated (itemTokens items)) = some (d + 1) := by
      refine depth?_separated fun x hx => ?_
      rw [itemTokens_eq_map] at hx
      obtain ⟨v, hv, rfl⟩ := List.mem_map.1 hx
      exact ih v hv (d + 1)
    simp [Tree.tokens, depth?_append, hitems, Token.enter, Mark.enter]
  | object members ih =>
    have hmembers : depth? (d + 1) (separated (memberTokens members)) = some (d + 1) := by
      refine depth?_separated fun x hx => ?_
      rw [memberTokens_eq_map] at hx
      obtain ⟨m, hm, rfl⟩ := List.mem_map.1 hx
      rw [depth?_memberRun]
      exact ih m hm (d + 1)
    simp [Tree.tokens, depth?_append, hmembers, Token.enter, Mark.enter]

theorem depth?_members (members : List (Quoted × Tree)) (d : Nat) :
    depth? d (separated (memberTokens members)) = some d := by
  refine depth?_separated fun x hx => ?_
  rw [memberTokens_eq_map] at hx
  obtain ⟨m, -, rfl⟩ := List.mem_map.1 hx
  rw [depth?_memberRun, depth?_tokens]

/-! ### Cuts within an object -/

/-- A cut of a text falls between the braces of the object with the members at the place, and all
that is opened behind the first of them is closed before the cut. -/
def Place.Within (place : Place) (members : List (Quoted × Tree)) (a b : Text) : Prop :=
  ∃ inner outer, separated (memberTokens members) = inner ++ outer ∧ depth? 0 inner = some 0 ∧
    Written (place.tokensBefore ++ .mark .openBrace :: inner) a ∧
    Written (outer ++ .mark .closeBrace :: place.tokensAfter) b

variable {v : Tree} {place : Place} {members : List (Quoted × Tree)}
  {front front' behind a b : Text}

/-- The brace behind the texts of some tokens is found again. -/
theorem Written.brace_unique {ts : List Token} (h : Written ts front) (h' : Written ts front')
    (heq : front ++ '\x7b' :: a = front' ++ '\x7b' :: b) : front = front' ∧ a = b := by
  have hnone : ∀ {x y}, Written ts x → ¬ Written ts (x ++ '\x7b' :: y) := by
    intro x y hx hxy
    have hrest : Written [] ('\x7b' :: y) := hx.of_append (by simpa using hxy)
    obtain ⟨us, hus, -⟩ := Written.of_mark (m := .openBrace) hrest
    exact absurd hus (by simp)
  obtain ⟨c, rfl, hc⟩ | ⟨c, rfl, hc⟩ := List.append_eq_append_iff.1 heq
  · cases c with
    | nil => exact ⟨by simp, (List.cons.inj hc).2⟩
    | cons d c =>
      obtain ⟨rfl, -⟩ := List.cons.inj hc
      exact absurd h' (hnone h)
  · cases c with
    | nil => exact ⟨by simp, (List.cons.inj hc).2.symm⟩
    | cons d c =>
      obtain ⟨rfl, -⟩ := List.cons.inj hc
      exact absurd h (hnone h')

/-- A cut behind a line, or behind all of them, falls between two tokens. -/
theorem Written.cut_line {ts : List Token} (h : Written ts (a ++ b))
    (hcut : b = [] ∨ ∃ x, a = x ++ ['\n']) :
    ∃ us vs, ts = us ++ vs ∧ Written us a ∧ Written vs b := by
  obtain rfl | ⟨x, rfl⟩ := hcut
  · exact ⟨ts, [], by simp, by simpa using h, .nil⟩
  · exact Written.cut_newline (by simpa using h)

/-- A cut behind a line is within an object, at the level of its members, if and only if it is
behind the opening brace and the text between the two is balanced. -/
theorem within_iff (h : OpensObject v front place members) (hv : ReadsAs (a ++ b) v)
    (htext : a ++ b = front ++ '\x7b' :: behind) (hcut : b = [] ∨ ∃ x, a = x ++ ['\n']) :
    place.Within members a b ↔ ∃ between, a = front ++ '\x7b' :: between ∧ IsBalanced between := by
  constructor
  · rintro ⟨inner, outer, -, hdepth, ha, -⟩
    obtain ⟨x, y, rfl, hx, hy⟩ := ha.exists_of_append
    obtain ⟨spaces, between, rfl, hspaces⟩ := hy.exists_of_token
    have hbefore : Written place.tokensBefore (x ++ spaces) := by
      simpa using hx.append hspaces
    have hbehind : Written (.mark .openBrace :: inner)
        ((Token.mark .openBrace).text ++ between) := hspaces.of_append hy
    have hinner : Written inner between := hbehind.of_token
    have hall : front ++ '\x7b' :: behind = (x ++ spaces) ++ '\x7b' :: (between ++ b) := by
      rw [← htext]
      simp [Token.text, Mark.char]
    obtain ⟨rfl, -⟩ := h.before.brace_unique hbefore hall
    exact ⟨between, by simp [Token.text, Mark.char], hinner.isBalanced_iff.2 hdepth⟩
  · rintro ⟨between, rfl, hbalanced⟩
    have hbehind : behind = between ++ b := by
      rw [List.append_assoc, List.cons_append] at htext
      exact ((List.cons.inj (List.append_cancel_left htext)).2).symm
    have hwritten := h.written_behind (htext ▸ hv)
    rw [hbehind] at hwritten
    -- The line that ends with the cut does not end with the brace.
    have hcut' : b = [] ∨ ∃ x, between = x ++ ['\n'] := by
      refine hcut.imp_right ?_
      rintro ⟨x, hx⟩
      obtain rfl | ⟨y, c, rfl⟩ := List.eq_nil_or_concat between
      · exact absurd (List.append_inj' hx rfl).2 (by decide)
      · refine ⟨y, ?_⟩
        have hconcat : (front ++ '\x7b' :: y) ++ [c] = x ++ ['\n'] := by simpa using hx
        rw [List.concat_eq_append, (List.append_inj' hconcat rfl).2]
    obtain ⟨us, vs, htokens, hus, hvs⟩ := hwritten.cut_line hcut'
    have hdepth : depth? 0 us = some 0 := hus.isBalanced_iff.1 hbalanced
    have hbrace : Written [.mark .openBrace] ['\x7b'] := Written.singleton (.mark .openBrace)
    obtain ⟨c, rfl, hc⟩ | ⟨c, hsep, hc⟩ := List.append_eq_append_iff.1 htokens
    · -- Past the closing brace, or at it.
      cases c with
      | nil =>
        refine ⟨separated (memberTokens members), [], by simp, depth?_members members 0, ?_, ?_⟩
        · simpa using h.before.append (hbrace.append hus)
        · rwa [List.nil_append, hc]
      | cons k c =>
        obtain ⟨rfl, -⟩ := List.cons.inj hc
        rw [depth?_append, depth?_members] at hdepth
        simp [Token.enter, Mark.enter] at hdepth
    · refine ⟨us, c, hsep, hdepth, ?_, hc ▸ hvs⟩
      simpa using h.before.append (hbrace.append hus)

end RuleOff.Json
