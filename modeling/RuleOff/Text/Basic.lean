/-!
# Texts and their lines

A text is its list of characters. This module cuts texts at a separator, puts the pieces back
together, and searches for a substring.

## Main statements

* `Text.join_split`: the pieces of a text, joined by the separator, are the text.
* `Text.split_join`: pieces free of the separator are found again.
* `Text.occursIn_iff`: the substring search is the infix relation.
-/

namespace RuleOff

/-- A text is the list of its characters. -/
abbrev Text := List Char

namespace Text

/-- The pieces of a text between the occurrences of `sep`. There is always at least one piece,
and an occurrence at either end leaves an empty piece there. -/
def split (sep : Char) : Text → List Text
  | [] => [[]]
  | c :: cs =>
    if c = sep then [] :: split sep cs
    else
      match split sep cs with
      | [] => [[c]]
      | p :: ps => (c :: p) :: ps

/-- The pieces with `sep` written between any two neighbours. -/
def join (sep : Char) : List Text → Text
  | [] => []
  | [p] => p
  | p :: q :: ps => p ++ sep :: join sep (q :: ps)

/-- The lines of a text, cut at line feeds. A carriage return stays in its line. -/
def lines (t : Text) : List Text := split '\n' t

/-- Whether `needle` stands somewhere in the text. -/
def occursIn (needle : Text) : Text → Bool
  | [] => needle.isEmpty
  | c :: cs => needle.isPrefixOf (c :: cs) || occursIn needle cs

/-- What follows `front`, if the text starts with it. -/
def afterPrefix? : Text → Text → Option Text
  | [], t => some t
  | _ :: _, [] => none
  | a :: front, c :: cs => if a = c then afterPrefix? front cs else none

/-- Pieces joined by a separator of any length. -/
def intercalate (sep : Text) : List Text → Text
  | [] => []
  | [p] => p
  | p :: q :: ps => p ++ sep ++ intercalate sep (q :: ps)

/-- What holds of all characters of a text is decided along the text, and not over all characters
there are. -/
instance (priority := high) decidableForallMem (p : Char → Prop) [DecidablePred p] (t : Text) :
    Decidable (∀ c ∈ t, p c) :=
  List.decidableBAll p t

/-- The decimal numeral of a natural number. -/
def ofNat (n : Nat) : Text := Nat.toDigits 10 n

/-- The decimal numeral of an integer, with a minus sign in front of a negative one. -/
def ofInt : Int → Text
  | .ofNat n => ofNat n
  | .negSucc n => '-' :: ofNat (n + 1)

theorem split_ne_nil (sep : Char) (t : Text) : split sep t ≠ [] := by
  cases t with
  | nil => simp [split]
  | cons c cs =>
    unfold split
    split
    · simp
    · split <;> simp

theorem join_cons_of_ne_nil (sep : Char) (p : Text) {ps : List Text} (h : ps ≠ []) :
    join sep (p :: ps) = p ++ sep :: join sep ps := by
  cases ps with
  | nil => exact absurd rfl h
  | cons q qs => rfl

theorem join_cons_cons (sep c : Char) (p : Text) (ps : List Text) :
    join sep ((c :: p) :: ps) = c :: join sep (p :: ps) := by
  cases ps <;> rfl

/-- Cutting a text and joining the pieces gives the text back. -/
theorem join_split (sep : Char) (t : Text) : join sep (split sep t) = t := by
  induction t with
  | nil => rfl
  | cons c cs ih =>
    unfold split
    split
    next h => rw [join_cons_of_ne_nil sep [] (split_ne_nil sep cs), ih, h]; rfl
    next h =>
      split
      next hs => exact absurd hs (split_ne_nil sep cs)
      next p ps hs => rw [join_cons_cons, ← hs, ih]

/-- No piece holds the separator. -/
theorem notMem_of_mem_split {sep : Char} {t p : Text} (h : p ∈ split sep t) : sep ∉ p := by
  induction t generalizing p with
  | nil => simp [split] at h; simp [h]
  | cons c cs ih =>
    unfold split at h
    split at h
    next hc =>
      rcases List.mem_cons.1 h with rfl | h
      · simp
      · exact ih h
    next hc =>
      split at h
      next hs => exact absurd hs (split_ne_nil sep cs)
      next q qs hs =>
        rcases List.mem_cons.1 h with rfl | h
        · have hq := ih (p := q) (by rw [hs]; exact List.mem_cons_self)
          simp only [List.mem_cons, not_or]
          exact ⟨fun e => hc e.symm, hq⟩
        · exact ih (by rw [hs]; exact List.mem_cons_of_mem _ h)

theorem split_eq_singleton {sep : Char} {t : Text} (h : sep ∉ t) : split sep t = [t] := by
  induction t with
  | nil => rfl
  | cons c cs ih =>
    simp only [List.mem_cons, not_or] at h
    unfold split
    rw [if_neg (fun e => h.1 e.symm), ih h.2]

/-- Cutting at the first separator. -/
theorem split_append_cons {sep : Char} {p : Text} (h : sep ∉ p) (t : Text) :
    split sep (p ++ sep :: t) = p :: split sep t := by
  induction p with
  | nil => simp [split]
  | cons c cs ih =>
    simp only [List.mem_cons, not_or] at h
    rw [List.cons_append, split, if_neg (fun e => h.1 e.symm), ih h.2]

theorem split_append (sep : Char) (p q : Text) :
    split sep (p ++ sep :: q) = split sep p ++ split sep q := by
  induction p with
  | nil => simp [split]
  | cons c cs ih =>
    rw [List.cons_append, split, split, ih]
    split
    · rfl
    · cases h : split sep cs with
      | nil => exact absurd h (split_ne_nil sep cs)
      | cons piece pieces => rfl

/-- Joining pieces that do not hold the separator and cutting again gives the pieces back. -/
theorem split_join {sep : Char} {ps : List Text} (hne : ps ≠ []) (h : ∀ p ∈ ps, sep ∉ p) :
    split sep (join sep ps) = ps := by
  induction ps with
  | nil => exact absurd rfl hne
  | cons p qs ih =>
    cases qs with
    | nil => exact split_eq_singleton (h p List.mem_cons_self)
    | cons q rs =>
      rw [join_cons_of_ne_nil sep p (List.cons_ne_nil q rs),
        split_append_cons (h p List.mem_cons_self),
        ih (List.cons_ne_nil q rs) (fun x hx => h x (List.mem_cons_of_mem _ hx))]

/-- The substring search answers the infix relation. -/
theorem occursIn_iff {needle t : Text} : occursIn needle t = true ↔ needle <:+: t := by
  induction t with
  | nil => simp [occursIn, List.isEmpty_iff]
  | cons c cs ih =>
    rw [occursIn, Bool.or_eq_true, List.isPrefixOf_iff_prefix, ih, List.infix_cons_iff]

theorem afterPrefix?_eq_some_iff {front t rest : Text} :
    afterPrefix? front t = some rest ↔ t = front ++ rest := by
  induction front generalizing t with
  | nil => simp [afterPrefix?, eq_comm]
  | cons a front ih =>
    cases t with
    | nil => simp [afterPrefix?]
    | cons c cs =>
      unfold afterPrefix?
      by_cases h : a = c
      · simp [h, ih]
      · simp only [h, if_false, List.cons_append, List.cons.injEq]
        constructor
        · intro e; cases e
        · intro e; exact absurd e.1.symm h

end Text

end RuleOff
