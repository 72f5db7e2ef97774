import RuleOff.Proofs.Json.Grammar

/-!
# Trees and places in them

A tree is a JSON value whose scalars, strings and keys stay as they are written, and whose members
stay in their order. Its tokens are a function of the tree, so the texts of a tree differ by the
space between the tokens only.

## Main definitions

* `Json.Tree`, `Json.Tree.tokens`: the trees and their tokens.
* `Json.ReadsAs`: the texts of a tree.
* `Json.Place`: where a value stands within a tree.
* `Json.OpensObject`: the text in front of the opening brace of an object.

## Main statements

* `Json.Place.tokens_fill`: the tokens around a place do not depend on what stands there.
* `Json.Tree.exists_place`: every opening brace is that of an object at some place.
* `Json.exists_opensObject`: every object has an opening brace.
-/

namespace RuleOff.Json

/-- A JSON value with its scalars as they are written. -/
inductive Tree where
  | scalar (s : Scalar)
  | string (s : Quoted)
  | array (items : List Tree)
  | object (members : List (Quoted × Tree))

/-- Runs of tokens with a comma between any two neighbours. -/
def separated : List (List Token) → List Token
  | [] => []
  | [x] => x
  | x :: y :: xs => x ++ .mark .comma :: separated (y :: xs)

/-- The tokens of a member, given those of its value. -/
def memberRun (key : Quoted) (value : List Token) : List Token :=
  .string key :: .mark .colon :: value

mutual

def Tree.tokens : Tree → List Token
  | .scalar s => [.scalar s]
  | .string s => [.string s]
  | .array items => .mark .openBracket :: (separated (itemTokens items) ++ [.mark .closeBracket])
  | .object members => .mark .openBrace :: (separated (memberTokens members) ++ [.mark .closeBrace])

def itemTokens : List Tree → List (List Token)
  | [] => []
  | v :: vs => v.tokens :: itemTokens vs

def memberTokens : List (Quoted × Tree) → List (List Token)
  | [] => []
  | (k, v) :: ms => memberRun k v.tokens :: memberTokens ms

end

/-- The text is one of the tree: its tokens with any space around them. -/
def ReadsAs (t : Text) (v : Tree) : Prop := Written v.tokens t

instance (t : Text) (v : Tree) : Decidable (ReadsAs t v) :=
  inferInstanceAs (Decidable (Written v.tokens t))

theorem itemTokens_eq_map (items : List Tree) : itemTokens items = items.map Tree.tokens := by
  induction items with
  | nil => rfl
  | cons v vs ih => rw [itemTokens, ih, List.map_cons]

theorem memberTokens_eq_map (members : List (Quoted × Tree)) :
    memberTokens members = members.map fun m => memberRun m.1 m.2.tokens := by
  induction members with
  | nil => rfl
  | cons m ms ih => rw [memberTokens, ih, List.map_cons]

@[elab_as_elim]
theorem Tree.induction {motive : Tree → Prop} (scalar : ∀ s, motive (.scalar s))
    (string : ∀ s, motive (.string s))
    (array : ∀ items, (∀ v ∈ items, motive v) → motive (.array items))
    (object : ∀ members : List (Quoted × Tree), (∀ m ∈ members, motive m.2) →
      motive (.object members)) (v : Tree) : motive v := by
  refine Tree.rec (motive_1 := motive) (motive_2 := fun items => ∀ v ∈ items, motive v)
    (motive_3 := fun members => ∀ m ∈ members, motive m.2) (motive_4 := fun m => motive m.2)
    scalar string array object ?_ ?_ ?_ ?_ ?_ v
  · simp
  · intro v vs hv hvs w hw
    obtain rfl | hw := List.mem_cons.1 hw
    · exact hv
    · exact hvs w hw
  · simp
  · intro m ms hm hms n hn
    obtain rfl | hn := List.mem_cons.1 hn
    · exact hm
    · exact hms n hn
  · intro k v hv
    exact hv

/-! ### Runs between commas -/

/-- Runs of tokens with a comma after each. -/
def leading (xs : List (List Token)) : List Token := xs.flatMap (· ++ [.mark .comma])

/-- Runs of tokens with a comma before each. -/
def following (xs : List (List Token)) : List Token := xs.flatMap (.mark .comma :: ·)

theorem separated_cons (x : List Token) (xs : List (List Token)) :
    separated (x :: xs) = x ++ following xs := by
  induction xs generalizing x with
  | nil => simp [separated, following]
  | cons y ys ih =>
    rw [separated, ih]
    simp [following]

theorem separated_append_cons (xs : List (List Token)) (x : List Token) (ys : List (List Token)) :
    separated (xs ++ x :: ys) = leading xs ++ (x ++ following ys) := by
  induction xs with
  | nil => exact separated_cons x ys
  | cons y xs ih =>
    have hcons : separated (y :: (xs ++ x :: ys)) =
        y ++ .mark .comma :: separated (xs ++ x :: ys) := by
      cases xs <;> rfl
    rw [List.cons_append, hcons, ih]
    simp [leading]

/-- A token other than a comma stands in one of the runs. -/
theorem exists_of_separated {xs : List (List Token)} {ts us : List Token} {k : Token}
    (h : separated xs = ts ++ k :: us) (hk : k ≠ .mark .comma) :
    ∃ before x after u w, xs = before ++ x :: after ∧ x = u ++ k :: w ∧
      ts = leading before ++ u ∧ us = w ++ following after := by
  induction xs generalizing ts with
  | nil => simp [separated] at h
  | cons x xs ih =>
    rw [separated_cons] at h
    obtain ⟨c, rfl, hrest⟩ | ⟨c, rfl, hrest⟩ := List.append_eq_append_iff.1 h
    · cases xs with
      | nil => simp [following] at hrest
      | cons y ys =>
        have hfollowing : following (y :: ys) = .mark .comma :: separated (y :: ys) := by
          rw [separated_cons]
          rfl
        rw [hfollowing] at hrest
        cases c with
        | nil => exact absurd (List.cons.inj hrest).1.symm hk
        | cons d c =>
          obtain ⟨rfl, hsep⟩ := List.cons.inj hrest
          obtain ⟨before, z, after, u, w, hxs, hz, rfl, hus⟩ := ih hsep
          exact ⟨x :: before, z, after, u, w, by rw [hxs]; rfl, hz, by simp [leading], hus⟩
    · cases c with
      | nil =>
        cases xs with
        | nil => simp [following] at hrest
        | cons y ys => exact absurd (List.cons.inj hrest).1 hk
      | cons d c =>
        obtain ⟨rfl, rfl⟩ := List.cons.inj hrest
        exact ⟨[], _, xs, ts, c, rfl, rfl, rfl, rfl⟩

/-- The same within brackets. -/
theorem exists_of_enclosed {xs : List (List Token)} {ts us : List Token} {k : Token} {close : Mark}
    (h : separated xs ++ [.mark close] = ts ++ k :: us) (hk : k ≠ .mark .comma)
    (hclose : k ≠ .mark close) :
    ∃ before x after u w, xs = before ++ x :: after ∧ x = u ++ k :: w ∧
      ts = leading before ++ u ∧ us = w ++ (following after ++ [.mark close]) := by
  obtain rfl | ⟨us, c, rfl⟩ := List.eq_nil_or_concat us
  · exact absurd (List.cons.inj (List.append_inj' h rfl).2).1.symm hclose
  · rw [List.concat_eq_append, ← List.cons_append, ← List.append_assoc] at h
    obtain ⟨hsep, hlast⟩ := List.append_inj' h rfl
    obtain ⟨before, x, after, u, w, hxs, hx, hts, rfl⟩ := exists_of_separated hsep hk
    exact ⟨before, x, after, u, w, hxs, hx, hts, by simp [hlast]⟩

/-! ### Places -/

/-- Where a value stands within a tree: the values around it, from the outside in. -/
inductive Place where
  | here
  | item (before : List Tree) (inner : Place) (after : List Tree)
  | member (before : List (Quoted × Tree)) (key : Quoted) (inner : Place)
      (after : List (Quoted × Tree))

namespace Place

/-- The tree with the value at the place. -/
def fill : Place → Tree → Tree
  | here, v => v
  | item before inner after, v => .array (before ++ inner.fill v :: after)
  | member before key inner after, v => .object (before ++ (key, inner.fill v) :: after)

def tokensBefore : Place → List Token
  | here => []
  | item before inner _ => .mark .openBracket :: (leading (itemTokens before) ++ inner.tokensBefore)
  | member before key inner _ =>
    .mark .openBrace :: (leading (memberTokens before) ++ memberRun key inner.tokensBefore)

def tokensAfter : Place → List Token
  | here => []
  | item _ inner after =>
    inner.tokensAfter ++ (following (itemTokens after) ++ [.mark .closeBracket])
  | member _ _ inner after =>
    inner.tokensAfter ++ (following (memberTokens after) ++ [.mark .closeBrace])

/-- The tokens around a place do not depend on what stands there. -/
theorem tokens_fill (p : Place) (v : Tree) :
    (p.fill v).tokens = p.tokensBefore ++ (v.tokens ++ p.tokensAfter) := by
  induction p with
  | here => simp [fill, tokensBefore, tokensAfter]
  | item before inner after ih =>
    rw [fill, Tree.tokens, itemTokens_eq_map, List.map_append, List.map_cons,
      separated_append_cons, ih, tokensBefore, tokensAfter, itemTokens_eq_map, itemTokens_eq_map]
    simp
  | member before key inner after ih =>
    rw [fill, Tree.tokens, memberTokens_eq_map, List.map_append, List.map_cons,
      separated_append_cons, ih, tokensBefore, tokensAfter, memberTokens_eq_map,
      memberTokens_eq_map]
    simp [memberRun]

end Place

/-- Every opening brace is that of an object at some place. -/
theorem Tree.exists_place {v : Tree} {ts us : List Token}
    (h : v.tokens = ts ++ .mark .openBrace :: us) :
    ∃ (p : Place) (members : List (Quoted × Tree)), v = p.fill (.object members) ∧
      ts = p.tokensBefore ∧
      us = separated (memberTokens members) ++ .mark .closeBrace :: p.tokensAfter := by
  induction v using Tree.induction generalizing ts us with
  | scalar s => cases ts <;> simp [tokens] at h
  | string s => cases ts <;> simp [tokens] at h
  | array items ih =>
    rw [tokens] at h
    cases ts with
    | nil => simp at h
    | cons k ts =>
      obtain ⟨rfl, htokens⟩ := List.cons.inj h
      obtain ⟨before, x, after, u, w, hxs, hx, rfl, rfl⟩ :=
        exists_of_enclosed htokens (by simp) (by simp)
      rw [itemTokens_eq_map] at hxs
      obtain ⟨front, rest, rfl, rfl, hrest⟩ := List.map_eq_append_iff.1 hxs
      obtain ⟨item, back, rfl, rfl, rfl⟩ := List.map_eq_cons_iff.1 hrest
      obtain ⟨p, members, hp, rfl, rfl⟩ := ih item (by simp) hx
      refine ⟨.item front p back, members, by rw [Place.fill, ← hp], ?_, ?_⟩
      · rw [Place.tokensBefore, itemTokens_eq_map]
      · simp [Place.tokensAfter, itemTokens_eq_map]
  | object members ih =>
    rw [tokens] at h
    cases ts with
    | nil =>
      refine ⟨.here, members, rfl, rfl, ?_⟩
      exact (List.cons.inj h).2.symm
    | cons k ts =>
      obtain ⟨rfl, htokens⟩ := List.cons.inj h
      obtain ⟨before, x, after, u, w, hxs, hx, rfl, rfl⟩ :=
        exists_of_enclosed htokens (by simp) (by simp)
      rw [memberTokens_eq_map] at hxs
      obtain ⟨front, rest, rfl, rfl, hrest⟩ := List.map_eq_append_iff.1 hxs
      obtain ⟨⟨key, value⟩, back, rfl, rfl, rfl⟩ := List.map_eq_cons_iff.1 hrest
      -- The brace is none of the key and the colon, so it is within the value.
      obtain ⟨u, rfl, hvalue⟩ : ∃ u', u = memberRun key u' ∧
          value.tokens = u' ++ .mark .openBrace :: w := by
        match u, hx with
        | [], hx => simp [memberRun] at hx
        | [_], hx => simp [memberRun] at hx
        | _ :: _ :: u, hx =>
          simp only [memberRun, List.cons_append, List.cons.injEq] at hx
          exact ⟨u, by rw [memberRun, hx.1, hx.2.1], hx.2.2⟩
      obtain ⟨p, inner, hp, rfl, rfl⟩ := ih (key, value) (by simp) hvalue
      refine ⟨.member front key p back, inner, by rw [Place.fill, ← hp], ?_, ?_⟩
      · rw [Place.tokensBefore, memberTokens_eq_map]
      · simp [Place.tokensAfter, memberTokens_eq_map]

/-- The text ends just before the opening brace of the object with the members at the place. -/
structure OpensObject (v : Tree) (front : Text) (place : Place)
    (members : List (Quoted × Tree)) : Prop where
  eq_fill : v = place.fill (.object members)
  before : Written place.tokensBefore front

theorem tokens_fill_object (place : Place) (members : List (Quoted × Tree)) :
    (place.fill (.object members)).tokens = place.tokensBefore ++ .mark .openBrace ::
      (separated (memberTokens members) ++ .mark .closeBrace :: place.tokensAfter) := by
  rw [Place.tokens_fill, Tree.tokens]
  simp

theorem OpensObject.written_behind {v : Tree} {front behind : Text} {place : Place}
    {members : List (Quoted × Tree)} (h : OpensObject v front place members)
    (hv : ReadsAs (front ++ '\x7b' :: behind) v) :
    Written (separated (memberTokens members) ++ .mark .closeBrace :: place.tokensAfter)
      behind := by
  rw [ReadsAs, h.eq_fill, tokens_fill_object] at hv
  exact (h.before.of_append hv).of_token (k := .mark .openBrace)

/-- Every object has an opening brace. -/
theorem exists_opensObject {t : Text} {place : Place} {members : List (Quoted × Tree)}
    (h : ReadsAs t (place.fill (.object members))) :
    ∃ front behind, t = front ++ '\x7b' :: behind ∧
      OpensObject (place.fill (.object members)) front place members := by
  rw [ReadsAs, tokens_fill_object] at h
  obtain ⟨front, rest, rfl, hfront, hrest⟩ := h.exists_of_append
  obtain ⟨spaces, behind, rfl, hspaces⟩ := hrest.exists_of_token
  refine ⟨front ++ spaces, behind, by simp [Token.text, Mark.char], rfl, ?_⟩
  simpa using hfront.append hspaces

end RuleOff.Json
