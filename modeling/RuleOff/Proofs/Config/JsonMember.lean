import RuleOff.Proofs.Config.WholeLines
import RuleOff.Proofs.Json.Unambiguous

/-!
# The entry as a member of the rules object

The search for a header does not read the grammar of JSON, and yet in a JSON text what it finds is
a key with a colon and the opening brace of an object: a string cannot hold the key with a brace
behind it. Where nothing but white space follows that brace on its line, the start of the next line
is just inside the object, and the entry becomes its first member.

## Main definitions

* `Config.throughLine`, `Config.behindLine`: a text cut behind one of its lines.

## Main statements

* `Config.exists_brace_of_jsonKey`: the brace behind the key is a token.
* `Config.plan_prepends_member`: the entry becomes the first member of the object.
* `Config.plan_misses_object`: a document that is too long for positions of 32 bits.
-/

namespace RuleOff.Config

open Json (Written)

/-- Two ways to cut a text at a mark, of which the second piece of one holds no mark. -/
theorem eq_or_exists_of_append_cons {α : Type} {x : α} {front rest before after : List α}
    (h : front ++ x :: rest = before ++ x :: after) (hrest : x ∉ rest) :
    (before = front ∧ after = rest) ∨
      ∃ between, front = before ++ x :: between ∧ after = between ++ x :: rest := by
  obtain ⟨c, rfl, hc⟩ | ⟨c, rfl, hc⟩ := List.append_eq_append_iff.1 h
  · cases c with
    | nil => exact Or.inl ⟨by simp, (List.cons.inj hc).2.symm⟩
    | cons d c =>
      exfalso
      apply hrest
      rw [(List.cons.inj hc).2]
      simp
  · cases c with
    | nil => exact Or.inl ⟨by simp, (List.cons.inj hc).2⟩
    | cons d c =>
      obtain ⟨rfl, rfl⟩ := List.cons.inj hc
      exact Or.inr ⟨c, rfl, rfl⟩

/-- The brace behind the JSON key is no part of a string. -/
theorem exists_brace_of_jsonKey {ts : List Json.Token} {before blanks rest : Text}
    (h : Written ts (before ++ (jsonKey ++ (blanks ++ '\x7b' :: rest))))
    (hblanks : ∀ c ∈ blanks, Text.isBlank c = true) :
    ∃ us vs, ts = us ++ .mark .openBrace :: vs ∧ Written us (before ++ (jsonKey ++ blanks)) ∧
      Written vs rest := by
  have hcut : Written.Cut ts (before ++ (jsonKey ++ blanks)) ('\x7b' :: rest) :=
    Written.cut (by simpa using h)
  generalize hfront : before ++ (jsonKey ++ blanks) = front at hcut
  generalize hback : '\x7b' :: rest = back at hcut
  cases hcut with
  | @between us vs _ _ ha hb =>
    subst hback
    obtain ⟨ws, rfl, hrest⟩ := Written.of_mark (m := .openBrace) hb
    exact ⟨us, ws, rfl, ha, hrest⟩
  | @within us vs k a x y b ha hb hk hx hy =>
    exfalso
    obtain ⟨c, y, rfl⟩ := List.exists_cons_of_ne_nil hy
    obtain rfl : '\x7b' = c := (List.cons.inj hback).1
    cases k with
    | mark m =>
      obtain ⟨d, x, rfl⟩ := List.exists_cons_of_ne_nil hx
      have hnil := (List.cons.inj hk).2
      simp at hnil
    | scalar s =>
      have hmem : '\x7b' ∈ (Json.Token.scalar s).text := by simp [hk]
      exact absurd (s.valid.isScalarChar _ hmem) (by decide)
    | string s =>
      obtain ⟨d, x, rfl⟩ := List.exists_cons_of_ne_nil hx
      obtain ⟨rfl, hbody⟩ : '"' = d ∧ s.body ++ ['"'] = x ++ '\x7b' :: y := List.cons.inj hk
      -- The string holds the brace, so it ends behind it.
      obtain rfl | ⟨y, e, rfl⟩ := List.eq_nil_or_concat y
      · exact absurd (List.append_inj' hbody rfl).2 (by decide)
      have hconcat : s.body ++ ['"'] = (x ++ '\x7b' :: y) ++ [e] := by simpa using hbody
      have hstring : s.body = x ++ '\x7b' :: y := (List.append_inj' hconcat rfl).1
      -- The quotation mark that opens it is the second of the key, or one before.
      have hkey : jsonKey = ['"', 'r', 'u', 'l', 'e', 's', '"', ':'] := by decide
      have hquote : before ++ ['"', 'r', 'u', 'l', 'e', 's'] ++ '"' :: (':' :: blanks) =
          a ++ '"' :: x := by
        rw [← hfront, hkey]
        simp
      have hnone : '"' ∉ ':' :: blanks := by
        intro hmem
        obtain hcolon | hmem := List.mem_cons.1 hmem
        · exact absurd hcolon (by decide)
        · exact absurd (hblanks _ hmem) (by decide)
      have hlast : (before ++ ['"', 'r', 'u', 'l', 'e', 's']).getLast? = some 's' := by simp
      obtain ⟨rfl, -⟩ | ⟨between, hbefore, rfl⟩ := eq_or_exists_of_append_cons hquote hnone
      · exact ha.getLast?_ne hlast
      · rw [List.append_assoc] at hstring
        have hslash := (hstring ▸ s.valid.isEscaped).getLast?_of_quote
        rw [hbefore, List.getLast?_append, List.getLast?_cons, hslash] at hlast
        exact absurd (Option.some.inj hlast) (by decide)

/-! ### The place of the entry -/

/-- The text up to the line with the given number, with that line and its ending. -/
def throughLine (t : Text) (n : Nat) : Text :=
  if n + 1 < (Text.lines t).length then Text.terminated ((Text.lines t).take (n + 1)) else t

/-- The text behind the line with the given number. -/
def behindLine (t : Text) (n : Nat) : Text := Text.join '\n' ((Text.lines t).drop (n + 1))

variable {s : Switch} {t : Text} {header n : Nat} {i : Insertion}

theorem throughLine_append_behindLine (t : Text) (n : Nat) :
    throughLine t n ++ behindLine t n = t := by
  unfold throughLine behindLine
  split
  next hlt =>
    have hne : (Text.lines t).drop (n + 1) ≠ [] := by
      intro hnil
      rw [List.drop_eq_nil_iff] at hnil
      omega
    exact (Text.eq_terminated_append (List.take_append_drop (n + 1) (Text.lines t)).symm hne).symm
  next hge =>
    rw [List.drop_eq_nil_of_le (by omega)]
    exact List.append_nil t

/-- The cut is behind a line feed or at the end of the text. -/
theorem throughLine_cut (t : Text) (n : Nat) :
    behindLine t n = [] ∨ ∃ x, throughLine t n = x ++ ['\n'] := by
  by_cases hlt : n + 1 < (Text.lines t).length
  · right
    have hlast : (Text.lines t).take (n + 1) = (Text.lines t).take n ++ [(Text.lines t)[n]] :=
      (List.take_append_getElem (by omega)).symm
    refine ⟨Text.terminated ((Text.lines t).take n) ++ (Text.lines t)[n], ?_⟩
    rw [throughLine, if_pos hlt, hlast, Text.terminated_append, Text.terminated_cons,
      Text.terminated_nil, List.append_assoc]
  · left
    rw [behindLine, List.drop_eq_nil_of_le (by omega)]
    rfl

/-- Only the number of the line has to fit into a position where there is a line below. -/
theorem isEndOf_throughLine (hlt : n + 1 < (Text.lines t).length) (hfits : n + 1 < UInt32.size) :
    (Position.ofCounts (n + 1) 0).IsEndOf (throughLine t n) := by
  have habove : ∀ l ∈ (Text.lines t).take (n + 1), '\n' ∉ l := fun l hl =>
    Text.newline_notMem_of_mem_lines (List.mem_of_mem_take hl)
  have hlength : ((Text.lines t).take (n + 1)).length = n + 1 := by
    rw [List.length_take]
    omega
  have hend := isEndOf_terminated habove (by omega)
  rw [hlength] at hend
  rw [throughLine, if_pos hlt]
  exact hend

theorem plan_json_of_header (s : Switch) (hheader : findRulesHeader (Text.lines t) = some header) :
    plan t .json s.rule s.indent =
      some (insertLineAfter (Text.lines t) header
        (Text.terminated [s.entry .json ++ returnOf t]) (returnOf t ++ ['\n'])) := by
  obtain ⟨a, hanchor, hplan⟩ := exists_plan_of_header s .json hheader
  obtain rfl := hanchor.eq_header_of_json
  exact hplan

theorem exists_place_of_plan_json (ht : t.Addressable)
    (hplan : plan t .json s.rule s.indent = some i) :
    ∃ header, findRulesHeader (Text.lines t) = some header ∧
      i.position.IsEndOf (throughLine t header) := by
  cases hheader : findRulesHeader (Text.lines t) with
  | none =>
    rw [plan_of_no_header s .json hheader] at hplan
    exact absurd hplan (by simp)
  | some header =>
    have hbound := ht.lines
    rw [plan_json_of_header s hheader, Option.some.injEq, insertLineAfter] at hplan
    refine ⟨header, rfl, ?_⟩
    split at hplan
    next hlt =>
      subst hplan
      exact isEndOf_throughLine hlt (by omega)
    next hge =>
      subst hplan
      rw [throughLine, if_neg hge]
      exact isEndOf_endOfDocument ht

/-- With a line below the header, the entry comes between the two. -/
theorem exists_splice_of_plan_json (s : Switch)
    (hheader : findRulesHeader (Text.lines t) = some header)
    (hlt : header + 1 < (Text.lines t).length) (hfits : header + 1 < UInt32.size) :
    ∃ i, plan t .json s.rule s.indent = some i ∧
      Text.splice t i.position i.text = throughLine t header ++
        Text.terminated [s.entry .json ++ returnOf t] ++ behindLine t header := by
  have hplan := plan_json_of_header s hheader
  rw [insertLineAfter, if_pos hlt] at hplan
  refine ⟨_, hplan, ?_⟩
  have hsplice := Text.splice_append (isEndOf_throughLine hlt hfits) (behindLine t header)
    (Text.terminated [s.entry .json ++ returnOf t])
  rwa [throughLine_append_behindLine] at hsplice

/-! ### The entry -/

/-- The rule as the name of a member. -/
def Switch.key (s : Switch) (h : ∀ c ∈ s.rule, c ≠ '"' ∧ c ≠ '\\' ∧ 0x20 ≤ c.toNat) : Json.Quoted :=
  .ofPlain s.rule h

/-- The value of a member that switches a rule off. -/
def off : Json.Quoted := .ofPlain "off".toList (by decide)

theorem written_entry (hrule : ∀ c ∈ s.rule, c ≠ '"' ∧ c ≠ '\\' ∧ 0x20 ≤ c.toNat)
    (hindent : ∀ c ∈ s.indent, Json.isSpace c = true) :
    Written (Json.memberRun (s.key hrule) [.string off] ++ [.mark .comma]) (s.entry .json) := by
  have hkey : Written [.string (s.key hrule)] ('"' :: (s.rule ++ ['"'])) := Written.singleton _
  have hoff : Written [.mark .colon, .string off, .mark .comma] ": \"off\",".toList := by decide
  have hspaces : ∀ c ∈ s.indent ++ s.indent, Json.isSpace c = true := by
    simpa [or_imp, forall_and] using hindent
  have h := (Written.of_spaces hspaces).append (hkey.append hoff)
  simpa [Json.memberRun, Switch.entry] using h

theorem written_returnOf (t : Text) : Written [] (returnOf t ++ ['\n']) := by
  unfold returnOf
  split <;> decide

theorem join_append_cons (x p : Text) (ps : List Text) :
    Text.join '\n' ((x ++ p) :: ps) = x ++ Text.join '\n' (p :: ps) := by
  cases ps with
  | nil => rfl
  | cons q ps => simp [Text.join]

section Brace

variable {above below : List Text} {before blanks trailing : Text} {ts : List Json.Token}
  {v : Json.Tree}

theorem eq_of_line
    (hlines : Text.lines t =
      above ++ (before ++ (jsonKey ++ (blanks ++ '\x7b' :: trailing))) :: below) :
    t = Text.terminated above ++ (before ++ (jsonKey ++ blanks)) ++
      '\x7b' :: Text.join '\n' (trailing :: below) := by
  have hline : before ++ (jsonKey ++ (blanks ++ '\x7b' :: trailing)) =
      (before ++ (jsonKey ++ (blanks ++ ['\x7b']))) ++ trailing := by simp
  rw [Text.eq_terminated_append hlines (List.cons_ne_nil _ below), hline, join_append_cons]
  simp

/-- The brace behind the key in a line opens an object of the tree. -/
theorem exists_opensObject_of_line (hv : Json.ReadsAs t v)
    (hlines : Text.lines t =
      above ++ (before ++ (jsonKey ++ (blanks ++ '\x7b' :: trailing))) :: below)
    (hblanks : ∀ c ∈ blanks, Text.isBlank c = true) :
    ∃ place members, Json.OpensObject v
      (Text.terminated above ++ (before ++ (jsonKey ++ blanks))) place members := by
  rw [Json.ReadsAs, eq_of_line hlines] at hv
  have htext : Text.terminated above ++ (before ++ (jsonKey ++ blanks)) ++
      '\x7b' :: Text.join '\n' (trailing :: below) =
      (Text.terminated above ++ before) ++
        (jsonKey ++ (blanks ++ '\x7b' :: Text.join '\n' (trailing :: below))) := by simp
  obtain ⟨us, vs, htokens, hus, -⟩ := exists_brace_of_jsonKey (htext ▸ hv) hblanks
  obtain ⟨place, members, hfill, rfl, -⟩ := Json.Tree.exists_place htokens
  exact ⟨place, members, hfill, by simpa using hus⟩

/-- Behind white space at the end of a line, tokens start with a line below. -/
theorem written_below (h : Written ts (Text.join '\n' (trailing :: below))) (hts : ts ≠ [])
    (htrailing : ∀ c ∈ trailing, Text.isBlank c = true) :
    below ≠ [] ∧ Written [] (trailing ++ ['\n']) ∧ Written ts (Text.join '\n' below) := by
  have hbelow : below ≠ [] := by
    rintro rfl
    exact hts (h.eq_nil_of_blanks htrailing)
  have hblank : ∀ c ∈ trailing ++ ['\n'], Text.isBlank c = true := by
    intro c hc
    obtain hc | hc := List.mem_append.1 hc
    · exact htrailing c hc
    · exact List.mem_singleton.1 hc ▸ by decide
  rw [Text.join_cons_of_ne_nil '\n' trailing hbelow] at h
  obtain ⟨hspaces, hrest⟩ := Written.of_blanks_append (a := trailing ++ ['\n'])
    (b := Text.join '\n' below) (by simpa using h) hblank
  exact ⟨hbelow, hspaces, hrest⟩

end Brace

/-- The entry, put behind the brace of an object that has members, makes a text of the tree with
one member more. -/
theorem readsAs_prepend {place : Json.Place} {members : List (Json.Quoted × Json.Tree)}
    {before trailing behind : Text} (hmembers : members ≠ [])
    (hrule : ∀ c ∈ s.rule, c ≠ '"' ∧ c ≠ '\\' ∧ 0x20 ≤ c.toNat)
    (hindent : ∀ c ∈ s.indent, Json.isSpace c = true)
    (hbefore : Written place.tokensBefore before) (htrailing : Written [] trailing)
    (hbehind : Written (Json.separated (Json.memberTokens members) ++
      .mark .closeBrace :: place.tokensAfter) behind) :
    Json.ReadsAs (before ++ '\x7b' :: (trailing ++
        (Text.terminated [s.entry .json ++ returnOf t] ++ behind)))
      (place.fill (.object ((s.key hrule, .string off) :: members))) := by
  have hbrace : Written [.mark .openBrace] ['\x7b'] := Written.singleton (.mark .openBrace)
  have hentry := (written_entry hrule hindent).append (written_returnOf t)
  have hall := hbefore.append (hbrace.append (htrailing.append (hentry.append hbehind)))
  obtain ⟨m, ms, rfl⟩ := List.exists_cons_of_ne_nil hmembers
  have htokens : (place.fill (.object ((s.key hrule, .string off) :: m :: ms))).tokens =
      place.tokensBefore ++ ([.mark .openBrace] ++ ([] ++
        (Json.memberRun (s.key hrule) [.string off] ++ [.mark .comma] ++ [] ++
          (Json.separated (Json.memberTokens (m :: ms)) ++
            .mark .closeBrace :: place.tokensAfter)))) := by
    rw [Json.Place.tokens_fill, Json.Tree.tokens]
    simp [Json.memberTokens, Json.separated, Json.Tree.tokens]
  rw [Json.ReadsAs, htokens]
  simpa using hall

/-! ### Documents that are too long -/

theorem readsAs_below {v : Json.Tree} (h : Json.ReadsAs t v) (n : Nat) :
    Json.ReadsAs (Text.below n t) v := by
  have hspaces : ∀ c ∈ Text.terminated (List.replicate n []), Json.isSpace c = true := by
    intro c hc
    obtain ⟨-, rfl⟩ : n ≠ 0 ∧ c = '\n' := by simpa [Text.terminated] using hc
    rfl
  exact (Written.of_spaces hspaces).append h

/-- An entry in front of a JSON text makes it a text of no tree. -/
theorem not_readsAs_entry_append {v : Json.Tree} (hv : Json.ReadsAs t v)
    (hrule : ∀ c ∈ s.rule, c ≠ '"' ∧ c ≠ '\\' ∧ 0x20 ≤ c.toNat)
    (hindent : ∀ c ∈ s.indent, Json.isSpace c = true) (w : Json.Tree) :
    ¬ Json.ReadsAs (Text.terminated [s.entry .json ++ returnOf t] ++ t) w := by
  intro hw
  have hentry := (written_entry hrule hindent).append ((written_returnOf t).append hv)
  have hkey : Json.Alternating [.string (s.key hrule)] := .singleton _
  have hoff : Json.Alternating [.string off] := .singleton _
  have hall := hkey.append_mark (hoff.append_mark v.alternating_tokens .comma) .colon
  -- The tokens start with a string, and the tree of a string has no more of them.
  have htokens := Written.unique hw (by simpa [Json.memberRun] using hentry)
    w.alternating_tokens hall
  cases w <;> simp [Json.Tree.tokens] at htokens

/-- Where the number of the line below the header wraps around to zero, the entry comes in front of
the whole text. -/
theorem not_readsAs_of_wrap {v : Json.Tree} (hv : Json.ReadsAs t v)
    (hheader : findRulesHeader (Text.lines t) = some header)
    (hlt : header + 1 < (Text.lines t).length) (hwrap : UInt32.ofNat (header + 1) = 0)
    (hrule : ∀ c ∈ s.rule, c ≠ '"' ∧ c ≠ '\\' ∧ 0x20 ≤ c.toNat)
    (hindent : ∀ c ∈ s.indent, Json.isSpace c = true) :
    ∃ i, plan t .json s.rule s.indent = some i ∧
      ∀ w, ¬ Json.ReadsAs (Text.splice t i.position i.text) w := by
  have hplan := plan_json_of_header s hheader
  rw [insertLineAfter, if_pos hlt, Position.ofCounts, hwrap] at hplan
  have hsplice : ∀ new, Text.splice t ⟨0, UInt32.ofNat 0⟩ new = new ++ t := by
    intro new
    cases t <;> rfl
  refine ⟨_, hplan, fun w => ?_⟩
  rw [hsplice]
  exact not_readsAs_entry_append hv hrule hindent w

/-! ### The member -/

/-- In a JSON text whose first header ends, up to white space, with the brace behind its key, that
brace opens an object of the tree. If the object has a member, the planner's entry makes the text
one of the tree in which the object has the rule, switched off, as its first member, and of no
other tree. The number of the line below the header has to fit into a position; in the text of
`plan_misses_object` it does not. -/
theorem plan_prepends_member (s : Switch) {t : Text} {v : Json.Tree} {header : Nat}
    {before blanks trailing : Text} (hv : Json.ReadsAs t v)
    (hheader : findRulesHeader (Text.lines t) = some header)
    (hfits : header + 1 < UInt32.size)
    (hline : (Text.lines t)[header]? =
      some (before ++ (jsonKey ++ (blanks ++ '\x7b' :: trailing))))
    (hblanks : ∀ c ∈ blanks, Text.isBlank c = true)
    (htrailing : ∀ c ∈ trailing, Text.isBlank c = true)
    (hrule : ∀ c ∈ s.rule, c ≠ '"' ∧ c ≠ '\\' ∧ 0x20 ≤ c.toNat)
    (hindent : ∀ c ∈ s.indent, Json.isSpace c = true) :
    let front := Text.terminated ((Text.lines t).take header) ++ (before ++ (jsonKey ++ blanks))
    (∃ place members, Json.OpensObject v front place members) ∧
    ∀ place members, Json.OpensObject v front place members → members ≠ [] →
      ∃ i, plan t .json s.rule s.indent = some i ∧
        ∀ w, Json.ReadsAs (Text.splice t i.position i.text) w ↔
          w = place.fill (.object ((s.key hrule, .string off) :: members)) := by
  intro front
  obtain ⟨hlt, hget⟩ := List.getElem?_eq_some_iff.1 hline
  have hlines : Text.lines t = (Text.lines t).take header ++
      (before ++ (jsonKey ++ (blanks ++ '\x7b' :: trailing))) ::
        (Text.lines t).drop (header + 1) := by
    rw [← hget, List.getElem_cons_drop, List.take_append_drop]
  have hlength : ((Text.lines t).take header).length = header := by
    rw [List.length_take]
    omega
  refine ⟨exists_opensObject_of_line hv hlines hblanks, fun place members hopen hmembers => ?_⟩
  have hbehind := hopen.written_behind (eq_of_line hlines ▸ hv)
  obtain ⟨hbelow, hspaces, hrest⟩ := written_below hbehind (by simp) htrailing
  have hinside : header + 1 < (Text.lines t).length := by
    have hpos := List.length_pos_iff.2 hbelow
    rw [List.length_drop] at hpos
    omega
  obtain ⟨i, hplan, hsplice⟩ := exists_splice_of_plan_json s hheader hinside hfits
  have hreads := readsAs_prepend (t := t) hmembers hrule hindent hopen.before hspaces hrest
  have hthrough : throughLine t header = front ++ '\x7b' :: (trailing ++ ['\n']) := by
    rw [throughLine, if_pos hinside, ← List.take_append_getElem hlt, hget]
    simp [front]
  have htext : Text.splice t i.position i.text = front ++ '\x7b' :: (trailing ++ ['\n'] ++
      (Text.terminated [s.entry .json ++ returnOf t] ++ behindLine t header)) := by
    rw [hsplice, hthrough]
    simp
  refine ⟨i, hplan, fun w => ?_⟩
  rw [htext]
  exact ⟨fun hw => hw.unique hreads, fun hw => hw ▸ hreads⟩

/-- A document with carriage returns whose key only ends like that of the rules section. -/
theorem plan_prepends_member_behind_longer_key :
    let s : Switch := ⟨"n/r".toList, ['\t'], by decide, by decide⟩
    let t := "\x7b\r\n \"a\\\"rules\": \x7b \r\n\"x\": [true]\x7d\x7d".toList
    let key : Json.Quoted := ⟨"a\\\"rules".toList, .plain (by decide) (by decide) (by decide)
      (.letter rfl (Json.Quoted.ofPlain "rules".toList (by decide)).valid)⟩
    let member : Json.Quoted × Json.Tree :=
      (.ofPlain ['x'] (by decide), .array [.scalar ⟨"true".toList, Or.inl (by decide)⟩])
    let i : Insertion := ⟨⟨2, 0⟩, "\t\t\"n/r\": \"off\",\r\n".toList, ⟨2, 0⟩⟩
    Json.ReadsAs t (.object [(key, .object [member])]) ∧
      plan t .json s.rule s.indent = some i ∧
      ∀ w, Json.ReadsAs (Text.splice t i.position i.text) w ↔
        w = .object [(key, .object [(s.key (by decide), .string off), member])] := by
  intro s t key member i
  have hv : Json.ReadsAs t (.object [(key, .object [member])]) := by decide +kernel
  have hplan : plan t .json s.rule s.indent = some i := by decide
  have hheader : findRulesHeader (Text.lines t) = some 1 := by decide
  have hline : (Text.lines t)[1]? =
      some (" \"a\\".toList ++ (jsonKey ++ ([' '] ++ '\x7b' :: [' ', '\r']))) := by decide
  have hopen : Json.OpensObject (.object [(key, .object [member])])
      (Text.terminated ((Text.lines t).take 1) ++ (" \"a\\".toList ++ (jsonKey ++ [' '])))
      (.member [] key .here []) [member] := ⟨rfl, by decide⟩
  have hrule : ∀ c ∈ s.rule, c ≠ '"' ∧ c ≠ '\\' ∧ 0x20 ≤ c.toNat := by decide
  have hindent : ∀ c ∈ s.indent, Json.isSpace c = true := by decide
  obtain ⟨j, hj, hall⟩ := (plan_prepends_member s hv hheader (by decide) hline (by decide)
    (by decide) hrule hindent).2 _ _ hopen (by simp)
  obtain rfl := Option.some.inj (hplan.symm.trans hj)
  exact ⟨hv, hplan, hall⟩

/-- Positions of 32 bits are needed: with a header on the line before that of number `2 ^ 32`, the
entry comes in front of the whole text, which is no JSON text then. -/
theorem plan_misses_object :
    let s : Switch := ⟨['a'], [' '], by decide, by decide⟩
    let member : Json.Quoted × Json.Tree :=
      (.ofPlain ['x'] (by decide), .scalar ⟨"true".toList, Or.inl (by decide)⟩)
    let rules := "\x7b\"rules\": \x7b\n\"x\": true\x7d\x7d".toList
    let t := Text.below (UInt32.size - 1) rules
    Json.ReadsAs t (.object [(.ofPlain "rules".toList (by decide), .object [member])]) ∧
      findRulesHeader (Text.lines t) = some (UInt32.size - 1) ∧
      (Text.lines t)[UInt32.size - 1]? = some (['\x7b'] ++ (jsonKey ++ ([' '] ++ ['\x7b']))) ∧
      ∃ i, plan t .json s.rule s.indent = some i ∧
        ∀ w, ¬ Json.ReadsAs (Text.splice t i.position i.text) w := by
  intro s member rules t
  have hrules : Json.ReadsAs rules
      (.object [(.ofPlain "rules".toList (by decide), .object [member])]) := by decide +kernel
  have hv := readsAs_below hrules (UInt32.size - 1)
  have hheader : findRulesHeader (Text.lines t) = some (UInt32.size - 1) :=
    findRulesHeader_below (by decide) _
  have hlt : UInt32.size - 1 + 1 < (Text.lines t).length := by
    rw [Text.lines_below, List.length_append, List.length_replicate]
    exact Nat.add_lt_add_left (by decide) _
  refine ⟨hv, hheader, ?_, not_readsAs_of_wrap hv hheader hlt rfl (by decide) (by decide)⟩
  rw [Text.lines_below, List.getElem?_append_right List.length_replicate.le,
    List.length_replicate, Nat.sub_self]
  rfl

end RuleOff.Config
