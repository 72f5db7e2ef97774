import RuleOff.Proofs.Config.JsonMember
import RuleOff.Proofs.Json.Nesting

/-!
# The object that a JSON entry goes into

The planner takes the first header for that of the rules section, and puts the entry behind the
line of the header. Which object of the tree this is depends on the layout of the text: it is the
object whose brace comes before the end of that line with nothing left open behind it. The search
knows neither the nesting of objects nor what follows a brace on its line.

## Main statements

* `Config.plan_within_iff`: the objects that the entry goes into.
* `Config.plan_within_nested_object`: a text whose first header is not that of its own rules.
-/

namespace RuleOff.Config

/-- The planner's entry goes behind the line of the first header. This is within an object of the
tree, at the level of its members, if and only if the opening brace of the object comes before the
end of that line, and the text between the two closes the brackets that it opens and no others. -/
theorem plan_within_iff (s : Switch) {t : Text} {v : Json.Tree} {i : Insertion}
    (ht : t.Addressable) (hv : Json.ReadsAs t v) (hplan : plan t .json s.rule s.indent = some i) :
    ∃ header, findRulesHeader (Text.lines t) = some header ∧
      i.position.IsEndOf (throughLine t header) ∧
      Text.splice t i.position i.text = throughLine t header ++ i.text ++ behindLine t header ∧
      ∀ place members, v = place.fill (.object members) →
        ∃ front behind, t = front ++ '\x7b' :: behind ∧
          Json.OpensObject v front place members ∧
          (place.Within members (throughLine t header) (behindLine t header) ↔
            ∃ between, throughLine t header = front ++ '\x7b' :: between ∧
              Json.IsBalanced between) := by
  obtain ⟨header, hheader, hplace⟩ := exists_place_of_plan_json ht hplan
  have htext := throughLine_append_behindLine t header
  have hsplice := Text.splice_append hplace (behindLine t header) i.text
  rw [htext] at hsplice
  refine ⟨header, hheader, hplace, hsplice, ?_⟩
  rintro place members rfl
  obtain ⟨front, behind, hfront, hopen⟩ := Json.exists_opensObject hv
  refine ⟨front, behind, hfront, hopen, ?_⟩
  exact Json.within_iff hopen (htext.symm ▸ hv) (htext.trans hfront) (throughLine_cut t header)

/-- A member on the line of the header, with brackets of its own and one in a string. -/
theorem plan_within_iff_behind_member :
    let s : Switch := ⟨['r'], [], by decide, by decide⟩
    let t := "\x7b\"rules\":\x7b\"a\":[\"\x7d\"],\n\"b\":null\x7d\x7d".toList
    let rules : Json.Quoted := .ofPlain "rules".toList (by decide)
    let a : Json.Quoted × Json.Tree :=
      (.ofPlain ['a'] (by decide), .array [.string (.ofPlain ['\x7d'] (by decide))])
    let b : Json.Quoted × Json.Tree :=
      (.ofPlain ['b'] (by decide), .scalar ⟨"null".toList, Or.inl (by decide)⟩)
    let i : Insertion := ⟨⟨1, 0⟩, "\"r\": \"off\",\n".toList, ⟨1, 0⟩⟩
    Json.ReadsAs t (.object [(rules, .object [a, b])]) ∧ plan t .json s.rule s.indent = some i ∧
      findRulesHeader (Text.lines t) = some 0 ∧
      Json.Place.Within (.member [] rules .here []) [a, b] (throughLine t 0) (behindLine t 0) := by
  intro s t rules a b i
  have ht : Text.Addressable t := ⟨by decide, by decide⟩
  have hv : Json.ReadsAs t (.object [(rules, .object [a, b])]) := by decide +kernel
  have hplan : plan t .json s.rule s.indent = some i := by decide
  have hfind : findRulesHeader (Text.lines t) = some 0 := by decide
  obtain ⟨header, hheader, -, -, hall⟩ := plan_within_iff s ht hv hplan
  obtain rfl : 0 = header := Option.some.inj (hfind.symm.trans hheader)
  obtain ⟨front, behind, hfront, hopen, hwithin⟩ := hall (.member [] rules .here []) [a, b] rfl
  have hbefore : Json.Written (Json.Place.member [] rules .here []).tokensBefore
      "\x7b\"rules\":".toList := by decide
  have htext : t = "\x7b\"rules\":".toList ++
      '\x7b' :: "\"a\":[\"\x7d\"],\n\"b\":null\x7d\x7d".toList := by decide
  obtain ⟨rfl, -⟩ := hopen.before.brace_unique hbefore (hfront.symm.trans htext)
  exact ⟨hv, hplan, hfind,
    hwithin.2 ⟨"\"a\":[\"\x7d\"],\n".toList, by decide, by decide⟩⟩

/-- The first header may be that of another object: the entry goes into the rules of an inner
object, and not into those of the text. -/
theorem plan_within_nested_object :
    let s : Switch := ⟨['r'], [], by decide, by decide⟩
    let upTo := "\x7b\"o\":\x7b\"rules\":\x7b\n".toList
    let rest := "\"a\":null\x7d\x7d,\n\"rules\":\x7b\n\"b\":null\x7d\x7d".toList
    let t := upTo ++ rest
    let o : Json.Quoted := .ofPlain ['o'] (by decide)
    let rules : Json.Quoted := .ofPlain "rules".toList (by decide)
    let null : Json.Tree := .scalar ⟨"null".toList, Or.inl (by decide)⟩
    let a : Json.Quoted × Json.Tree := (.ofPlain ['a'] (by decide), null)
    let b : Json.Quoted × Json.Tree := (.ofPlain ['b'] (by decide), null)
    let v : Json.Tree := .object [(o, .object [(rules, .object [a])]), (rules, .object [b])]
    let i : Insertion := ⟨⟨1, 0⟩, "\"r\": \"off\",\n".toList, ⟨1, 0⟩⟩
    Json.ReadsAs t v ∧ plan t .json s.rule s.indent = some i ∧
      Text.splice t i.position i.text = upTo ++ i.text ++ rest ∧
      Json.Place.Within (.member [] o (.member [] rules .here []) [(rules, .object [b])]) [a]
        upTo rest ∧
      ¬ Json.Place.Within (.member [(o, .object [(rules, .object [a])])] rules .here []) [b]
        upTo rest := by
  intro s upTo rest t o rules null a b v i
  have hv : Json.ReadsAs (upTo ++ rest) v := by decide +kernel
  have hcut : rest = [] ∨ ∃ x, upTo = x ++ ['\n'] :=
    Or.inr ⟨"\x7b\"o\":\x7b\"rules\":\x7b".toList, by decide⟩
  refine ⟨hv, by decide, by decide, ?_, ?_⟩
  · have hopen : Json.OpensObject v "\x7b\"o\":\x7b\"rules\":".toList
        (.member [] o (.member [] rules .here []) [(rules, .object [b])]) [a] :=
      ⟨rfl, by decide⟩
    have htext : upTo ++ rest = "\x7b\"o\":\x7b\"rules\":".toList ++ '\x7b' :: ('\n' :: rest) := by
      decide
    exact (Json.within_iff hopen hv htext hcut).2 ⟨['\n'], by decide, by decide⟩
  · have hopen : Json.OpensObject v (upTo ++ "\"a\":null\x7d\x7d,\n\"rules\":".toList)
        (.member [(o, .object [(rules, .object [a])])] rules .here []) [b] :=
      ⟨rfl, by decide⟩
    have htext : upTo ++ rest = (upTo ++ "\"a\":null\x7d\x7d,\n\"rules\":".toList) ++
        '\x7b' :: "\n\"b\":null\x7d\x7d".toList := by decide
    intro hwithin
    obtain ⟨between, hbetween, -⟩ := (Json.within_iff hopen hv htext hcut).1 hwithin
    have hlength := congrArg List.length hbetween
    simp [upTo] at hlength

end RuleOff.Config
