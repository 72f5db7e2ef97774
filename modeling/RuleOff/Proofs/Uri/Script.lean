import RuleOff.CodeAction

/-!
# Paths of scripts

Quick fixes are offered in documents whose path has the extension of a script. The extension is found
in the components of the path; here it is read off the path as it is written.

## Main definitions

* `Uri.IsScript`: a path that ends in the name of a script.

## Main statements

* `Path.nameExtension?_eq_some_iff`: the extension of a name.
* `Path.getLast?_components_iff`: the last component of a path.
* `CodeAction.appliesTo_iff`: quick fixes are offered for scripts.
-/

namespace RuleOff

/-- The path ends in the name of a script: a stem, a dot and one of the extensions of scripts, behind a
slash or at the start. Slashes behind the name do not count, nor do single dots behind these. -/
def Uri.IsScript (path : Text) : Prop :=
  ∃ (front stem ext : Text) (back : List Text),
    path = front ++ (stem ++ '.' :: ext) ++ back.flatMap ('/' :: ·) ∧
      (front = [] ∨ front.getLast? = some '/') ∧ stem ≠ [] ∧ '/' ∉ stem ∧
      ext ∈ CodeAction.scriptExtensions ∧ ∀ piece ∈ back, piece = [] ∨ piece = ['.']

namespace Text

theorem join_cons (sep : Char) (p : Text) (ps : List Text) :
    join sep (p :: ps) = p ++ ps.flatMap (sep :: ·) := by
  induction ps generalizing p with
  | nil => simp [join]
  | cons q ps ih => rw [join, ih, List.flatMap_cons, List.cons_append]

/-- Pieces are the last of a text if what they join to stands at its end, behind a separator or from
the start. -/
theorem exists_split_eq_append_iff {sep : Char} {t p : Text} {ps : List Text}
    (free : ∀ q ∈ p :: ps, sep ∉ q) :
    (∃ ahead, split sep t = ahead ++ p :: ps) ↔
      ∃ front, t = front ++ join sep (p :: ps) ∧ (front = [] ∨ front.getLast? = some sep) := by
  constructor
  · rintro ⟨ahead, pieces⟩
    have whole := join_split sep t
    rw [pieces] at whole
    cases ahead with
    | nil => exact ⟨[], whole.symm, .inl rfl⟩
    | cons a ahead =>
      refine ⟨a ++ ahead.flatMap (sep :: ·) ++ [sep], ?_, .inr (by simp)⟩
      rw [← whole, List.cons_append, join_cons, join_cons]
      simp
  · rintro ⟨front, rfl, start | slash⟩
    · exact ⟨[], by rw [start, List.nil_append, split_join (List.cons_ne_nil p ps) free]; rfl⟩
    · obtain ⟨front, rfl⟩ := List.getLast?_eq_some_iff.mp slash
      refine ⟨split sep front, ?_⟩
      rw [List.append_assoc, List.singleton_append, split_append,
        split_join (List.cons_ne_nil p ps) free]

end Text

namespace Path

theorem nameExtension?_append (stem : Text) {ext : Text} (h : '.' ∉ ext) :
    nameExtension? (stem ++ '.' :: ext) = if stem = [] then none else some ext := by
  have back : (stem ++ '.' :: ext).reverse = ext.reverse ++ '.' :: stem.reverse := by simp
  have plain : ∀ c ∈ ext.reverse, decide (c ≠ '.') = true := fun c mem =>
    decide_eq_true fun e => h (e ▸ List.mem_reverse.mp mem)
  unfold nameExtension?
  dsimp only
  rw [back, List.takeWhile_append_of_pos plain, List.dropWhile_append_of_pos plain]
  by_cases none : stem = [] <;> simp [none]

/-- The extension of a name is what follows its last dot, unless the name begins there. -/
theorem nameExtension?_eq_some_iff {n ext : Text} :
    nameExtension? n = some ext ↔ '.' ∉ ext ∧ ∃ stem, stem ≠ [] ∧ n = stem ++ '.' :: ext := by
  constructor
  · intro h
    have dot : '.' ∈ n := Decidable.byContradiction fun none => by
      simp [nameExtension?, none] at h
    obtain ⟨ext', stem', back, plain⟩ := List.eq_append_cons_of_mem (List.mem_reverse.mpr dot)
    have name : n = stem'.reverse ++ '.' :: ext'.reverse := by
      rw [← List.reverse_reverse n, back]
      simp
    have plain' : '.' ∉ ext'.reverse := fun mem => plain (List.mem_reverse.mp mem)
    rw [name, nameExtension?_append _ plain'] at h
    split at h
    · exact absurd h (by simp)
    · next some =>
      obtain rfl := Option.some.inj h
      exact ⟨plain', _, some, name⟩
  · rintro ⟨plain, stem, some, rfl⟩
    rw [nameExtension?_append stem plain, if_neg some]

theorem component?_eq_name_iff {piece n : Text} :
    component? piece = some (.name n) ↔
      piece = n ∧ n ≠ [] ∧ n ≠ ['.'] ∧ n ≠ ['.', '.'] := by
  unfold component?
  split
  · next none =>
    refine ⟨fun e => absurd e (by simp), ?_⟩
    rintro ⟨rfl, empty, dot, -⟩
    exact absurd none (not_or.mpr ⟨empty, dot⟩)
  · next some =>
    split
    · next up =>
      refine ⟨fun e => absurd e (by simp), ?_⟩
      rintro ⟨rfl, -, -, other⟩
      exact absurd up other
    · next other =>
      constructor
      · intro e
        obtain rfl : piece = n := by simpa using e
        exact ⟨rfl, (not_or.mp some).1, (not_or.mp some).2, other⟩
      · rintro ⟨rfl, -⟩
        rfl

theorem component?_eq_none_iff {piece : Text} :
    component? piece = none ↔ piece = [] ∨ piece = ['.'] := by
  unfold component?
  split
  · next none => exact ⟨fun _ => none, fun _ => rfl⟩
  · next some =>
    refine ⟨fun e => ?_, fun h => absurd h some⟩
    split at e <;> exact absurd e (by simp)

theorem getLast?_cons_eq_some_iff {α : Type} {x y : α} (differ : x ≠ y) (l : List α) :
    (x :: l).getLast? = some y ↔ l.getLast? = some y := by
  rw [List.getLast?_cons]
  cases l.getLast? <;> simp [differ]

/-- The last component of a path is a name if only pieces follow it that do not count. -/
theorem getLast?_components_iff {p : Path} {n : Text} :
    p.components.getLast? = some (.name n) ↔
      (n ≠ [] ∧ n ≠ ['.'] ∧ n ≠ ['.', '.']) ∧ ∃ ahead back,
        Text.split '/' p.text = ahead ++ n :: back ∧ ∀ piece ∈ back, piece = [] ∨ piece = ['.'] := by
  have pieces : p.components.getLast? = some (.name n) ↔
      ((Text.split '/' p.text).filterMap component?).getLast? = some (.name n) := by
    unfold components
    dsimp only
    split
    · exact getLast?_cons_eq_some_iff Component.noConfusion _
    · split
      · exact getLast?_cons_eq_some_iff Component.noConfusion _
      · rfl
  rw [pieces, List.getLast?_eq_some_iff]
  constructor
  · rintro ⟨before, all⟩
    obtain ⟨ahead, rest, split, -, last⟩ := List.filterMap_eq_append_iff.mp all
    obtain ⟨skipped, piece, back, rfl, -, name, none⟩ := List.filterMap_eq_cons_iff.mp last
    obtain ⟨rfl, proper⟩ := component?_eq_name_iff.mp name
    rw [List.filterMap_eq_nil_iff] at none
    exact ⟨proper, ahead ++ skipped, back, by rw [split]; simp, fun piece mem =>
      component?_eq_none_iff.mp (none piece mem)⟩
  · rintro ⟨proper, ahead, back, split, none⟩
    have skipped : back.filterMap component? = [] :=
      List.filterMap_eq_nil_iff.mpr fun piece mem => component?_eq_none_iff.mpr (none piece mem)
    refine ⟨ahead.filterMap component?, ?_⟩
    rw [split, List.filterMap_append, List.filterMap_cons,
      component?_eq_name_iff.mpr ⟨rfl, proper⟩, skipped]

end Path

namespace CodeAction

/-- The extensions of scripts are proper extensions of file names. -/
theorem plain_of_mem_scriptExtensions :
    ∀ ext ∈ scriptExtensions, '.' ∉ ext ∧ '/' ∉ ext ∧ 2 ≤ ext.length := by
  decide

/-- Quick fixes are offered in a document if its path ends in the name of a script. -/
theorem appliesTo_iff (u : Uri) : appliesTo u = true ↔ Uri.IsScript u.path := by
  constructor
  · intro h
    unfold appliesTo at h
    split at h
    · next ext extension =>
      have script : ext ∈ scriptExtensions := by simpa using h
      unfold Path.extension? at extension
      split at extension
      · next n last =>
        obtain ⟨-, ahead, back, split, skipped⟩ := Path.getLast?_components_iff.mp last
        obtain ⟨-, stem, some, rfl⟩ := Path.nameExtension?_eq_some_iff.mp extension
        have free : ∀ q ∈ (stem ++ '.' :: ext) :: back, '/' ∉ q := fun q mem =>
          Text.notMem_of_mem_split (by rw [split]; exact List.mem_append_right _ mem)
        obtain ⟨front, path, start⟩ :=
          (Text.exists_split_eq_append_iff free).mp ⟨ahead, split⟩
        rw [Text.join_cons, ← List.append_assoc] at path
        refine ⟨front, stem, ext, back, path, start, some, ?_, script, skipped⟩
        exact fun mem => free _ List.mem_cons_self (List.mem_append_left _ mem)
      · exact absurd extension (by simp)
    · exact absurd h Bool.false_ne_true
  · rintro ⟨front, stem, ext, back, path, start, some, free, script, skipped⟩
    obtain ⟨dots, slashes, long⟩ := plain_of_mem_scriptExtensions ext script
    have length : 4 ≤ (stem ++ '.' :: ext).length := by
      have := List.length_pos_iff.mpr some
      simp only [List.length_append, List.length_cons]
      omega
    have proper : stem ++ '.' :: ext ≠ [] ∧ stem ++ '.' :: ext ≠ ['.'] ∧
        stem ++ '.' :: ext ≠ ['.', '.'] := by
      refine ⟨?_, ?_, ?_⟩ <;> intro e <;> rw [e] at length <;> exact absurd length (by decide)
    have pieces : ∀ q ∈ (stem ++ '.' :: ext) :: back, '/' ∉ q := by
      intro q mem
      rcases List.mem_cons.mp mem with rfl | mem
      · simp [free, slashes]
      · rcases skipped q mem with rfl | rfl <;> decide
    rw [List.append_assoc, ← Text.join_cons] at path
    obtain ⟨ahead, split⟩ := (Text.exists_split_eq_append_iff pieces).mpr ⟨front, path, start⟩
    have last :=
      Path.getLast?_components_iff (p := ⟨u.path⟩).mpr ⟨proper, ahead, back, split, skipped⟩
    have extension := Path.nameExtension?_eq_some_iff.mpr ⟨dots, stem, some, rfl⟩
    unfold appliesTo Path.extension?
    simp only [last, extension]
    simpa using script

end CodeAction

end RuleOff
