import RuleOff.Workspace

/-!
# Calls of a workspace in memory

What a workspace is after each of the operations that a disable command asks of it. Every operation
is noted among the calls, and the only one that changes a file is to insert a text. An operation
that fails does nothing but be noted.

## Main definitions

* `Workspace.Behaviour.failure?`: the failure that a call ends in.
* `Workspace.noted`: the workspace with one more call.

## Main statements

* `Workspace.text?_put`: what is in the files when a text is put at a path.
* `Workspace.insert_bind_run`, and one such lemma for each other operation: what is left to do after
  a call, and in which workspace.
-/

namespace RuleOff.Workspace

/-- The failure that a call ends in, if it is one that fails. -/
def Behaviour.failure? (b : Behaviour) : Call → Option DisableError
  | .isFile _ | .indentation _ _ => none
  | .read p => b.readFailure.map (· p)
  | .insert p _ _ => b.insertFailure.map (· p)
  | .reveal p _ => b.revealFailure.map (· p)

@[simp]
theorem Behaviour.failure?_indentation (b : Behaviour) (p : Path) (settings : Settings) :
    b.failure? (.indentation p settings) = none := rfl

/-! ### Files -/

section Files

variable {w : Workspace} {p q : Path} {t : Text}

theorem text?_congr (w : Workspace) (h : p.same q = true) : w.text? p = w.text? q := by
  have components : p.components = q.components := Path.same_iff.mp h
  unfold text? Path.same
  rw [components]

theorem find?_putFile (p q : Path) (t : Text) (files : List (Path × Text)) :
    ((putFile p t files).find? fun f => f.1.same q).map Prod.snd =
      if p.same q = true then some t else (files.find? fun f => f.1.same q).map Prod.snd := by
  induction files with
  | nil =>
    by_cases h : p.same q = true <;> simp [putFile, h]
  | cons f files ih =>
    obtain ⟨r, u⟩ := f
    unfold putFile
    by_cases here : r.same p = true
    · -- The file that is there keeps its path, which is the same place as the given one.
      have place : r.same q = p.same q := by
        unfold Path.same
        rw [Path.same_iff.mp here]
      rw [if_pos here, List.find?_cons, List.find?_cons, place]
      cases p.same q <;> rfl
    · rw [if_neg here, List.find?_cons, List.find?_cons]
      cases elsewhere : r.same q with
      | false => exact ih
      | true =>
        have other : ¬ p.same q = true := by
          intro h
          apply here
          rw [Path.same_iff] at h elsewhere ⊢
          rw [elsewhere, h]
        rw [if_neg other]

/-- What is in the files when a text is put at a path. -/
theorem text?_put (w : Workspace) (p q : Path) (t : Text) :
    (w.put p t).text? q = if p.same q = true then some t else w.text? q :=
  find?_putFile p q t w.files

theorem map_fst_putFile {files : List (Path × Text)} (p : Path) (t : Text)
    (there : (files.find? fun f => f.1.same p).isSome) :
    (putFile p t files).map Prod.fst = files.map Prod.fst := by
  induction files with
  | nil => exact absurd there Bool.false_ne_true
  | cons f files ih =>
    obtain ⟨r, u⟩ := f
    unfold putFile
    by_cases here : r.same p = true
    · rw [if_pos here]
      rfl
    · rw [List.find?_cons, eq_false_of_ne_true here] at there
      rw [if_neg here, List.map_cons, List.map_cons, ih there]

theorem paths_put {w : Workspace} {p : Path} {u : Text} (there : w.text? p = some u) (t : Text) :
    (w.put p t).files.map Prod.fst = w.files.map Prod.fst := by
  apply map_fst_putFile
  unfold text? at there
  rw [Option.map_eq_some_iff] at there
  obtain ⟨f, found, -⟩ := there
  rw [found]
  rfl

/-- Whether there is a text at a path depends on the paths of the files alone. -/
theorem isSome_text? (w : Workspace) (p : Path) :
    (w.text? p).isSome = (w.files.map Prod.fst).any fun q => q.same p := by
  unfold text?
  rw [Option.isSome_map, List.isSome_find?, List.any_map]
  rfl

end Files

/-! ### One call -/

section Operations

variable {α : Type} {w : Workspace} {p : Path} {t : Text}

/-- The workspace with one more call. -/
def noted (w : Workspace) (c : Call) : Workspace := { w with calls := w.calls ++ [c] }

theorem read_bind_run (b : Behaviour) (text : w.text? p = some t)
    (f : Text → ExceptT DisableError (StateM Workspace) α) :
    ((editor b).read p >>= f).run.run w =
      match b.failure? (.read p) with
      | some e => (.error e, w.noted (.read p))
      | none => (f t).run.run (w.noted (.read p)) := by
  obtain ⟨_, readFailure, _, _⟩ := b
  cases readFailure with
  | some e => rfl
  | none =>
    have kept : ({ w with calls := w.calls ++ [.read p] } : Workspace).text? p = some t := text
    simp [editor, failing, note, kept, noted, Behaviour.failure?]

theorem indentation_bind_run (b : Behaviour) (settings : Settings)
    (f : Settings → ExceptT DisableError (StateM Workspace) α) :
    (ExceptT.lift ((editor b).indentation p settings) >>= f).run.run w =
      (f (b.indentation.getD settings)).run.run (w.noted (.indentation p settings)) := rfl

theorem insert_bind_run (b : Behaviour) (text : w.text? p = some t) (place : Position) (new : Text)
    (f : Unit → ExceptT DisableError (StateM Workspace) α) :
    ((editor b).insert p place new >>= f).run.run w =
      match b.failure? (.insert p place new) with
      | some e => (.error e, w.noted (.insert p place new))
      | none =>
        (f ()).run.run ((w.noted (.insert p place new)).put p (Text.splice t place new)) := by
  obtain ⟨_, _, insertFailure, _⟩ := b
  cases insertFailure with
  | some e => rfl
  | none =>
    have kept : ({ w with calls := w.calls ++ [.insert p place new] } : Workspace).text? p =
        some t := text
    simp [editor, failing, note, kept, noted, Behaviour.failure?]

theorem reveal_bind_run (b : Behaviour) (cursor : Option Position)
    (f : Unit → ExceptT DisableError (StateM Workspace) α) :
    ((editor b).reveal p cursor >>= f).run.run w =
      match b.failure? (.reveal p cursor) with
      | some e => (.error e, w.noted (.reveal p cursor))
      | none => (f ()).run.run (w.noted (.reveal p cursor)) := by
  obtain ⟨_, _, _, revealFailure⟩ := b
  cases revealFailure <;> rfl

theorem record_run (b : Behaviour) (r : LogRecord) (a : α) :
    (ExceptT.lift ((editor b).record r) >>= fun _ =>
      (pure a : ExceptT DisableError (StateM Workspace) α)).run.run w =
      (.ok a, { w with log := w.log ++ [r] }) := rfl

end Operations

end RuleOff.Workspace
