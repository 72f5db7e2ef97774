import RuleOff.Proofs.Session.Snapshot

/-!
# Servers that differ in their documents

A conversation that looks up neither documents nor files does not notice what they are. This
module compares two servers that have other copies of documents, and otherwise the same.

## Main definitions

* `Server.Alike`: two servers differ in their documents at most.
* `Exchange.IsTalk`: nothing is looked up.

## Main statements

* `Server.Alike.hear`: such servers hear a notification alike.
* `Session.run_talk`: talk comes to the same with both servers, and with any disks.
* `Session.run_settled_bind`: a conversation that has looked up what it looks up first comes to the
  same.
-/

namespace RuleOff

namespace Server

/-- The servers differ in their documents at most. -/
structure Alike (s s' : Server) : Prop where
  phase : s.phase = s'.phase
  folders : s.folders = s'.folders
  settings : s.settings = s'.settings

variable {s s' : Server}

protected theorem Alike.refl (s : Server) : Alike s s := ⟨rfl, rfl, rfl⟩

protected theorem Alike.trans {s s' s'' : Server} (first : Alike s s') (second : Alike s' s'') :
    Alike s s'' :=
  ⟨first.phase.trans second.phase, first.folders.trans second.folders,
    first.settings.trans second.settings⟩

theorem Alike.symm (alike : Alike s s') : Alike s' s :=
  ⟨alike.phase.symm, alike.folders.symm, alike.settings.symm⟩

theorem alike_openDocument (s : Server) (p : OpenParams) : Alike (s.openDocument p) s :=
  ⟨rfl, rfl, rfl⟩

theorem alike_closeDocument (s : Server) (u : Uri) : Alike (s.closeDocument u) s :=
  ⟨rfl, rfl, rfl⟩

theorem alike_changeDocument (s : Server) (p : ChangeParams) : Alike (s.changeDocument p) s := by
  unfold changeDocument
  split
  · exact ⟨rfl, rfl, rfl⟩
  · exact .refl s

theorem Alike.updateSettings (alike : Alike s s') (v : Json) :
    Alike (s.updateSettings v).1 (s'.updateSettings v).1 ∧
      (s.updateSettings v).2 = (s'.updateSettings v).2 := by
  unfold Server.updateSettings
  rw [alike.settings]
  split
  · exact ⟨⟨alike.phase, alike.folders, rfl⟩, rfl⟩
  · exact ⟨alike, rfl⟩
  · exact ⟨alike, rfl⟩

theorem Alike.changeFolders (alike : Alike s s') (c : FolderChange) :
    Alike (s.changeFolders c) (s'.changeFolders c) := by
  unfold Server.changeFolders
  rw [alike.folders]
  exact ⟨alike.phase, rfl, alike.settings⟩

theorem Alike.hearRunning (alike : Alike s s') (n : Invocation) :
    Alike (s.hearRunning n).1 (s'.hearRunning n).1 ∧
      (s.hearRunning n).2 = (s'.hearRunning n).2 := by
  -- What changes the documents only is alike on both sides of each change.
  have kept {t t' : Server} (left : Alike t s) (right : Alike t' s') : Alike t t' :=
    left.trans (alike.trans right.symm)
  obtain ⟨f, hearing, same⟩ := exists_hearing n
  rw [same, same]
  cases hearing with
  | opened _ _ => exact ⟨kept (alike_openDocument s _) (alike_openDocument s' _), rfl⟩
  | changed _ _ => exact ⟨kept (alike_changeDocument s _) (alike_changeDocument s' _), rfl⟩
  | closed u => exact ⟨kept (alike_closeDocument s u) (alike_closeDocument s' u), rfl⟩
  | configured v =>
    obtain ⟨later, records⟩ := alike.updateSettings v
    exact ⟨later, congrArg (List.map Event.logged) records⟩
  | moved c => exact ⟨alike.changeFolders c, rfl⟩
  | ended => exact ⟨⟨rfl, alike.folders, alike.settings⟩, rfl⟩
  | nothing => exact ⟨alike, rfl⟩
  | ready _ => exact ⟨alike, rfl⟩

/-- Servers that differ in their documents hear a notification alike. -/
theorem Alike.hear (alike : Alike s s') (n : Invocation) :
    Alike (s.hear n).1 (s'.hear n).1 ∧ (s.hear n).2 = (s'.hear n).2 := by
  unfold Server.hear
  rw [alike.phase]
  split
  · exact ⟨⟨rfl, alike.folders, alike.settings⟩, rfl⟩
  · split
    · exact alike.hearRunning n
    · exact ⟨alike, rfl⟩

theorem Alike.hearAll (alike : Alike s s') (ns : List Invocation) :
    Alike (s.hearAll ns).1 (s'.hearAll ns).1 ∧ (s.hearAll ns).2 = (s'.hearAll ns).2 := by
  induction ns generalizing s s' with
  | nil => exact ⟨alike, rfl⟩
  | cons n ns ih =>
    obtain ⟨first, seen⟩ := alike.hear n
    obtain ⟨rest, more⟩ := ih first
    refine ⟨rest, ?_⟩
    change (s.hear n).2 ++ ((s.hear n).1.hearAll ns).2 = (s'.hear n).2 ++ _
    rw [seen, more]
    rfl

end Server

namespace Exchange

variable {α β : Type}

/-- Neither documents nor files are looked up. -/
def IsTalk : Exchange α → Prop
  | done _ => True
  | log _ next => next.IsTalk
  | notify _ next => next.IsTalk
  | ask _ next => ∀ reply, (next reply).IsTalk
  | document _ _ => False
  | isFile _ _ => False
  | readFile _ _ => False

theorem IsTalk.bind {x : Exchange α} (talk : x.IsTalk) {f : α → Exchange β}
    (then_talk : ∀ a, (f a).IsTalk) : (x.bind f).IsTalk := by
  induction x with
  | done a => exact then_talk a
  | log r next ih => exact ih talk
  | notify n next ih => exact ih talk
  | ask q next ih => exact fun reply => ih reply (talk reply)
  | document u next _ => exact talk.elim
  | isFile p next _ => exact talk.elim
  | readFile p next _ => exact talk.elim

end Exchange

namespace Session

variable {α β : Type} {client : Client}

/-- What is seen of talk, and its value, do not depend on documents and files. -/
theorem run_talk {x : Exchange α} (talk : x.IsTalk) {s s' : Server} (alike : s.Alike s')
    (disk disk' : Disk) :
    (run disk client s x).events = (run disk' client s' x).events ∧
      (run disk client s x).value = (run disk' client s' x).value := by
  induction x generalizing s s' with
  | done a => exact ⟨rfl, rfl⟩
  | log r next ih =>
    obtain ⟨events, value⟩ := ih talk alike
    exact ⟨congrArg (List.cons (Event.logged r)) events, value⟩
  | notify n next ih =>
    obtain ⟨events, value⟩ := ih talk alike
    exact ⟨congrArg (List.cons (Event.sent (.notification n))) events, value⟩
  | ask q next ih =>
    rw [run_ask, run_ask]
    by_cases connected : client.connected = true
    · obtain ⟨later, heard⟩ := alike.hearAll (client.answer q).before
      rw [if_pos connected, if_pos connected]
      dsimp only
      rw [later.phase, heard]
      split
      · exact ⟨rfl, rfl⟩
      · obtain ⟨events, value⟩ := ih (client.answer q).reply (talk _) later
        refine ⟨?_, value⟩
        change _ ++ (run disk client _ _).events = _ ++ (run disk' client _ _).events
        rw [events]
    · rw [if_neg connected, if_neg connected]
      exact ih _ (talk _) alike
  | document u next _ => exact talk.elim
  | isFile p next _ => exact talk.elim
  | readFile p next _ => exact talk.elim

/-- A conversation goes on from what is left of it when it has looked up what it looks up first. -/
theorem run_settled_bind (disk : Disk) (client : Client) (s : Server) (x : Exchange α)
    (f : α → Exchange β) :
    run disk client s ((settled disk s x).bind f) = run disk client s (x.bind f) := by
  induction x with
  | document u next ih => exact ih _
  | isFile p next ih => exact ih _
  | readFile p next ih => exact ih _
  | _ => rfl

end Session

end RuleOff
