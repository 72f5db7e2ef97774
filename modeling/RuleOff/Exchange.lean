import RuleOff.Log
import RuleOff.Protocol.Client

/-!
# Conversations

A conversation is what the server does until it is done: it writes to the log, notifies the
client, looks at documents and files, and asks the client, after which it waits and goes on with
the reply. Whatever happens while it waits happens between two steps of this value, so a
conversation can be run against any client and interleaved with anything else.

## Main definitions

* `Exchange`: the conversations that end in a value.
* `Document`: an open document as the server knows it.

## Main statements

* `Exchange` is a lawful monad.
-/

namespace RuleOff

/-- An open document: its text, and the version under which the client announced it. -/
structure Document where
  text : Text
  version : Int
deriving DecidableEq, Repr, Inhabited

/-- A conversation that ends in a value. -/
inductive Exchange (α : Type) where
  /-- The conversation is over. -/
  | done (a : α)
  /-- Writes a line of the log. -/
  | log (r : LogRecord) (next : Exchange α)
  | notify (n : ClientNotification) (next : Exchange α)
  | ask (q : ClientRequest) (next : Reply → Exchange α)
  /-- Looks up an open document. -/
  | document (u : Uri) (next : Option Document → Exchange α)
  | isFile (p : Path) (next : Bool → Exchange α)
  /-- Reads a file, or learns why it cannot be read. -/
  | readFile (p : Path) (next : Except Text Text → Exchange α)

namespace Exchange

variable {α β γ : Type}

/-- The first conversation, and after it the one for its value. -/
def bind : Exchange α → (α → Exchange β) → Exchange β
  | done a, f => f a
  | log r next, f => log r (next.bind f)
  | notify n next, f => notify n (next.bind f)
  | ask q next, f => ask q fun a => (next a).bind f
  | document u next, f => document u fun a => (next a).bind f
  | isFile p next, f => isFile p fun a => (next a).bind f
  | readFile p next, f => readFile p fun a => (next a).bind f

instance : Monad Exchange where
  pure := done
  bind := bind

@[simp] theorem pure_eq (a : α) : (pure a : Exchange α) = done a := rfl

@[simp] theorem bind_eq (x : Exchange α) (f : α → Exchange β) : x >>= f = x.bind f := rfl

theorem bind_done (x : Exchange α) : x.bind done = x := by
  induction x with
  | done a => rfl
  | log r next ih => rw [bind, ih]
  | notify n next ih => rw [bind, ih]
  | ask q next ih => rw [bind]; congr 1; funext a; exact ih a
  | document u next ih => rw [bind]; congr 1; funext a; exact ih a
  | isFile p next ih => rw [bind]; congr 1; funext a; exact ih a
  | readFile p next ih => rw [bind]; congr 1; funext a; exact ih a

theorem bind_assoc (x : Exchange α) (f : α → Exchange β) (g : β → Exchange γ) :
    (x.bind f).bind g = x.bind fun a => (f a).bind g := by
  induction x with
  | done a => rfl
  | log r next ih => rw [bind, bind, bind, ih]
  | notify n next ih => rw [bind, bind, bind, ih]
  | ask q next ih => rw [bind, bind, bind]; congr 1; funext a; exact ih a
  | document u next ih => rw [bind, bind, bind]; congr 1; funext a; exact ih a
  | isFile p next ih => rw [bind, bind, bind]; congr 1; funext a; exact ih a
  | readFile p next ih => rw [bind, bind, bind]; congr 1; funext a; exact ih a

instance : LawfulMonad Exchange :=
  LawfulMonad.mk' (m := Exchange) bind_done (fun _ _ => rfl) bind_assoc

end Exchange

end RuleOff
