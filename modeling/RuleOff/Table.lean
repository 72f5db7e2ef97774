import RuleOff.Text.Basic

/-!
# Tables

Values stored under texts, at most one under each.

## Main statements

* `Table.get?_insert`, `Table.get?_erase`: what a table holds after a change.
-/

namespace RuleOff

/-- Values stored under texts. Of two entries with the same key the first counts. -/
structure Table (α : Type) where
  entries : List (Text × α) := []
deriving Repr, Inhabited

namespace Table

variable {α : Type}

/-- The table that holds nothing. -/
def empty : Table α := ⟨[]⟩

/-- The value stored under a key. -/
def get? (t : Table α) (key : Text) : Option α :=
  (t.entries.find? fun e => e.1 == key).map Prod.snd

/-- The table without what is stored under a key. -/
def erase (t : Table α) (key : Text) : Table α := ⟨t.entries.filter fun e => e.1 != key⟩

/-- The table with a value stored under a key, in place of what was stored there before. -/
def insert (t : Table α) (key : Text) (value : α) : Table α :=
  ⟨(key, value) :: (t.erase key).entries⟩

@[simp] theorem get?_empty (key : Text) : (empty : Table α).get? key = none := rfl

theorem find?_filter_ne (es : List (Text × α)) {k key : Text} (h : k ≠ key) :
    (es.filter fun e => e.1 != k).find? (fun e => e.1 == key) =
      es.find? fun e => e.1 == key := by
  induction es with
  | nil => rfl
  | cons e es ih =>
    by_cases he : e.1 = k
    · have hne : (e.1 == key) = false := by simp [he, h]
      simp [he, ih, h]
    · simp only [List.filter_cons, bne_iff_ne, ne_eq, he, not_false_eq_true, if_true,
        List.find?_cons, ih]

theorem get?_erase (t : Table α) (k key : Text) :
    (t.erase k).get? key = if k = key then none else t.get? key := by
  unfold erase get?
  split
  next h =>
    subst h
    have : (t.entries.filter fun e => e.1 != k).find? (fun e => e.1 == k) = none := by
      simp [List.find?_eq_none]
    rw [this]
    rfl
  next h => rw [find?_filter_ne _ h]

theorem get?_insert (t : Table α) (k key : Text) (v : α) :
    (t.insert k v).get? key = if k = key then some v else t.get? key := by
  by_cases h : k = key
  · simp [insert, get?, h]
  · have := get?_erase t k key
    rw [if_neg h] at this
    rw [if_neg h, ← this]
    simp [insert, get?, h]

end Table

end RuleOff
