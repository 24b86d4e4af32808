/-!
# Lists ordered by key

Pairs of a text and a value, each text once, in ascending order. `insert` keeps the order and
replaces the value of a text that is present; `find?` reads what was inserted last.
-/

set_option autoImplicit false

namespace ApiLint.Keyed

variable {α : Type}

/-- Writes a value: in place of the one with the same key, or where the order puts it. -/
def insert (key : String) (value : α) : List (String × α) → List (String × α)
  | [] => [(key, value)]
  | (k, v) :: rest =>
    if k = key then (key, value) :: rest
    else if key < k then (key, value) :: (k, v) :: rest
    else (k, v) :: insert key value rest

/-- The value under a key. -/
def find? (key : String) : List (String × α) → Option α
  | [] => none
  | (k, v) :: rest => if k = key then some v else find? key rest

/-- Writes all pairs; of pairs with one key the last stays. -/
def ofList (pairs : List (String × α)) : List (String × α) :=
  pairs.foldl (fun out p => insert p.1 p.2 out) []

@[simp]
theorem find?_insert (key k : String) (value : α) (pairs : List (String × α)) :
    find? k (insert key value pairs) = if key = k then some value else find? k pairs := by
  induction pairs with
  | nil => simp [insert, find?]
  | cons p pairs ih =>
    obtain ⟨k', v⟩ := p
    unfold insert
    split
    · next h => subst h; simp only [find?]; split <;> rfl
    · next h =>
      split
      · simp only [find?]
      · simp only [find?, ih]
        by_cases hk : k' = k
        · have : ¬ key = k := fun hkey => h (hk.trans hkey.symm)
          simp [hk, this]
        · simp [hk]

end ApiLint.Keyed
