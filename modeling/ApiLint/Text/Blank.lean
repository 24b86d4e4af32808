/-!
# White space

The white-space characters of Unicode 15 as closed ranges of code points, and the two ways in
which texts are cut at them: `trim` takes them off both ends, `words` keeps the runs between them.
-/

set_option autoImplicit false

namespace ApiLint.Text

/-- Closed ranges of code points, ascending and apart. -/
def blankRanges : List (Nat × Nat) :=
  [(0x09, 0x0D), (0x20, 0x20), (0x85, 0x85), (0xA0, 0xA0), (0x1680, 0x1680), (0x2000, 0x200A),
   (0x2028, 0x2029), (0x202F, 0x202F), (0x205F, 0x205F), (0x3000, 0x3000)]

def isBlank (c : Char) : Bool :=
  blankRanges.any fun r => r.1 ≤ c.toNat && c.toNat ≤ r.2

def trimStart (s : List Char) : List Char :=
  s.dropWhile isBlank

def trimEnd (s : List Char) : List Char :=
  (s.reverse.dropWhile isBlank).reverse

/-- The text without the white space at its ends. -/
def trim (s : String) : String :=
  String.ofList (trimEnd (trimStart s.toList))

/-- Splits at every character that satisfies `p`; neighbouring separators leave empty pieces. -/
def splitAt (p : Char → Bool) : List Char → List (List Char)
  | [] => [[]]
  | c :: rest =>
    if p c then [] :: splitAt p rest
    else
      match splitAt p rest with
      | [] => [[c]]
      | piece :: pieces => (c :: piece) :: pieces

/-- The maximal runs of characters that are not white space. -/
def words (s : String) : List String :=
  ((splitAt isBlank s.toList).filter (· ≠ [])).map String.ofList

/-- The pieces between the occurrences of one character. -/
def splitOn (separator : Char) (s : String) : List String :=
  (splitAt (· == separator) s.toList).map String.ofList

def isEmptyOrBlank (s : String) : Bool :=
  s.toList.all isBlank

theorem splitAt_ne_nil (p : Char → Bool) (s : List Char) : splitAt p s ≠ [] := by
  cases s with
  | nil => simp [splitAt]
  | cons c rest =>
    unfold splitAt
    split
    · simp
    · split <;> simp

/-- A text without separators is the first piece of what it starts. -/
theorem splitAt_append {p : Char → Bool} {xs : List Char} (hxs : ∀ c ∈ xs, p c = false)
    {ys piece : List Char} {pieces : List (List Char)} (hys : splitAt p ys = piece :: pieces) :
    splitAt p (xs ++ ys) = (xs ++ piece) :: pieces := by
  induction xs with
  | nil => exact hys
  | cons x xs ih =>
    rw [List.cons_append, splitAt, hxs x List.mem_cons_self, ih fun c hc => hxs c (.tail _ hc)]
    rfl

end ApiLint.Text
