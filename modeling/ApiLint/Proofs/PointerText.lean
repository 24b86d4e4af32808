import ApiLint.Proofs.Addresses

/-!
# Pointers decode to what they encode

A pointer is written and read by replacing texts, the writer's and the reader's replacements each
one after the other over the whole text (`Text.replaceAll`):

* **The writer** puts `~0` for each tilde, then `~1` for each slash (`PointerText.write`). As the
  second replacement meets no tilde, each character is replaced by itself
  (`PointerText.write_eq_flatMap`).
* **The reader** puts a slash for each `~1`, then a tilde for each `~0` (`PointerText.read`). The first
  replacement leaves no escape behind that was not there, so both can be made in one pass
  (`PointerText.read_eq_unescape`).

Whatever characters a step holds, its piece of the pointer is read as its text
(`PointerText.pointer_decodes`).
-/

set_option autoImplicit false

namespace ApiLint

/-! ## Replacing texts -/

namespace Text

/-- Replaces the occurrences of a pattern behind the first `skip` characters, which are dropped. -/
def replaceFrom (pattern replacement : List Char) : Nat → List Char → List Char
  | _, [] => []
  | skip + 1, _ :: rest => replaceFrom pattern replacement skip rest
  | 0, c :: rest =>
    if pattern.isPrefixOf (c :: rest) then
      replacement ++ replaceFrom pattern replacement (pattern.length - 1) rest
    else c :: replaceFrom pattern replacement 0 rest

/-- Replaces the occurrences of a pattern, from left to right and without overlaps. -/
def replaceAll (pattern replacement s : List Char) : List Char :=
  replaceFrom pattern replacement 0 s

section
variable (replacement : List Char)

@[simp]
theorem replaceAll_nil (pattern : List Char) : replaceAll pattern replacement [] = [] := rfl

/-- A single character is replaced wherever it stands. -/
theorem replaceAll_singleton (a : Char) (s : List Char) :
    replaceAll [a] replacement s = s.flatMap fun c => if c = a then replacement else [c] := by
  induction s with
  | nil => rfl
  | cons c s ih =>
    rw [replaceAll] at ih
    rw [replaceAll, replaceFrom, List.flatMap_cons, ← ih]
    by_cases hc : c = a
    · subst hc
      simp
    · have ha : ¬ a = c := fun h => hc h.symm
      simp [hc, ha]

variable (a b : Char)

/-- A pair of characters is replaced where it stands in front. -/
theorem replaceAll_pair_append (s : List Char) :
    replaceAll [a, b] replacement (a :: b :: s) = replacement ++ replaceAll [a, b] replacement s := by
  simp [replaceAll, replaceFrom]

/-- What no pair starts at is kept. -/
theorem replaceAll_pair_cons {c : Char} {s : List Char} (h : c = a → s.head? ≠ some b) :
    replaceAll [a, b] replacement (c :: s) = c :: replaceAll [a, b] replacement s := by
  have hne : ¬ [a, b].isPrefixOf (c :: s) = true := by
    intro hp
    cases s with
    | nil => simp at hp
    | cons d s =>
      simp only [List.isPrefixOf, Bool.and_true, Bool.and_eq_true, beq_iff_eq] at hp
      exact h hp.1.symm (by simp [hp.2])
  rw [replaceAll, replaceFrom, if_neg hne, replaceAll]

end

end Text

/-! ## Writing and reading a step -/

namespace PointerText

/-- `~` to `~0`, then `/` to `~1`. -/
def write (s : List Char) : List Char :=
  Text.replaceAll ['/'] ['~', '1'] (Text.replaceAll ['~'] ['~', '0'] s)

/-- `~1` to `/`, then `~0` to `~`. -/
def read (piece : List Char) : List Char :=
  Text.replaceAll ['~', '0'] ['~'] (Text.replaceAll ['~', '1'] ['/'] piece)

theorem write_eq_flatMap (s : List Char) : write s = s.flatMap Segment.escapePointer := by
  rw [write, Text.replaceAll_singleton, Text.replaceAll_singleton, List.flatMap_assoc]
  congr 1
  funext c
  by_cases ht : c = '~'
  · subst ht
    rfl
  · by_cases hs : c = '/'
    · subst hs
      rfl
    · simp [Segment.escapePointer, ht, hs]

/-- The first replacement starts with the digit zero only where the text does. -/
theorem head?_replaceSlash {s : List Char} (h : s.head? ≠ some '0') :
    (Text.replaceAll ['~', '1'] ['/'] s).head? ≠ some '0' := by
  cases s with
  | nil => simp
  | cons c s =>
    simp only [List.head?_cons, ne_eq, Option.some.injEq] at h
    rw [Text.replaceAll, Text.replaceFrom]
    split
    · simp
    · simpa using h

theorem read_eq_unescape (piece : List Char) : read piece = unescapePointer piece := by
  fun_induction unescapePointer piece with
  | case1 rest ih =>
    rw [read, Text.replaceAll_pair_append, List.singleton_append, Text.replaceAll_pair_cons]
    · exact congrArg _ ih
    · simp
  | case2 rest ih =>
    have hzero : Text.replaceAll ['~', '1'] ['/'] ('0' :: rest) =
        '0' :: Text.replaceAll ['~', '1'] ['/'] rest := Text.replaceAll_pair_cons _ _ _ (by simp)
    rw [read, Text.replaceAll_pair_cons _ _ _ (by simp), hzero, Text.replaceAll_pair_append,
      List.singleton_append]
    exact congrArg _ ih
  | case3 c rest hone hzero ih =>
    have hslash : c = '~' → rest.head? ≠ some '1' := by
      rintro rfl h
      obtain ⟨tail, rfl⟩ := List.head?_eq_some_iff.1 h
      exact hone tail rfl rfl
    have htilde : c = '~' → rest.head? ≠ some '0' := by
      rintro rfl h
      obtain ⟨tail, rfl⟩ := List.head?_eq_some_iff.1 h
      exact hzero tail rfl rfl
    rw [read, Text.replaceAll_pair_cons _ _ _ hslash,
      Text.replaceAll_pair_cons _ _ _ fun hc => head?_replaceSlash (htilde hc)]
    exact congrArg _ ih
  | case4 => rfl

/-- What is written is read back. -/
theorem read_write (s : List Char) : read (write s) = s := by
  rw [read_eq_unescape, write_eq_flatMap, unescapePointer_escape]

/-- A tilde before a digit is no escape once it is written, and would be one if the slashes were
written first or the tildes read first. -/
example : write ['~', '1'] = ['~', '0', '1'] ∧ read ['~', '0', '1'] = ['~', '1'] := by decide

/-! ## Whole pointers -/

/-- The texts of the steps that a pointer without its `#` is read as. -/
theorem pointerTexts_eq (p : String) :
    pointerTexts p =
      ((Text.splitAt (· == '/') p.toList).drop 1).map fun piece => String.ofList (read piece) := by
  rw [pointerTexts]
  simp only [read_eq_unescape]

/-- **Pointers decode to what they encode.** A pointer is a `#`, and for each step a slash and the
step's text as it is written. Split at the slashes and read piece by piece, it gives the texts of
the steps in their order; that is how the places of a self-contained schema are found. So two
locations have one pointer exactly if the texts of their steps are the same. -/
theorem pointer_decodes (l m : Location) :
    (∃ p, l.pointer = "#" ++ p ∧
      p.toList = l.segments.flatMap (fun s => '/' :: write s.text.toList) ∧
      ((Text.splitAt (· == '/') p.toList).drop 1).map (fun piece => String.ofList (read piece)) =
        l.segments.map Segment.text ∧
      pointerTexts p = l.segments.map Segment.text) ∧
    (l.pointer = m.pointer ↔ l.segments.map Segment.text = m.segments.map Segment.text) := by
  refine ⟨⟨String.ofList (l.segments.flatMap Segment.pointer), ?_, ?_, ?_⟩,
    Location.pointer_eq_iff⟩
  · rw [← String.toList_inj]
    simp [Location.pointer]
  · rw [String.toList_ofList]
    congr 1
    funext s
    rw [Segment.pointer, write_eq_flatMap]
  · have htexts : pointerTexts (String.ofList (l.segments.flatMap Segment.pointer)) =
        l.segments.map Segment.text := by
      rw [pointerTexts, String.toList_ofList, splitAt_pointer]
      simp [unescapePointer_escape]
    exact ⟨(pointerTexts_eq _).symm.trans htexts, htexts⟩

end PointerText

end ApiLint
