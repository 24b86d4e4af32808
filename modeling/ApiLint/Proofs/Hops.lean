import ApiLint.Proofs.Resolving

/-!
# References hop by hop

A table of pointers is made by notes: an object stands at a pointer, or a reference does. Of the
objects noted at one pointer the first counts (`firstObject?`), of the references the last
(`lastLink?`). `Hop.at?` follows references from a text on, `Hop.Leads` says that they lead to an
object over so many hops: all texts on the way are local, and only the last has an object.

Resolving a reference comes to an object exactly if the reference leads there over at most nine
hops, and what is noted off the way does not change that (`Pointers.resolve_ofNotes`).
-/

set_option autoImplicit false

namespace ApiLint

/-! ## Following references -/

namespace Hop

variable (object : String → Option Target) (next : String → Option String)

/-- The text that so many references lead to. -/
def at? (r : String) : Nat → Option String
  | 0 => some r
  | k + 1 => (at? r k).bind next

/-- The text leads to an object over `k` hops and no fewer, and never out of the document. -/
structure Leads (k : Nat) (r : String) (t : Target) : Prop where
  isLocal : ∀ i ≤ k, ∀ text, at? next r i = some text → Pointers.isLocal text = true
  bare : ∀ i < k, ∀ text, at? next r i = some text → object text = none
  ends : ∃ text, at? next r k = some text ∧ object text = some t

variable {object next}

theorem at?_succ (r : String) (k : Nat) : at? next r (k + 1) = (next r).bind (at? next · k) := by
  induction k with
  | zero =>
    show (some r).bind next = (next r).bind some
    simp
  | succ k ih =>
    show (at? next r (k + 1)).bind next = _
    rw [ih, Option.bind_assoc]
    rfl

/-- The first hop is as good as a new start. -/
theorem at?_succ_of_next {r r' : String} (h : next r = some r') (k : Nat) :
    at? next r (k + 1) = at? next r' k := by
  rw [at?_succ, h, Option.bind_some]

theorem leads_zero {r : String} {t : Target} :
    Leads object next 0 r t ↔ Pointers.isLocal r = true ∧ object r = some t := by
  constructor
  · intro h
    obtain ⟨text, htext, hobject⟩ := h.ends
    obtain rfl := Option.some.inj htext
    exact ⟨h.isLocal 0 (Nat.le_refl 0) r rfl, hobject⟩
  · intro ⟨hlocal, hobject⟩
    refine ⟨fun i hi text htext => ?_, fun i hi => absurd hi (Nat.not_lt_zero i), r, rfl, hobject⟩
    obtain rfl := Nat.le_zero.1 hi
    obtain rfl := Option.some.inj htext
    exact hlocal

theorem leads_succ {k : Nat} {r : String} {t : Target} :
    Leads object next (k + 1) r t ↔ Pointers.isLocal r = true ∧ object r = none ∧
      ∃ r', next r = some r' ∧ Leads object next k r' t := by
  constructor
  · intro h
    obtain ⟨text, htext, hobject⟩ := h.ends
    rw [at?_succ, Option.bind_eq_some_iff] at htext
    obtain ⟨r', hr', htext⟩ := htext
    refine ⟨h.isLocal 0 (by omega) r rfl, h.bare 0 (by omega) r rfl, r', hr', ?_, ?_,
      text, htext, hobject⟩
    · intro i hi s hs
      exact h.isLocal (i + 1) (by omega) s ((at?_succ_of_next hr' i).trans hs)
    · intro i hi s hs
      exact h.bare (i + 1) (by omega) s ((at?_succ_of_next hr' i).trans hs)
  · intro ⟨hlocal, hnone, r', hr', h⟩
    obtain ⟨text, htext, hobject⟩ := h.ends
    refine ⟨?_, ?_, text, (at?_succ_of_next hr' k).trans htext, hobject⟩
    · intro i hi s hs
      cases i with
      | zero => exact Option.some.inj hs ▸ hlocal
      | succ i => exact h.isLocal i (by omega) s ((at?_succ_of_next hr' i).symm.trans hs)
    · intro i hi s hs
      cases i with
      | zero => exact Option.some.inj hs ▸ hnone
      | succ i => exact h.bare i (by omega) s ((at?_succ_of_next hr' i).symm.trans hs)

/-- Only the texts on the way matter. -/
theorem Leads.congr {object' : String → Option Target} {next' : String → Option String} {k : Nat}
    {r : String} {t : Target} (h : Leads object next k r t)
    (hsame : ∀ i ≤ k, ∀ text, at? next r i = some text →
      object' text = object text ∧ next' text = next text) : Leads object' next' k r t := by
  induction k generalizing r with
  | zero =>
    rw [leads_zero] at h ⊢
    rw [(hsame 0 (Nat.le_refl 0) r rfl).1]
    exact h
  | succ k ih =>
    obtain ⟨hlocal, hnone, r', hr', hrest⟩ := leads_succ.1 h
    obtain ⟨hobject, hnext⟩ := hsame 0 (by omega) r rfl
    refine leads_succ.2 ⟨hlocal, hobject.trans hnone, r', hnext.trans hr', ih hrest ?_⟩
    intro i hi text htext
    apply hsame (i + 1) (by omega)
    rw [at?_succ_of_next hr']
    exact htext

end Hop

/-! ## Resolving references -/

namespace Pointers

theorem resolveWithin_eq_some_iff (p : Pointers) (hops : Nat) (r : String) (t : Target) :
    p.resolveWithin hops r = some t ↔ ∃ k < hops, Hop.Leads p.objectAt? p.linkAt? k r t := by
  induction hops generalizing r with
  | zero => simp [resolveWithin]
  | succ hops ih =>
    -- A way has no hop, or a first one.
    have hsplit : (∃ k < hops + 1, Hop.Leads p.objectAt? p.linkAt? k r t) ↔
        Hop.Leads p.objectAt? p.linkAt? 0 r t ∨
          ∃ k < hops, Hop.Leads p.objectAt? p.linkAt? (k + 1) r t := by
      constructor
      · intro h
        obtain ⟨k, hk, h⟩ := h
        cases k with
        | zero => exact .inl h
        | succ k => exact .inr ⟨k, by omega, h⟩
      · intro h
        obtain h | ⟨k, hk, h⟩ := h
        · exact ⟨0, by omega, h⟩
        · exact ⟨k + 1, by omega, h⟩
    rw [hsplit, resolveWithin]
    simp only [Hop.leads_zero, Hop.leads_succ]
    cases hlocal : isLocal r with
    | false => simp
    | true =>
      cases hobject : p.objectAt? r with
      | some u => simp
      | none =>
        cases hlink : p.linkAt? r with
        | none => simp
        | some r' => simp [ih]

/-! ## Tables made by notes -/

/-- What is noted at a pointer. -/
inductive Note where
  | object (pointer : String) (target : Target)
  | link (pointer reference : String)

namespace Note

def pointer : Note → String
  | object pointer _ => pointer
  | link pointer _ => pointer

/-- The object that is noted at a pointer. -/
def objectFor (pointer : String) : Note → Option Target
  | object p target => if p = pointer then some target else none
  | link _ _ => none

/-- The reference that is noted at a pointer. -/
def linkFor (pointer : String) : Note → Option String
  | object _ _ => none
  | link p reference => if p = pointer then some reference else none

theorem objectFor_of_ne {note : Note} {pointer : String} (h : note.pointer ≠ pointer) :
    note.objectFor pointer = none := by
  cases note with
  | object p target => exact if_neg h
  | link p reference => rfl

theorem linkFor_of_ne {note : Note} {pointer : String} (h : note.pointer ≠ pointer) :
    note.linkFor pointer = none := by
  cases note with
  | object p target => rfl
  | link p reference => exact if_neg h

end Note

/-- The object noted first at a pointer. -/
def firstObject? (notes : List Note) (pointer : String) : Option Target :=
  (notes.filterMap (Note.objectFor pointer)).head?

/-- The reference noted last at a pointer. -/
def lastLink? (notes : List Note) (pointer : String) : Option String :=
  (notes.filterMap (Note.linkFor pointer)).getLast?

def note (p : Pointers) : Note → Pointers
  | .object pointer target => p.register pointer target
  | .link pointer reference => p.registerLink pointer reference

/-- The table that is empty at first and then takes the notes in turn. -/
def ofNotes (notes : List Note) : Pointers := notes.foldl note {}

theorem objectAt?_note (p : Pointers) (n : Note) (pointer : String) :
    (p.note n).objectAt? pointer = (p.objectAt? pointer).or (n.objectFor pointer) := by
  cases n with
  | object k target => exact objectAt?_register p k target pointer
  | link k reference => simp [note, Note.objectFor, objectAt?_registerLink]

theorem linkAt?_note (p : Pointers) (n : Note) (pointer : String) :
    (p.note n).linkAt? pointer = (n.linkFor pointer).or (p.linkAt? pointer) := by
  cases n with
  | object k target => simp [note, Note.linkFor]
  | link k reference =>
    simp only [note, Note.linkFor, linkAt?_registerLink]
    split <;> rfl

theorem ofNotes_concat (notes : List Note) (n : Note) :
    ofNotes (notes ++ [n]) = (ofNotes notes).note n := by
  simp [ofNotes]

theorem objectAt?_ofNotes (notes : List Note) : (ofNotes notes).objectAt? = firstObject? notes := by
  funext pointer
  induction notes using List.reverseRecOn with
  | nil => rfl
  | append_singleton notes n ih =>
    rw [ofNotes_concat, objectAt?_note, ih]
    cases h : n.objectFor pointer <;> simp [firstObject?, h]

theorem linkAt?_ofNotes (notes : List Note) : (ofNotes notes).linkAt? = lastLink? notes := by
  funext pointer
  induction notes using List.reverseRecOn with
  | nil => rfl
  | append_singleton notes n ih =>
    rw [ofNotes_concat, linkAt?_note, ih]
    cases h : n.linkFor pointer <;> simp [lastLink?, h]

section
variable {pointer : String} {further : List Note} (h : ∀ n ∈ further, n.pointer ≠ pointer)
include h

theorem firstObject?_append (notes : List Note) :
    firstObject? (notes ++ further) pointer = firstObject? notes pointer := by
  have hnone : further.filterMap (Note.objectFor pointer) = [] :=
    List.filterMap_eq_nil_iff.2 fun n hn => Note.objectFor_of_ne (h n hn)
  rw [firstObject?, List.filterMap_append, hnone, List.append_nil, firstObject?]

theorem lastLink?_append (notes : List Note) :
    lastLink? (notes ++ further) pointer = lastLink? notes pointer := by
  have hnone : further.filterMap (Note.linkFor pointer) = [] :=
    List.filterMap_eq_nil_iff.2 fun n hn => Note.linkFor_of_ne (h n hn)
  rw [lastLink?, List.filterMap_append, hnone, List.append_nil, lastLink?]

end

theorem resolve_eq_some_iff (notes : List Note) (r : String) (t : Target) :
    (ofNotes notes).resolve r = some t ↔
      ∃ k ≤ 9, Hop.Leads (firstObject? notes) (lastLink? notes) k r t := by
  rw [resolve, resolveWithin_eq_some_iff, objectAt?_ofNotes, linkAt?_ofNotes]
  simp only [maxHops, Nat.lt_succ_iff]

/-- **What a reference resolves to.** The reference `r` is followed to the last reference noted at
it, to the last one noted there, and so on. It resolves to the object noted first at the text that
is come to after at most nine hops, if all texts up to there are local and none before it has an
object; otherwise it resolves to nothing. Further notes do not change what it resolves to, unless
they are made at one of these texts. -/
theorem resolve_ofNotes (notes : List Note) (r : String) :
    (∀ t, (ofNotes notes).resolve r = some t ↔
      ∃ k ≤ 9, Hop.Leads (firstObject? notes) (lastLink? notes) k r t) ∧
    ((ofNotes notes).resolve r = none ↔
      ¬∃ t, ∃ k ≤ 9, Hop.Leads (firstObject? notes) (lastLink? notes) k r t) ∧
    ∀ t, ∀ k ≤ 9, Hop.Leads (firstObject? notes) (lastLink? notes) k r t →
      ∀ further : List Note,
        (∀ n ∈ further, ∀ i ≤ k, Hop.at? (lastLink? notes) r i ≠ some n.pointer) →
          (ofNotes (notes ++ further)).resolve r = some t := by
  refine ⟨resolve_eq_some_iff notes r, ?_, ?_⟩
  · simp only [← resolve_eq_some_iff, Option.eq_none_iff_forall_ne_some, not_exists, ne_eq]
  · intro t k hk h further hfurther
    refine (resolve_eq_some_iff _ r t).2 ⟨k, hk, h.congr ?_⟩
    intro i hi text htext
    have hoff : ∀ n ∈ further, n.pointer ≠ text := by
      intro n hn he
      exact hfurther n hn i hi (he ▸ htext)
    exact ⟨firstObject?_append hoff notes, lastLink?_append hoff notes⟩

/-- So many references in a row, and an object at the end. -/
def row (references : Nat) : List Note :=
  (List.range references).map (fun i => .link ("#" ++ toString i) ("#" ++ toString (i + 1))) ++
    [.object ("#" ++ toString references) (.schema ⟨0⟩)]

example : (ofNotes (row 9)).resolve "#0" = some (.schema ⟨0⟩) ∧
    (ofNotes (row 10)).resolve "#0" = none := by decide +kernel

end Pointers

end ApiLint
