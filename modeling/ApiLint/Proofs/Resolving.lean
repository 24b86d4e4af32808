import ApiLint.Proofs.Locations
import ApiLint.Proofs.Occurrences

/-!
# Following references among places

`Leads` says over places what following a reference means: the first place at a pointer that
defines something counts, or else the last reference there is followed. What has been read of a
document resolves references in just this way (`Outline.resolve_after`), and what is read later
off the way of a reference makes no difference (`leads_append`).
-/

set_option autoImplicit false

namespace ApiLint

/-! ## What stands at a pointer -/

section
variable {α : Type} (sort : (Store → Nat) → Role → Option α)

/-- What a place defines that is read after `h`. -/
def definition (h : List Place) (p : Place) : Option α :=
  if p.reference? = none then sort (Outline.after h).count p.role else none

/-- Nothing is defined at the pointer. -/
def UndefinedAt (ps : List Place) (pointer : String) : Prop :=
  ∀ h p b, ps = h ++ p :: b → p.pointer = pointer → definition sort h p = none

/-- What is defined first at the pointer. -/
def DefinedAt (ps : List Place) (pointer : String) (a : α) : Prop :=
  ∃ h p b, ps = h ++ p :: b ∧ UndefinedAt sort h pointer ∧ p.pointer = pointer ∧
    definition sort h p = some a

/-- The last reference at the pointer. -/
def RefersAt (ps : List Place) (pointer text : String) : Prop :=
  ∃ h p b, ps = h ++ p :: b ∧ p.pointer = pointer ∧ p.reference? = some text ∧
    ∀ q ∈ b, q.pointer = pointer → q.reference? = none

/-- The reference leads to a definition, through further references with the texts of `route`. -/
inductive Leads (ps : List Place) : List String → String → α → Prop
  | here {text : String} {a : α} : DefinedAt sort ps text a → Leads ps [] text a
  | next {route : List String} {text text' : String} {a : α} : UndefinedAt sort ps text →
      RefersAt ps text text' → Leads ps route text' a → Leads ps (text' :: route) text a

/-- The reference leads to a definition, through no more others than are followed. -/
def Finds (ps : List Place) (text : String) (a : α) : Prop :=
  ∃ route : List String, route.length < Pointers.maxHops ∧ Leads sort ps route text a

end

section
variable {α : Type} {sort : (Store → Nat) → Role → Option α} {ps : List Place} {p : Place}
  {pointer : String}

theorem undefinedAt_nil : UndefinedAt sort [] pointer := by
  intro h p b he
  simp at he

theorem undefinedAt_concat : UndefinedAt sort (ps ++ [p]) pointer ↔
    UndefinedAt sort ps pointer ∧ (p.pointer = pointer → definition sort ps p = none) := by
  constructor
  · intro hu
    exact ⟨fun h q b he => hu h q (b ++ [p]) (by simp [he]), hu ps p [] rfl⟩
  · rintro ⟨hps, hp⟩ h q b he
    rcases append_eq_append_cons he with ⟨e, rfl, hlast⟩ | ⟨e, he, -⟩
    · obtain ⟨rfl, rfl⟩ := singleton_eq_append_cons hlast
      simpa using hp
    · exact hps h q e he

theorem definedAt_concat {a : α} : DefinedAt sort (ps ++ [p]) pointer a ↔
    DefinedAt sort ps pointer a ∨
      UndefinedAt sort ps pointer ∧ p.pointer = pointer ∧ definition sort ps p = some a := by
  constructor
  · rintro ⟨h, q, b, he, hu, hq⟩
    rcases append_eq_append_cons he with ⟨e, rfl, hlast⟩ | ⟨e, he, -⟩
    · obtain ⟨rfl, rfl⟩ := singleton_eq_append_cons hlast
      rw [List.append_nil] at hu hq
      exact .inr ⟨hu, hq⟩
    · exact .inl ⟨h, q, e, he, hu, hq⟩
  · rintro (⟨h, q, b, rfl, hq⟩ | hp)
    · exact ⟨h, q, b ++ [p], by simp, hq⟩
    · exact ⟨ps, p, [], rfl, hp⟩

theorem refersAt_concat {text : String} : RefersAt (ps ++ [p]) pointer text ↔
    p.pointer = pointer ∧ p.reference? = some text ∨
      (p.pointer = pointer → p.reference? = none) ∧ RefersAt ps pointer text := by
  constructor
  · rintro ⟨h, q, b, he, hq, href, hlast⟩
    rcases append_eq_append_cons he with ⟨e, rfl, hp⟩ | ⟨e, hps, rfl⟩
    · obtain ⟨rfl, rfl⟩ := singleton_eq_append_cons hp
      exact .inl ⟨hq, href⟩
    · refine .inr ⟨hlast p (by simp), h, q, e, hps, hq, href, fun q' hq' => ?_⟩
      exact hlast q' (List.mem_append_left _ hq')
  · rintro (⟨hp, href⟩ | ⟨hp, h, q, b, rfl, hq, href, hlast⟩)
    · exact ⟨ps, p, [], rfl, hp, href, by simp⟩
    · refine ⟨h, q, b ++ [p], by simp, hq, href, fun q' hq' => ?_⟩
      rcases List.mem_append.1 hq' with hq' | hq'
      · exact hlast q' hq'
      · obtain rfl := List.mem_singleton.1 hq'
        exact hp

variable (sort ps) in
/-- What is read later at other pointers changes nothing at one. -/
theorem at_append {b : List Place} (hb : ∀ q ∈ b, q.pointer ≠ pointer) :
    (UndefinedAt sort (ps ++ b) pointer ↔ UndefinedAt sort ps pointer) ∧
      (∀ a, DefinedAt sort (ps ++ b) pointer a ↔ DefinedAt sort ps pointer a) ∧
      ∀ text, RefersAt (ps ++ b) pointer text ↔ RefersAt ps pointer text := by
  induction b using List.reverseRecOn with
  | nil => simp
  | append_singleton b q ih =>
    obtain ⟨hundef, hdef, hrefers⟩ := ih fun q' hq' => hb q' (List.mem_append_left _ hq')
    have hq : q.pointer ≠ pointer := hb q (by simp)
    rw [← List.append_assoc]
    simp only [undefinedAt_concat, definedAt_concat, refersAt_concat, hundef, hdef, hrefers, hq]
    simp

/-- **What is read later off the way of a reference** does not change where it leads. -/
theorem leads_append {b : List Place} {route : List String} {text : String} {a : α}
    (hb : ∀ q ∈ b, q.pointer ∉ text :: route) :
    Leads sort (ps ++ b) route text a ↔ Leads sort ps route text a := by
  have hat : ∀ r ∈ text :: route, ∀ q ∈ b, q.pointer ≠ r := fun r hr q hq he => hb q hq (he ▸ hr)
  clear hb
  constructor
  · intro h
    induction h with
    | here hdef => exact .here (((at_append sort ps (hat _ List.mem_cons_self)).2.1 _).1 hdef)
    | next hundef hrefers _ ih =>
      obtain ⟨hu, -, hr⟩ := at_append sort ps (hat _ List.mem_cons_self)
      exact .next (hu.1 hundef) ((hr _).1 hrefers) (ih fun r hr => hat r (.tail _ hr))
  · intro h
    induction h with
    | here hdef => exact .here (((at_append sort ps (hat _ List.mem_cons_self)).2.1 _).2 hdef)
    | next hundef hrefers _ ih =>
      obtain ⟨hu, -, hr⟩ := at_append sort ps (hat _ List.mem_cons_self)
      exact .next (hu.2 hundef) ((hr _).2 hrefers) (ih fun r hr => hat r (.tail _ hr))

end

/-! ## Pointers -/

namespace Pointers

/-- A pointer stays in the document. -/
theorem isLocal_pointer (l : Location) : isLocal l.pointer = true := by
  refine String.startsWith_string_iff.2 ⟨l.segments.flatMap Segment.pointer, ?_⟩
  simp [Location.pointer]

theorem lookup_cons {β : Type} (k : String) (b : β) (xs : List (String × β)) (pointer : String) :
    List.lookup pointer ((k, b) :: xs) = if k = pointer then some b else xs.lookup pointer := by
  by_cases h : k = pointer
  · subst h
    simp
  · have hne : (pointer == k) = false := by simpa using Ne.symm h
    simp [List.lookup_cons, hne, h]

theorem objectAt?_register (ps : Pointers) (k : String) (t : Target) (pointer : String) :
    (ps.register k t).objectAt? pointer =
      (ps.objectAt? pointer).or (if k = pointer then some t else none) := by
  unfold register
  by_cases hk : k = pointer
  · subst hk
    cases hat : ps.objectAt? k with
    | some u => simp [hat]
    | none => simp [objectAt?]
  · split <;> simp [objectAt?, lookup_cons, hk]

theorem linkAt?_registerLink (ps : Pointers) (k text pointer : String) :
    (ps.registerLink k text).linkAt? pointer =
      if k = pointer then some text else ps.linkAt? pointer :=
  lookup_cons k text ps.links pointer

theorem objectAt?_registerLink (ps : Pointers) (k text pointer : String) :
    (ps.registerLink k text).objectAt? pointer = ps.objectAt? pointer := rfl

@[simp]
theorem linkAt?_register (ps : Pointers) (k : String) (t : Target) (pointer : String) :
    (ps.register k t).linkAt? pointer = ps.linkAt? pointer := by
  unfold register
  split <;> rfl

end Pointers

namespace Outline

theorem objectAt?_read (o : Outline) (p : Place) (pointer : String) :
    (o.read p).pointers.objectAt? pointer = (o.pointers.objectAt? pointer).or
      (if p.pointer = pointer ∧ p.reference? = none then p.role.target? o.count else none) := by
  unfold read
  cases p.reference? with
  | some text => simp [link, Pointers.objectAt?_registerLink]
  | none =>
    simp only [bump, register, and_true]
    cases p.role.target? o.count with
    | none => simp
    | some t => exact Pointers.objectAt?_register ..

theorem linkAt?_read (o : Outline) (p : Place) (pointer : String) :
    (o.read p).pointers.linkAt? pointer =
      (if p.pointer = pointer then p.reference? else none).or (o.pointers.linkAt? pointer) := by
  unfold read
  cases p.reference? with
  | some text =>
    simp only [link, Pointers.linkAt?_registerLink]
    split <;> simp
  | none =>
    simp only [bump, register]
    cases p.role.target? o.count with
    | none => simp
    | some t => simp

/-- The objects among places are those defined first at their pointers. -/
theorem objectAt?_after (ps : List Place) (pointer : String) :
    (UndefinedAt Role.target? ps pointer ↔
      (after ps).pointers.objectAt? pointer = none) ∧
    ∀ t, DefinedAt Role.target? ps pointer t ↔
      (after ps).pointers.objectAt? pointer = some t := by
  induction ps using List.reverseRecOn with
  | nil =>
    refine ⟨⟨fun _ => rfl, fun _ => undefinedAt_nil⟩, fun t => ⟨?_, fun h => by cases h⟩⟩
    rintro ⟨h, p, b, he, -⟩
    simp at he
  | append_singleton ps p ih =>
    rw [after_concat, objectAt?_read, undefinedAt_concat, ih.1]
    refine ⟨?_, fun t => ?_⟩
    · rw [Option.or_eq_none_iff]
      simp only [definition]
      by_cases hp : p.pointer = pointer <;> by_cases href : p.reference? = none <;> simp [hp, href]
    · rw [definedAt_concat, ih.2, ih.1, Option.or_eq_some_iff]
      simp only [definition]
      by_cases hp : p.pointer = pointer <;> by_cases href : p.reference? = none <;> simp [hp, href]

/-- The links among places are the last references at their pointers. -/
theorem linkAt?_after (ps : List Place) (pointer text : String) :
    RefersAt ps pointer text ↔ (after ps).pointers.linkAt? pointer = some text := by
  induction ps using List.reverseRecOn with
  | nil =>
    refine ⟨?_, fun h => by cases h⟩
    rintro ⟨h, p, b, he, -⟩
    simp at he
  | append_singleton ps p ih =>
    rw [after_concat, linkAt?_read, refersAt_concat, ih, Option.or_eq_some_iff]
    by_cases hp : p.pointer = pointer <;> simp [hp]

/-- Pointers stand for places only. -/
theorem objectAt?_of_not_isLocal (ps : List Place) {text : String}
    (h : Pointers.isLocal text = false) :
    (after ps).pointers.objectAt? text = none ∧ ∀ text', ¬RefersAt ps text text' := by
  have hp : ∀ p : Place, p.pointer ≠ text := by
    rintro p rfl
    simp [Place.pointer, Pointers.isLocal_pointer] at h
  refine ⟨(objectAt?_after ps text).1.1 fun _ p _ _ he => absurd he (hp p), ?_⟩
  rintro text' ⟨_, p, _, _, he, -⟩
  exact hp p he

theorem resolveWithin_after (ps : List Place) (hops : Nat) (text : String) (t : Target) :
    (after ps).pointers.resolveWithin hops text = some t ↔
      ∃ route : List String, route.length < hops ∧ Leads Role.target? ps route text t := by
  induction hops generalizing text with
  | zero => simp [Pointers.resolveWithin]
  | succ hops ih =>
    obtain ⟨hnone, hsome⟩ := objectAt?_after ps text
    rw [Pointers.resolveWithin]
    constructor
    · intro h
      split at h
      · split at h
        · rename_i u hat
          obtain rfl := Option.some.inj h
          exact ⟨[], Nat.succ_pos _, .here ((hsome _).2 hat)⟩
        · rename_i hat
          split at h
          · rename_i text' hlink
            obtain ⟨route, hlen, hleads⟩ := (ih text').1 h
            exact ⟨text' :: route, Nat.succ_lt_succ hlen,
              .next (hnone.2 hat) ((linkAt?_after ps text text').2 hlink) hleads⟩
          · cases h
      · cases h
    · rintro ⟨route, hlen, hleads⟩
      cases hlocal : Pointers.isLocal text with
      | false =>
        obtain ⟨hat, hlink⟩ := objectAt?_of_not_isLocal ps hlocal
        cases hleads with
        | here hdef => rw [(hsome t).1 hdef] at hat; cases hat
        | next _ hrefers _ => exact absurd hrefers (hlink _)
      | true =>
        cases hleads with
        | here hdef => simp [(hsome t).1 hdef]
        | @next route _ text' _ hundef hrefers hleads =>
          have hlink := (linkAt?_after ps text text').1 hrefers
          simp only [hnone.1 hundef, hlink, ↓reduceIte]
          exact (ih text').2 ⟨route, Nat.lt_of_succ_lt_succ hlen, hleads⟩

/-- **Following a reference** leads to what it finds among the places read. -/
theorem resolve_after (ps : List Place) (text : String) (t : Target) :
    (after ps).pointers.resolve text = some t ↔ Finds Role.target? ps text t :=
  resolveWithin_after ps Pointers.maxHops text t

end Outline

end ApiLint
