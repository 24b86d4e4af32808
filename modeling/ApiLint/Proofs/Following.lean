import ApiLint.Proofs.Reading
import ApiLint.Schema.Walk

/-!
# Following an order

`Follows v m ps val`: run where the places `h` were read, the loader's action `m` reads the places
`ps`, and its result is `val h`. Reading (`Advance`) is said of the whole draft: its outline is
that of all places read, no object read before is touched (`Draft.Keeps`), and every place of `ps`
has become the object that it should be (`Draft.Built`). Actions that follow their orders do so
side by side (`Follows.bind`, `Follows.mapM`) and inside an object (`Follows.object`).
-/

set_option autoImplicit false

namespace ApiLint

open Yaml (Node)

/-! ## Counting objects -/

namespace Outline

theorem count_read (o : Outline) (p : Place) (s : Store) :
    (o.read p).count s =
      if p.reference? = none ∧ p.role.store? = some s then o.count s + 1 else o.count s := by
  have hreg : (o.register p).count = o.count := by
    unfold register
    split <;> rfl
  unfold read
  cases p.reference? with
  | some text => simp [link]
  | none => simp [bump, hreg]

theorem count_le_read (o : Outline) (p : Place) (s : Store) : o.count s ≤ (o.read p).count s := by
  rw [count_read]
  split <;> omega

theorem count_le_append (h ps : List Place) (s : Store) :
    (after h).count s ≤ (after (h ++ ps)).count s := by
  rw [after_append]
  generalize after h = o
  induction ps generalizing o with
  | nil => exact Nat.le_refl _
  | cons p ps ih => exact Nat.le_trans (count_le_read o p s) (ih _)

theorem count_concat {p : Place} {s : Store} (h : List Place) (href : p.reference? = none)
    (hs : p.role.store? = some s) : (after (h ++ [p])).count s = (after h).count s + 1 := by
  rw [after_concat, count_read, if_pos ⟨href, hs⟩]

end Outline

/-! ## What objects are built from -/

namespace Place

/-- The places under one member. -/
def placesOf (p : Place) (m : Member) : List Place := m.places p.node p.location

/-- All that is read before the places of a member: `ms` are the members before it. -/
def upTo (v : SpecVersion) (h : List Place) (p : Place) (ms : List Member) : List Place :=
  h ++ p :: (p.own v ++ (ms.flatMap p.placesOf).flatMap (Place.order v))

/-- The members that make the schema of a parameter, header or media type. -/
def schemaMembers (v : SpecVersion) (p : Place) : List Member :=
  if p.isOwnSchema v then Member.ofSchema else [.schema]

/-- The slot under `schema`. -/
def schemaSlot? (v : SpecVersion) (h : List Place) (p : Place) (ms : List Member) :
    Option SchemaSlot :=
  (slotsOf v (p.upTo v h ms) (p.placesOf .schema)).head?

/-- The schema of a parameter, header or media type. -/
def schemaOf (v : SpecVersion) (h : List Place) (p : Place) : Option SchemaSlot :=
  if p.isOwnSchema v then some ⟨.inline ⟨(Outline.after (h ++ [p])).count .schemas⟩, p.origin⟩
  else p.schemaSlot? v h []

def examplesOf (v : SpecVersion) (h : List Place) (p : Place) :
    List (String × NamedExampleId) :=
  heldBy v heldExample (p.upTo v h (p.schemaMembers v)) (p.placesOf .examples)

def contentOf (v : SpecVersion) (h : List Place) (p : Place) (ms : List Member) :
    List (String × MediaTypeId) :=
  (moments v (p.upTo v h ms) (p.placesOf .content)).map fun (h, q) =>
    (q.name, ⟨(Outline.after h).count .mediaTypes⟩)

end Place

/-! ## Drafts -/

/-- The objects of a sort. -/
@[reducible]
def Store.Object : Store → Type
  | .schemas => Schema
  | .parameters => Parameter
  | .headers => Header
  | .mediaTypes => MediaType
  | .namedExamples => NamedExample
  | .requestBodies => RequestBody
  | .responses => Response
  | .components => Component

/-- What the object of a place is like once it is complete, where `h` was read before it. -/
def Place.Describes (v : SpecVersion) (h : List Place) (p : Place) : (s : Store) → s.Object → Prop
  | .schemas, x => x.id = ⟨(Outline.after h).count .schemas⟩ ∧ x.origin = p.origin ∧
      x.children = slotsOf v (h ++ [p]) (Member.ofSchema.flatMap p.placesOf)
  | .parameters, x => x.id = ⟨(Outline.after h).count .parameters⟩ ∧ x.origin = p.origin ∧
      x.schema = p.schemaOf v h ∧ x.namedExamples = p.examplesOf v h ∧
      x.content = p.contentOf v h (p.schemaMembers v ++ [.examples])
  | .headers, x => x.id = ⟨(Outline.after h).count .headers⟩ ∧ x.origin = p.origin ∧
      x.schema = p.schemaOf v h ∧ x.namedExamples = p.examplesOf v h ∧
      x.content = p.contentOf v h (p.schemaMembers v ++ [.examples])
  | .mediaTypes, x => x.id = ⟨(Outline.after h).count .mediaTypes⟩ ∧ x.origin = p.origin ∧
      x.schema = p.schemaSlot? v h [] ∧ x.namedExamples = p.examplesOf v h
  | .namedExamples, x => x.id = ⟨(Outline.after h).count .namedExamples⟩ ∧ x.origin = p.origin
  | .requestBodies, x => x.id = ⟨(Outline.after h).count .requestBodies⟩ ∧ x.origin = p.origin ∧
      x.content = p.contentOf v h []
  | .responses, x => x.id = ⟨(Outline.after h).count .responses⟩ ∧ x.origin = p.origin ∧
      x.headers = heldBy v heldHeader (p.upTo v h []) (p.placesOf .headers) ∧
      x.content = p.contentOf v h [.headers] ∧
      x.schema = if v == .swagger2 then p.schemaSlot? v h [.headers, .content] else none
  | .components, _ => True

/-- What an object is like beside its number, its owner and its parts: that is read off the place
directly. -/
def Place.ReadOff (p : Place) : (s : Store) → s.Object → Prop
  | .schemas, x => x =
      { Loading.bareSchema x.id p.node x.origin x.owner x.name with
        properties := x.properties
        items := x.items
        additionalProperties := x.additionalProperties
        negated := x.negated
        allOf := x.allOf
        anyOf := x.anyOf
        oneOf := x.oneOf }
  | .parameters, x => x.name = (p.node.textAt? "name").getD "" ∧ x.place = p.node.textAt? "in" ∧
      x.description = p.node.textAt? "description" ∧
      x.required = (p.node.flagAt? "required").getD false ∧
      x.exampleValue = p.node.get? "example"
  | .headers, x => x.description = p.node.textAt? "description" ∧
      x.exampleValue = p.node.get? "example"
  | .mediaTypes, x => x.exampleValue = p.node.get? "example"
  | .namedExamples, x => x.summary = p.node.textAt? "summary" ∧
      x.description = p.node.textAt? "description" ∧ x.value = p.node.get? "value" ∧
      x.externalValue = p.node.textAt? "externalValue"
  | .requestBodies, x => x.description = p.node.textAt? "description" ∧
      x.required = (p.node.flagAt? "required").getD false
  | .responses, x => x.description = p.node.textAt? "description"
  | .components, x => p.role = .component x.kind ∧ x.name = p.name ∧ x.origin = p.origin ∧
      x.description = p.node.textAt? "description" ∧ x.reference = p.node.reference?

/-- What a schema is composed of, by keyword. -/
def Schema.combinators (x : Schema) : List (String × List SchemaSlot) :=
  [("allOf", x.allOf), ("anyOf", x.anyOf), ("oneOf", x.oneOf)]

theorem Schema.branches_eq (x : Schema) : x.branches = x.combinators.flatMap Prod.snd := by
  simp [branches, combinators]

/-- A schema has one branch for each place under a combinator, a reference where that is one. -/
def Place.ReadsBranches (p : Place) : (s : Store) → s.Object → Prop
  | .schemas, x => ∀ keyword slots, (keyword, slots) ∈ x.combinators →
      slots.map SchemaSlot.isReference =
        (p.placesOf (.combinator keyword)).map fun q => q.reference?.isSome
  | .parameters, _ | .headers, _ | .mediaTypes, _ | .namedExamples, _ | .requestBodies, _
  | .responses, _ | .components, _ => True

namespace Draft

def arena (d : Draft) : (s : Store) → Array s.Object
  | .schemas => d.schemas
  | .parameters => d.parameters
  | .headers => d.headers
  | .mediaTypes => d.mediaTypes
  | .namedExamples => d.namedExamples
  | .requestBodies => d.requestBodies
  | .responses => d.responses
  | .components => d.components

def withArena (d : Draft) : (s : Store) → Array s.Object → Draft
  | .schemas, xs => { d with schemas := xs }
  | .parameters, xs => { d with parameters := xs }
  | .headers, xs => { d with headers := xs }
  | .mediaTypes, xs => { d with mediaTypes := xs }
  | .namedExamples, xs => { d with namedExamples := xs }
  | .requestBodies, xs => { d with requestBodies := xs }
  | .responses, xs => { d with responses := xs }
  | .components, xs => { d with components := xs }

def outline (d : Draft) : Outline where
  pointers := d.pointers
  met := d.met
  count s := (d.arena s).size

section
variable (d : Draft) (s : Store) (xs : Array s.Object)

@[simp]
theorem arena_withArena : (d.withArena s xs).arena s = xs := by
  cases s <;> rfl

theorem arena_withArena_of_ne {t : Store} (h : t ≠ s) : (d.withArena s xs).arena t = d.arena t := by
  cases s <;> cases t <;> first | rfl | exact absurd rfl h

@[simp]
theorem version_withArena : (d.withArena s xs).version = d.version := by
  cases s <;> rfl

@[simp]
theorem pointers_withArena : (d.withArena s xs).pointers = d.pointers := by
  cases s <;> rfl

@[simp]
theorem met_withArena : (d.withArena s xs).met = d.met := by
  cases s <;> rfl

end

/-- The object of a sort with a number stays as it is. -/
def SameAt (d d' : Draft) (s : Store) (i : Nat) : Prop :=
  ∀ x, (d.arena s)[i]? = some x → (d'.arena s)[i]? = some x

/-- No object changes. -/
def Keeps (d d' : Draft) : Prop := ∀ s i, SameAt d d' s i

theorem SameAt.trans {d₁ d₂ d₃ : Draft} {s : Store} {i : Nat} (h : SameAt d₁ d₂ s i)
    (h' : SameAt d₂ d₃ s i) : SameAt d₁ d₃ s i := fun x hx => h' x (h x hx)

/-- There is nothing to keep past the last object. -/
theorem sameAt_count (d d' : Draft) (s : Store) : SameAt d d' s (d.outline.count s) := by
  intro x hx
  simp [outline] at hx

theorem Keeps.refl (d : Draft) : d.Keeps d := fun _ _ _ h => h

theorem Keeps.trans {d₁ d₂ d₃ : Draft} (h : d₁.Keeps d₂) (h' : d₂.Keeps d₃) : d₁.Keeps d₃ :=
  fun s i => (h s i).trans (h' s i)

/-- A place has become the object that it should be, where `h` was read before it. -/
def Built (v : SpecVersion) (d : Draft) (h : List Place) (p : Place) : Prop :=
  p.reference? = none → ∀ s, p.role.store? = some s →
    ∃ x, (d.arena s)[(Outline.after h).count s]? = some x ∧ p.Describes v h s x ∧
      p.ReadOff s x ∧ p.ReadsBranches s x

/-- Where the object of a place stays, the place stays built. -/
theorem Built.mono {v : SpecVersion} {d d' : Draft} {h : List Place} {p : Place}
    (hb : d.Built v h p)
    (hs : ∀ s, p.role.store? = some s → SameAt d d' s ((Outline.after h).count s)) :
    d'.Built v h p := by
  intro href s hrole
  obtain ⟨x, hx, hdesc⟩ := hb href s hrole
  exact ⟨x, hs s hrole x hx, hdesc⟩

/-- The places `h` have been read, and the components among them are `c`. -/
structure HasRead (v : SpecVersion) (c : Array Component) (d : Draft) (h : List Place) : Prop where
  version : d.version = v
  components : d.components = c
  outline : d.outline = Outline.after h

theorem HasRead.count {v : SpecVersion} {c : Array Component} {d : Draft} {h : List Place}
    (hd : HasRead v c d h)
    (s : Store) : d.outline.count s = (Outline.after h).count s := by
  rw [hd.outline]

/-- The object `x` has been added, and perhaps registered. -/
def grow (d : Draft) (s : Store) (x : s.Object) (pointers : Pointers) : Draft :=
  withArena { d with pointers } s ((d.arena s).push x)

/-- The object `x` has been added for a place. -/
def start (d : Draft) (p : Place) (s : Store) (x : s.Object) : Draft :=
  d.grow s x (d.outline.register p).pointers

/-- One object has been completed. -/
def complete (d : Draft) (s : Store) (n : Nat) (f : s.Object → s.Object) : Draft :=
  d.withArena s ((d.arena s).modify n f)

theorem outline_start (d : Draft) {p : Place} {s : Store} (href : p.reference? = none)
    (hs : p.role.store? = some s) (x : s.Object) :
    (d.start p s x).outline = d.outline.read p := by
  have hreg : (d.outline.register p).count = d.outline.count ∧
      (d.outline.register p).met = d.outline.met := by
    unfold Outline.register
    split <;> exact ⟨rfl, rfl⟩
  unfold start grow Outline.read Outline.bump
  rw [href, hreg.1, hreg.2]
  refine Outline.ext (pointers_withArena ..) (met_withArena ..) (funext fun t => ?_)
  by_cases hts : t = s
  · subst hts
    simp [outline, hs]
  · simp only [outline, arena_withArena_of_ne _ _ _ hts, hs, Option.some.injEq, Ne.symm hts,
      ↓reduceIte]
    cases t <;> rfl

theorem HasRead.start {v : SpecVersion} {c : Array Component} {d : Draft} {h : List Place}
    {p : Place} {s : Store} (hd : HasRead v c d h) (href : p.reference? = none)
    (hs : p.role.store? = some s) (hne : s ≠ .components) (x : s.Object) :
    HasRead v c (d.start p s x) (h ++ [p]) := by
  refine ⟨(version_withArena ..).trans hd.version, ?_, ?_⟩
  · exact (arena_withArena_of_ne _ _ _ hne.symm).trans hd.components
  · rw [outline_start d href hs, hd.outline, Outline.after_concat]

theorem getElem?_grow (d : Draft) (s : Store) (x : s.Object) (pointers : Pointers) :
    ((d.grow s x pointers).arena s)[d.outline.count s]? = some x := by
  simp [grow, outline]

theorem keeps_grow (d : Draft) (s : Store) (x : s.Object) (pointers : Pointers) :
    d.Keeps (d.grow s x pointers) := by
  intro t i y hy
  by_cases hts : t = s
  · subst hts
    have hi := (Array.getElem?_eq_some_iff.1 hy).1
    rw [grow, arena_withArena, Array.getElem?_push_lt hi, ← Array.getElem?_eq_getElem hi]
    exact hy
  · rw [grow, arena_withArena_of_ne _ _ _ hts]
    cases t <;> exact hy

theorem HasRead.complete {v : SpecVersion} {c : Array Component} {d : Draft} {h : List Place}
    {s : Store} (hd : HasRead v c d h) (hne : s ≠ .components) (n : Nat)
    (f : s.Object → s.Object) : HasRead v c (d.complete s n f) h := by
  refine ⟨(version_withArena ..).trans hd.version, ?_, hd.outline ▸ ?_⟩
  · exact (arena_withArena_of_ne _ _ _ hne.symm).trans hd.components
  · refine Outline.ext (pointers_withArena ..) (met_withArena ..) (funext fun t => ?_)
    change ((d.complete s n f).arena t).size = (d.arena t).size
    by_cases hts : t = s
    · subst hts
      rw [Draft.complete, arena_withArena, Array.size_modify]
    · rw [Draft.complete, arena_withArena_of_ne _ _ _ hts]

theorem sameAt_complete (d : Draft) {s t : Store} {n i : Nat} (h : t ≠ s ∨ i ≠ n)
    (f : s.Object → s.Object) : SameAt d (d.complete s n f) t i := by
  intro x hx
  by_cases hts : t = s
  · subst hts
    have hne : n ≠ i := fun he => h.elim (· rfl) (· he.symm)
    rw [complete, arena_withArena, Array.getElem?_modify, if_neg hne, hx]
  · rw [complete, arena_withArena_of_ne _ _ _ hts, hx]

/-- Completing an object that was not there before changes none that was. -/
theorem Keeps.complete {d d' : Draft} (h : d.Keeps d') (s : Store) (f : s.Object → s.Object) :
    d.Keeps (d'.complete s (d.outline.count s) f) := by
  intro t i
  by_cases hti : t = s ∧ i = d.outline.count s
  · obtain ⟨rfl, rfl⟩ := hti
    exact sameAt_count _ _ _
  · exact (h t i).trans (sameAt_complete _ (Decidable.not_and_iff_or_not.1 hti) _)

theorem complete_id (d : Draft) (s : Store) (n : Nat) : d.complete s n id = d := by
  have hid : (d.arena s).modify n id = d.arena s :=
    Array.ext_getElem? fun i => by simp [Array.getElem?_modify]
  rw [complete, hid]
  cases s <;> rfl

theorem getElem?_complete {d : Draft} {s : Store} {n : Nat} {x : s.Object}
    (h : (d.arena s)[n]? = some x) (f : s.Object → s.Object) :
    ((d.complete s n f).arena s)[n]? = some (f x) := by
  simp [complete, Array.getElem?_modify, h]

end Draft

open Draft

/-! ## Following an order -/

/-- From `d`, where `h` was read, the places `ps` have been read up to `d'`, where the components
are `c`. -/
structure Advance (v : SpecVersion) (d : Draft) (h ps : List Place) (c : Array Component)
    (d' : Draft) : Prop where
  hasRead : HasRead v c d' (h ++ ps)
  keeps : d.Keeps d'
  built : ∀ a p b, ps = a ++ p :: b → d'.Built v (h ++ a) p

theorem Advance.nil {v : SpecVersion} {c : Array Component} {d : Draft} {h : List Place}
    (hd : HasRead v c d h) : Advance v d h [] c d :=
  ⟨by simpa using hd, .refl d, fun a p b he => by simp at he⟩

theorem Advance.trans {v : SpecVersion} {c₂ c₃ : Array Component} {d₁ d₂ d₃ : Draft}
    {h ps qs : List Place} (h₁ : Advance v d₁ h ps c₂ d₂)
    (h₂ : Advance v d₂ (h ++ ps) qs c₃ d₃) : Advance v d₁ h (ps ++ qs) c₃ d₃ := by
  refine ⟨by simpa using h₂.hasRead, h₁.keeps.trans h₂.keeps, fun a p b he => ?_⟩
  rcases append_eq_append_cons he with ⟨e, rfl, hqs⟩ | ⟨e, hps, -⟩
  · simpa using h₂.built e p b hqs
  · exact (h₁.built a p e hps).mono fun s _ => h₂.keeps s _

/-- The action `m`, run where the components are `c`, reads the places `ps`, and its result is `val`
of the places read before. -/
def Follows {α : Type} (v : SpecVersion) (c : Array Component) (m : Loading α) (ps : List Place)
    (val : List Place → α) : Prop :=
  ∀ d h, HasRead v c d h → (m.run d).1 = val h ∧ Advance v d h ps c (m.run d).2

namespace Follows

variable {v : SpecVersion} {c : Array Component} {α β γ : Type}

theorem pure (a : α) : Follows v c (Pure.pure a) [] fun _ => a :=
  fun _ _ hd => ⟨rfl, .nil hd⟩

theorem bind {m : Loading α} {k : α → Loading β} {ps qs : List Place} {f : List Place → α}
    {g : α → List Place → β} (hm : Follows v c m ps f) (hk : ∀ a, Follows v c (k a) qs (g a)) :
    Follows v c (m >>= k) (ps ++ qs) fun h => g (f h) (h ++ ps) := by
  intro d h hd
  obtain ⟨hval, hadv⟩ := hm d h hd
  obtain ⟨hval', hadv'⟩ := hk (f h) _ _ hadv.hasRead
  have hrun : (m >>= k).run d = (k (f h)).run (m.run d).2 := by
    rw [← hval]; rfl
  rw [hrun]
  exact ⟨hval', hadv.trans hadv'⟩

theorem map {m : Loading α} {ps : List Place} {f : List Place → α} (g : α → β)
    (hm : Follows v c m ps f) : Follows v c (g <$> m) ps fun h => g (f h) := by
  intro d h hd
  obtain ⟨hval, hadv⟩ := hm d h hd
  exact ⟨congrArg g hval, hadv⟩

/-- The version is known. -/
theorem version {k : SpecVersion → Loading α} {ps : List Place} {val : List Place → α}
    (hk : Follows v c (k v) ps val) :
    Follows v c (MonadState.get >>= fun d => k d.version) ps val := by
  intro d h hd
  have hrun : (MonadState.get >>= fun d : Draft => k d.version : Loading α).run d = (k v).run d := by
    rw [← hd.version]
    rfl
  rw [hrun]
  exact hk d h hd

theorem congr {m : Loading α} {ps qs : List Place} {f g : List Place → α} (hm : Follows v c m ps f)
    (hps : ps = qs) (hval : ∀ h, f h = g h) : Follows v c m qs g := by
  subst hps
  rwa [show g = f from funext fun h => (hval h).symm]

/-- Places side by side are read one after the other. -/
theorem mapM {f : α → Loading β} {place : α → Place} {w : List Place → Place → β} {xs : List α}
    (hf : ∀ x ∈ xs, Follows v c (f x) ((place x).order v) fun h => w h (place x)) :
    Follows v c (xs.mapM f) ((xs.map place).flatMap (Place.order v))
      fun h => (moments v h (xs.map place)).map fun (h, q) => w h q := by
  induction xs with
  | nil => exact Follows.pure []
  | cons x xs ih =>
    rw [List.mapM_cons]
    refine Follows.congr (Follows.bind (hf x List.mem_cons_self) fun b =>
      Follows.bind (ih fun y hy => hf y (.tail _ hy)) fun bs => Follows.pure (b :: bs)) ?_ ?_
    · simp
    · intro h
      simp [moments]

theorem filterMapM {f : α → Loading (Option β)} {place : α → Place}
    {w : List Place → Place → Option β} {xs : List α}
    (hf : ∀ x ∈ xs, Follows v c (f x) ((place x).order v) fun h => w h (place x)) :
    Follows v c (xs.filterMapM f) ((xs.map place).flatMap (Place.order v))
      fun h => (moments v h (xs.map place)).filterMap fun (h, q) => w h q := by
  induction xs with
  | nil => exact Follows.pure []
  | cons x xs ih =>
    rw [List.filterMapM_cons]
    have hrest := ih fun y hy => hf y (.tail _ hy)
    refine Follows.congr (Follows.bind (hf x List.mem_cons_self) fun b =>
      (?_ : Follows v c _ ((xs.map place).flatMap (Place.order v)) fun h =>
        b.toList ++ (moments v h (xs.map place)).filterMap fun (h, q) => w h q)) ?_ ?_
    · cases b with
      | none => exact hrest
      | some b => exact hrest.map (b :: ·)
    · simp
    · intro h
      simp only [moments, List.map_cons, List.filterMap_cons]
      cases w h (place x) <;> rfl

/-- A place that becomes no object is read by itself. -/
theorem single {m : Loading α} {p : Place} {val : List Place → α}
    (hnone : p.reference? = none → p.role.store? = none)
    (hrun : ∀ d h, HasRead v c d h → m.run d = (val h,
      { d with pointers := (d.outline.read p).pointers, met := (d.outline.read p).met })) :
    Follows v c m [p] val := by
  intro d h hd
  have hcount : d.outline.count = (d.outline.read p).count := by
    funext s
    rw [Outline.count_read, if_neg fun ⟨href, hs⟩ => by simp [hnone href] at hs]
  have hread : Outline.after (h ++ [p]) = d.outline.read p := by
    rw [Outline.after_concat, hd.outline]
  rw [hrun d h hd]
  refine ⟨rfl, ⟨hd.version, hd.components, ?_⟩, fun s i => ?_, fun a q b he => ?_⟩
  · rw [hread]
    exact Outline.ext rfl rfl (hcount ▸ funext fun s => by cases s <;> rfl)
  · cases s <;> exact fun x hx => hx
  · obtain ⟨rfl, rfl⟩ := singleton_eq_append_cons he
    exact fun href s hs => by simp [hnone href] at hs

/-- An object gets its number, its parts are read, and then it is completed. -/
theorem object {s : Store} {p : Place} {m : Loading α} {ps : List Place} {result : Nat → α}
    {val : List Place → s.Object → s.Object} (new : Nat → s.Object)
    (body : Nat → Loading (s.Object → s.Object))
    (hrun : ∀ d, d.version = v →
      let n := d.outline.count s
      m.run d = (do
        let f ← body n
        modify fun d => d.complete s n f
        return result n : Loading α).run (d.start p s (new n)))
    (href : p.reference? = none) (hs : p.role.store? = some s) (hne : s ≠ .components)
    (hbody : ∀ n, Follows v c (body n) ps val)
    (hread : ∀ h n, p.ReadOff s (val h (new n)))
    (hbranches : ∀ h n, p.ReadsBranches s (val h (new n)))
    (hbuilt : ∀ h, p.Describes v h s (val (h ++ [p]) (new ((Outline.after h).count s)))) :
    Follows v c m (p :: ps) fun h => result ((Outline.after h).count s) := by
  intro d h hd
  have hrun' : m.run d = (result (d.outline.count s),
      let r := (body (d.outline.count s)).run (d.start p s (new (d.outline.count s)))
      r.2.complete s (d.outline.count s) r.1) := hrun d hd.version
  rw [hrun']
  dsimp only
  rw [hd.count]
  generalize hn : (Outline.after h).count s = n
  obtain ⟨hval, hadv⟩ := hbody n _ _ (hd.start href hs hne (new n))
  have hnew : ((d.start p s (new n)).arena s)[n]? = some (new n) := by
    rw [← hn, ← hd.count]
    exact getElem?_grow ..
  have hkeeps := (keeps_grow d s (new n) _).trans hadv.keeps
  have hcomplete := hkeeps.complete s
  replace hnew := hadv.keeps _ _ _ hnew
  rw [hd.count, hn] at hcomplete
  generalize (body n).run (d.start p s (new n)) = r at hval hadv hnew hcomplete
  refine ⟨rfl, ?_, hcomplete r.1, fun a q b he => ?_⟩
  · simpa using hadv.hasRead.complete hne n r.1
  · cases a with
    | nil =>
      obtain ⟨rfl, -⟩ := List.cons.inj he
      intro _ t ht
      obtain rfl := Option.some.inj (hs.symm.trans ht)
      have hdesc := hbuilt h
      rw [← hval, hn] at hdesc
      simp only [List.append_nil, hn]
      exact ⟨_, getElem?_complete hnew _, hdesc, hval ▸ hread .., hval ▸ hbranches ..⟩
    | cons p' a =>
      obtain ⟨rfl, rfl⟩ := List.cons.inj he
      have hb : r.2.Built v (h ++ [p] ++ a) q := hadv.built a q b rfl
      rw [List.append_assoc] at hb
      refine hb.mono fun t _ => sameAt_complete _ ?_ _
      by_cases hts : t = s
      · subst hts
        have hle := Outline.count_le_append (h ++ [p]) a t
        rw [List.append_assoc, Outline.count_concat h href hs, hn] at hle
        exact .inr (by simp only [List.singleton_append] at hle ⊢; omega)
      · exact .inl hts

end Follows

end ApiLint
