import ApiLint.Proofs.Following

/-!
# The loader reads in order

Every action of the loader follows the order of the place that it builds, with what its slot then
holds as its result (`follows_slot`, `follows_parameterSlot`, …). So a document that loads has been
read in `readingOrder` (`Document.ofNode_eq_ok`).
-/

set_option autoImplicit false

namespace ApiLint

open Yaml (Node)
open Draft

namespace Follows

variable {v : SpecVersion} {c : Array Component} {α β : Type}

/-! ## Members -/

/-- The reading of the entries of a member. -/
theorem entries {m : Member} (hm : m.shape = .entries) {node : Node} {l : Location}
    {f : String × Node × Node → Loading β} {w : List Place → Place → β}
    (hf : ∀ name key value,
      let q : Place := ⟨m.role, name, value, Origin.ofEntry ((l.field m.name).key name) key value⟩
      q ∈ m.places node l → Follows v c (f (name, key, value)) (q.order v) fun h => w h q) :
    Follows v c
      (match node.get? m.name with
        | none => Pure.pure []
        | some map => map.fields.mapM f)
      ((m.places node l).flatMap (Place.order v))
      fun h => (moments v h (m.places node l)).map fun (h, q) => w h q := by
  unfold Member.places at hf ⊢
  simp only [hm] at hf ⊢
  cases hget : node.get? m.name with
  | none => exact Follows.pure []
  | some map =>
    rw [hget] at hf
    exact mapM fun x hx => hf _ _ _ (List.mem_map_of_mem hx)

/-- The reading of the entries of a member that are slots. -/
theorem slotEntries {m : Member} (hm : m.shape = .entries) {node : Node} {l : Location}
    {f : String → Node → Origin → Loading (Option β)} {held : List Place → Place → Option β}
    (hf : ∀ q ∈ m.places node l, Follows v c (f q.name q.node q.origin) (q.order v) (held · q)) :
    Follows v c
      (match node.get? m.name with
        | none => Pure.pure []
        | some map =>
          map.fields.filterMapM fun (name, key, value) => do
            return (← f name value (Origin.ofEntry ((l.field m.name).key name) key value)).map
              (name, ·))
      ((m.places node l).flatMap (Place.order v)) fun h => heldBy v held h (m.places node l) := by
  unfold heldBy
  unfold Member.places at hf ⊢
  simp only [hm] at hf ⊢
  cases hget : node.get? m.name with
  | none => exact Follows.pure []
  | some map =>
    rw [hget] at hf
    exact filterMapM (w := fun h q => (held h q).map (q.name, ·)) fun x hx =>
      (hf _ (List.mem_map_of_mem hx)).map (Option.map (x.1, ·))

/-- The reading of the value of a member. -/
theorem value {m : Member} (hm : m.shape = .value) {node : Node} {l : Location}
    {f : Node → Origin → Loading (Option β)} {w : List Place → Place → Option β}
    (hf : ∀ q ∈ m.places node l, Follows v c (f q.node q.origin) (q.order v) (w · q)) :
    Follows v c
      (match node.entry? m.name with
        | some (key, value) => f value (Origin.ofEntry (l.field m.name) key value)
        | none => Pure.pure none)
      ((m.places node l).flatMap (Place.order v))
      fun h => (moments v h (m.places node l)).head?.bind fun (h, q) => w h q := by
  unfold Member.places at hf ⊢
  simp only [hm] at hf ⊢
  cases hget : node.entry? m.name with
  | none => exact Follows.pure none
  | some e =>
    rw [hget] at hf
    exact (hf _ List.mem_cons_self).congr (by simp) fun h => rfl

end Follows

/-! ## Schemas -/

/-- The sub-schemas of a schema. -/
structure SubSchemas where
  properties : List (String × SchemaSlot)
  items : Option SubSchema
  additionalProperties : Option SubSchema
  negated : Option SchemaSlot
  allOf : List SchemaSlot
  anyOf : List SchemaSlot
  oneOf : List SchemaSlot

/-- The slots of all sub-schemas. -/
def SubSchemas.slots (p : SubSchemas) : List SchemaSlot :=
  p.properties.map (·.2) ++ SubSchema.slots p.items ++ SubSchema.slots p.additionalProperties ++
    p.negated.toList ++ p.allOf ++ p.anyOf ++ p.oneOf

/-- A schema with other sub-schemas. -/
def Schema.withSubSchemas (s : Schema) (p : SubSchemas) : Schema :=
  { s with
    properties := p.properties
    items := p.items
    additionalProperties := p.additionalProperties
    negated := p.negated
    allOf := p.allOf
    anyOf := p.anyOf
    oneOf := p.oneOf }

theorem Schema.children_withSubSchemas (s : Schema) (p : SubSchemas) :
    (s.withSubSchemas p).children = p.slots := by
  simp [children, branches, withSubSchemas, SubSchemas.slots]

namespace Place

variable (v : SpecVersion) (h : List Place) (p : Place)

/-- The sub-schema under a keyword. -/
def subSchemaOf (keyword : String) : Option SubSchema :=
  match p.node.entry? keyword with
  | some (_, .scalar (.bool b) _) => some (.flag b)
  | _ => (slotsOf v h (p.placesOf (.subSchema keyword))).head?.map .slot

/-- The sub-schemas read at a place. -/
def subSchemas : SubSchemas :=
  let next := fun h m => h ++ (p.placesOf m).flatMap (order v)
  let h₁ := next h .properties
  let h₂ := next h₁ (.subSchema "items")
  let h₃ := next h₂ (.subSchema "additionalProperties")
  let h₄ := next h₃ .negation
  let h₅ := next h₄ (.combinator "allOf")
  let h₆ := next h₅ (.combinator "anyOf")
  { properties :=
      (moments v h (p.placesOf .properties)).map fun (h, q) => (q.name, (Outline.after h).slot q)
    items := p.subSchemaOf v h₁ "items"
    additionalProperties := p.subSchemaOf v h₂ "additionalProperties"
    negated := (slotsOf v h₃ (p.placesOf .negation)).head?
    allOf := slotsOf v h₄ (p.placesOf (.combinator "allOf"))
    anyOf := slotsOf v h₅ (p.placesOf (.combinator "anyOf"))
    oneOf := slotsOf v h₆ (p.placesOf (.combinator "oneOf")) }

end Place

theorem slotsOf_append (v : SpecVersion) (h ps qs : List Place) :
    slotsOf v h (ps ++ qs) = slotsOf v h ps ++ slotsOf v (h ++ ps.flatMap (Place.order v)) qs := by
  simp [slotsOf, moments_append]

theorem Member.length_places_le {m : Member} (hm : m.shape = .value ∨ m.shape = .mapping)
    (node : Node) (l : Location) : (m.places node l).length ≤ 1 := by
  have hle : (node.entry? m.name).toList.length ≤ 1 := by
    cases node.entry? m.name <;> simp
  unfold Member.places
  rcases hm with hm | hm <;> simp only [hm, List.length_map]
  · exact hle
  · exact Nat.le_trans (List.length_filter_le ..) hle

/-- Of a single place there is at most one slot. -/
theorem toList_head?_slotsOf {qs : List Place} (hle : qs.length ≤ 1) (v : SpecVersion)
    (h : List Place) : (slotsOf v h qs).head?.toList = slotsOf v h qs := by
  rcases qs with _ | ⟨q, _ | ⟨r, qs⟩⟩
  · rfl
  · rfl
  · simp at hle

theorem slots_subSchemaOf (v : SpecVersion) (h : List Place) (p : Place) (keyword : String) :
    SubSchema.slots (p.subSchemaOf v h keyword) =
      slotsOf v h (p.placesOf (.subSchema keyword)) := by
  unfold Place.subSchemaOf
  split
  · rename_i he
    simp [SubSchema.slots, slotsOf, Place.placesOf, Member.places, Member.subSchema, he,
      Node.isMapping, Node.entries?]
  · have hle : (p.placesOf (.subSchema keyword)).length ≤ 1 :=
      Member.length_places_le (.inr rfl) ..
    rw [← toList_head?_slotsOf hle]
    cases (slotsOf v h (p.placesOf (.subSchema keyword))).head? <;> rfl

/-- The slots of the sub-schemas are those at the places below. -/
theorem slots_subSchemas (v : SpecVersion) (h : List Place) (p : Place) :
    (p.subSchemas v h).slots = slotsOf v h (Member.ofSchema.flatMap p.placesOf) := by
  have hle : (p.placesOf .negation).length ≤ 1 := Member.length_places_le (.inl rfl) ..
  simp only [SubSchemas.slots, Place.subSchemas, Member.ofSchema,
    List.flatMap_cons, List.flatMap_nil, slots_subSchemaOf, toList_head?_slotsOf hle,
    slotsOf_append, List.append_nil, List.append_assoc, List.map_map]
  rfl

/-- Slots are references where their places are. -/
theorem isReference_slotsOf (v : SpecVersion) (h qs : List Place) :
    (slotsOf v h qs).map SchemaSlot.isReference = qs.map fun q => q.reference?.isSome := by
  induction qs generalizing h with
  | nil => rfl
  | cons q qs ih =>
    have hslot : ((Outline.after h).slot q).isReference = q.reference?.isSome := by
      unfold Outline.slot SchemaSlot.isReference
      cases q.reference? <;> rfl
    exact congrArg₂ List.cons hslot (ih _)

theorem readsBranches_withSubSchemas (v : SpecVersion) (h : List Place) (p : Place) (s : Schema) :
    p.ReadsBranches .schemas (s.withSubSchemas (p.subSchemas v h)) := by
  intro keyword slots hslots
  simp only [Schema.combinators, Schema.withSubSchemas, Place.subSchemas, List.mem_cons,
    Prod.mk.injEq, List.not_mem_nil, or_false] at hslots
  rcases hslots with ⟨rfl, rfl⟩ | ⟨rfl, rfl⟩ | ⟨rfl, rfl⟩ <;> exact isReference_slotsOf ..

/-- Builds the sub-schemas of a schema. -/
def Loading.subSchemas (slotOf : SlotBuilder) (node : Node) (location : Location)
    (owner : SchemaOwner) : Loading SubSchemas := do
  let properties ← properties slotOf node location owner
  let items ← subSchema slotOf node location owner "items"
  let additionalProperties ← subSchema slotOf node location owner "additionalProperties"
  let negated ← negation slotOf node location owner
  let allOf ← combinator slotOf node location owner "allOf"
  let anyOf ← combinator slotOf node location owner "anyOf"
  let oneOf ← combinator slotOf node location owner "oneOf"
  return { properties, items, additionalProperties, negated, allOf, anyOf, oneOf }

namespace Follows

open Loading

variable {v : SpecVersion} {c : Array Component} {β : Type}

/-- The slots at the places `qs` are read in order. -/
def ReadsSlots (v : SpecVersion) (c : Array Component) (slotOf : SlotBuilder) (qs : List Place) :
    Prop :=
  ∀ q ∈ qs, ∀ owner name,
    Follows v c (slotOf q.node q.origin owner name) (q.order v) fun h => (Outline.after h).slot q

section
variable {slotOf : SlotBuilder} {p : Place} {owner : SchemaOwner} {keyword : String}

theorem properties (hslot : ReadsSlots v c slotOf (p.placesOf .properties)) :
    Follows v c (Loading.properties slotOf p.node p.location owner)
      ((p.placesOf .properties).flatMap (Place.order v)) fun h =>
        (moments v h (p.placesOf .properties)).map fun (h, q) =>
          (q.name, (Outline.after h).slot q) :=
  entries (m := .properties) (w := fun h q => (q.name, (Outline.after h).slot q)) rfl
    fun name _ _ hq => (hslot _ hq owner (some name)).map (name, ·)

theorem subSchema (hslot : ReadsSlots v c slotOf (p.placesOf (.subSchema keyword))) :
    Follows v c (Loading.subSchema slotOf p.node p.location owner keyword)
      ((p.placesOf (.subSchema keyword)).flatMap (Place.order v))
      fun h => p.subSchemaOf v h keyword := by
  unfold Loading.subSchema Place.subSchemaOf
  unfold Place.placesOf Member.places Member.subSchema at hslot ⊢
  cases he : p.node.entry? keyword with
  | none => exact Follows.pure none
  | some e =>
    obtain ⟨key, value⟩ := e
    simp only [he, Option.toList_some] at hslot ⊢
    cases value with
    | scalar x span => cases x <;> exact Follows.pure _
    | sequence items span => exact Follows.pure none
    | mapping entries span =>
      have hq := hslot _ List.mem_cons_self owner none
      exact (hq.map (some ∘ SubSchema.slot)).congr (by simp [Node.isMapping, Node.entries?])
        fun h => rfl

theorem negation (hslot : ReadsSlots v c slotOf (p.placesOf .negation)) :
    Follows v c (Loading.negation slotOf p.node p.location owner)
      ((p.placesOf .negation).flatMap (Place.order v))
      fun h => (slotsOf v h (p.placesOf .negation)).head? := by
  refine (value (m := .negation) (f := fun value origin => some <$> slotOf value origin owner none)
    rfl fun q hq => (hslot q hq owner none).map some).congr rfl fun h => ?_
  rw [slotsOf, List.head?_map]
  exact Option.map_eq_bind.symm

theorem combinator (hslot : ReadsSlots v c slotOf (p.placesOf (.combinator keyword))) :
    Follows v c (Loading.combinator slotOf p.node p.location owner keyword)
      ((p.placesOf (.combinator keyword)).flatMap (Place.order v))
      fun h => slotsOf v h (p.placesOf (.combinator keyword)) :=
  mapM fun _ hx => hslot _ (List.mem_map_of_mem hx) owner none

theorem subSchemas (owner : SchemaOwner)
    (hslot : ReadsSlots v c slotOf (Member.ofSchema.flatMap p.placesOf)) :
    Follows v c (Loading.subSchemas slotOf p.node p.location owner)
      ((Member.ofSchema.flatMap p.placesOf).flatMap (Place.order v))
      fun h => p.subSchemas v h := by
  have hmember : ∀ m ∈ Member.ofSchema, ReadsSlots v c slotOf (p.placesOf m) :=
    fun m hm q hq => hslot q (List.mem_flatMap.2 ⟨m, hm, hq⟩)
  simp only [Member.ofSchema, List.forall_mem_cons] at hmember
  obtain ⟨hproperties, hitems, hadditional, hnot, hall, hany, hone, -⟩ := hmember
  refine Follows.congr (Follows.bind (properties hproperties) fun _ =>
    Follows.bind (subSchema hitems) fun _ => Follows.bind (subSchema hadditional) fun _ =>
    Follows.bind (negation hnot) fun _ => Follows.bind (combinator hall) fun _ =>
    Follows.bind (combinator hany) fun _ => Follows.bind (combinator hone) fun _ =>
    Follows.pure _) ?_ fun h => rfl
  simp [Member.ofSchema]

end

section
variable {slotOf : SlotBuilder} {name : String} {node : Node} {origin : Origin}
  {owner : SchemaOwner} {title : Option String}

/-- A schema, registered or not. -/
theorem schema {role : Role} (hrole : role = .schema ∨ role = .ownSchema)
    (href : (Place.mk role name node origin).reference? = none)
    (hslot : ReadsSlots v c slotOf
      (Member.ofSchema.flatMap (Place.mk role name node origin).placesOf)) :
    Follows v c (Loading.schema slotOf node origin owner title (role == .schema))
      (⟨role, name, node, origin⟩ ::
        (Member.ofSchema.flatMap (Place.mk role name node origin).placesOf).flatMap (Place.order v))
      fun h => ⟨(Outline.after h).count .schemas⟩ := by
  rcases hrole with rfl | rfl <;>
    exact object (s := .schemas) (fun n => bareSchema ⟨n⟩ node origin owner title) _
      (fun d _ => rfl) href rfl (by decide)
      (fun n => (subSchemas (.schema ⟨n⟩) hslot).map fun p (s : Schema) => s.withSubSchemas p)
      (fun _ _ => rfl) (fun _ _ => readsBranches_withSubSchemas _ _ _ _)
      fun h => ⟨rfl, rfl, (Schema.children_withSubSchemas ..).trans (slots_subSchemas ..)⟩

end

theorem order_of_reference {p : Place} {text : String} (href : p.reference? = some text)
    (v : SpecVersion) : p.order v = [p] := by
  have hown : p.own v = [] := by simp [Place.own, Place.isOwnSchema, href]
  have hparts : p.parts v = [] := by simp [Place.parts, href]
  rw [Place.order_eq, hown, hparts]
  rfl

theorem reference {p : Place} {text : String} (href : p.reference? = some text) :
    Follows v c (Loading.reference text p.origin) (p.order v)
      fun h => (Outline.after (h ++ [p])).pointers.resolve text := by
  rw [order_of_reference href]
  refine single (fun hnone => by simp [href] at hnone) fun d h hd => ?_
  have hread : d.outline.read p = d.outline.link p text := by rw [Outline.read, href]
  rw [Outline.after_concat, ← hd.outline, hread]
  rfl

theorem order_object {p : Place} (href : p.reference? = none) (hrole : p.role ≠ .pathItem)
    (v : SpecVersion) :
    p.order v =
      p :: (p.own v ++ ((p.members v).flatMap p.placesOf).flatMap (Place.order v)) := by
  have hparts : p.parts v = (p.members v).flatMap p.placesOf := by
    simp only [Place.parts, href, hrole, Option.isSome_none, Bool.false_eq_true, ↓reduceIte,
      List.append_nil]
    rfl
  rw [Place.order_eq, hparts]

theorem own_eq_nil {p : Place} {v : SpecVersion} (hrole : p.role ≠ .parameter)
    (hrole' : p.role ≠ .header) : p.own v = [] := by
  unfold Place.own Place.isOwnSchema
  cases hr : p.role <;> simp_all

theorem role_of_mem_places {m : Member} {node : Node} {l : Location} {q : Place}
    (hq : q ∈ m.places node l) : q.role = m.role := by
  cases Member.holds_of_mem_places hq <;> rfl

theorem role_of_mem_ofSchema {m : Member} (hm : m ∈ Member.ofSchema) : m.role = .schema := by
  simp only [Member.ofSchema, List.mem_cons, List.not_mem_nil, or_false] at hm
  rcases hm with rfl | rfl | rfl | rfl | rfl | rfl | rfl <;> rfl

/-- The slot of a node is a reference, or else a schema with its sub-schemas. -/
theorem slotWithin {size : Nat} {q : Place} (hrole : q.role = .schema) (hsize : q.node.size ≤ size)
    (owner : SchemaOwner) (title : Option String) :
    Follows v c (Loading.slotWithin size q.node q.origin owner title) (q.order v)
      fun h => (Outline.after h).slot q := by
  obtain ⟨role, name, node, origin⟩ := q
  subst hrole
  induction size generalizing name node origin owner title with
  | zero => cases node <;> simp [Node.size] at hsize
  | succ size ih =>
    unfold Loading.slotWithin
    cases href : node.reference? with
    | some text =>
      have href' : (Place.mk .schema name node origin).reference? = some text := href
      refine ((reference href').map fun _ => SchemaSlot.mk (.reference text) origin).congr rfl
        fun h => ?_
      simp only [Outline.slot, href']
    | none =>
      have href' : (Place.mk .schema name node origin).reference? = none := href
      have hslot : ReadsSlots v c (Loading.slotWithin size)
          (Member.ofSchema.flatMap (Place.mk .schema name node origin).placesOf) := by
        intro q hq owner title
        obtain ⟨m, hm, hq⟩ := List.mem_flatMap.1 hq
        have hlt : q.node.size < node.size := Member.size_lt hq
        have hq' : q.role = .schema := (role_of_mem_places hq).trans (role_of_mem_ofSchema hm)
        obtain ⟨role, name', node', origin'⟩ := q
        obtain rfl : role = .schema := hq'
        exact ih owner title name' node' origin' (Nat.le_of_lt_succ (Nat.lt_of_lt_of_le hlt hsize))
      rw [order_object href' (by simp), own_eq_nil (by simp) (by simp)]
      refine ((schema (.inl rfl) href' hslot).map fun id => SchemaSlot.mk (.inline id) origin).congr
        rfl fun h => ?_
      simp only [Outline.slot, href']

theorem slot {q : Place} (hrole : q.role = .schema) (owner : SchemaOwner)
    (title : Option String) :
    Follows v c (Loading.slot q.node q.origin owner title) (q.order v)
      fun h => (Outline.after h).slot q :=
  slotWithin hrole (Nat.le_refl _) owner title

/-- The slot under `schema`. -/
theorem schemaField {p : Place} (owner : SchemaOwner) (title : Option String) :
    Follows v c (Loading.schemaField p.node p.location owner title)
      ((p.placesOf .schema).flatMap (Place.order v))
      fun h => (slotsOf v h (p.placesOf .schema)).head? := by
  refine (value (m := .schema)
    (f := fun value origin => some <$> Loading.slot value origin owner title) rfl
    fun q hq => (slot (role_of_mem_places hq) owner title).map some).congr rfl fun h => ?_
  rw [slotsOf, List.head?_map]
  exact Option.map_eq_bind.symm

/-- A parameter or header read as a schema. -/
theorem selfSchema (p : Place) (owner : SchemaOwner) (title : String) :
    Follows v c (Loading.selfSchema p.node p.origin owner title)
      ({ p with role := .ownSchema } ::
        (Member.ofSchema.flatMap p.placesOf).flatMap (Place.order v))
      fun h => ⟨.inline ⟨(Outline.after h).count .schemas⟩, p.origin⟩ := by
  refine (schema (.inr rfl) rfl fun q hq owner title => ?_).map
    fun id => SchemaSlot.mk (.inline id) p.origin
  obtain ⟨m, hm, hq⟩ := List.mem_flatMap.1 hq
  exact slotWithin ((role_of_mem_places hq).trans (role_of_mem_ofSchema hm))
    (Nat.le_of_lt (Member.size_lt hq)) owner title

/-! ## Slots -/

/-- A slot holds its own object, or what its reference leads to. -/
theorem slotAs {pick : Target → Option β} {own : Nat → β} {s : Store} {q : Place} {m : Loading β}
    {k : Option Target → Loading (Option β)} (hk : ∀ t, k t = Pure.pure (t.bind pick))
    (hm : q.reference? = none →
      Follows v c m (q.order v) fun h => own ((Outline.after h).count s)) :
    Follows v c
      (match q.reference? with
        | some text => Loading.reference text q.origin >>= k
        | none => some <$> m)
      (q.order v) (heldAs pick own s · q) := by
  unfold heldAs
  cases href : q.reference? with
  | some text =>
    obtain rfl : k = fun t => Pure.pure (t.bind pick) := funext hk
    exact (reference href).map (·.bind pick)
  | none => exact (hm href).map some

/-- A slot holds its own object, or the component at its reference. -/
theorem slotByComponent {pick : ComponentContent → Option β} {own : Nat → β} {s : Store}
    {q : Place} {m : Loading β} {k : String → Draft → Loading (Option β)}
    (hk : ∀ text d, k text d =
      Pure.pure ((Loading.componentAt? d text).bind fun x => pick x.content))
    (hm : q.reference? = none →
      Follows v c m (q.order v) fun h => own ((Outline.after h).count s)) :
    Follows v c
      (match q.reference? with
        | some text => do
          let _ ← Loading.reference text q.origin
          k text (← get)
        | none => some <$> m)
      (q.order v) (heldByComponent pick own s c · q) := by
  unfold heldByComponent
  cases href : q.reference? with
  | some text =>
    obtain rfl : k = fun text d =>
        Pure.pure ((Loading.componentAt? d text).bind fun x => pick x.content) :=
      funext fun text => funext (hk text)
    intro d h hd
    obtain ⟨-, hadv⟩ := reference href d h hd
    refine ⟨?_, hadv⟩
    change (Loading.componentAt? ((Loading.reference text q.origin).run d).2 text).bind _ = _
    rw [Loading.componentAt?, hadv.hasRead.components]
  | none => exact (hm href).map some

/-! ## Examples and media types -/

theorem namedExample {title name : String} {node : Node} {origin : Origin}
    (href : node.reference? = none) :
    Follows v c (Loading.namedExample title node origin)
      ((Place.mk .namedExample name node origin).order v)
      fun h => ⟨(Outline.after h).count .namedExamples⟩ := by
  have href' : (Place.mk .namedExample name node origin).reference? = none := href
  rw [order_object href' (by simp), own_eq_nil (by simp) (by simp)]
  refine object (s := .namedExamples)
    (fun n => {
      id := ⟨n⟩, origin, name := title
      summary := node.textAt? "summary"
      description := node.textAt? "description"
      value := node.get? "value"
      externalValue := node.textAt? "externalValue" })
    (fun _ => Pure.pure id) (fun d _ => ?_) href' rfl (by decide)
    (fun n => Follows.pure id) (fun _ _ => ⟨rfl, rfl, rfl, rfl⟩)
    (fun _ _ => trivial) fun h => ⟨rfl, rfl⟩
  exact congrArg (Prod.mk _) (complete_id ..).symm

theorem exampleSlot {q : Place} (hrole : q.role = .namedExample) (title : String) :
    Follows v c (Loading.exampleSlot title q.node q.origin) (q.order v) (heldExample · q) := by
  obtain ⟨role, name, node, origin⟩ := q
  obtain rfl : role = .namedExample := hrole
  exact slotAs (fun t => by rcases t with _ | _ | _ <;> rfl) fun href => namedExample href

theorem namedExamples (p : Place) :
    Follows v c (Loading.namedExamples p.node p.location)
      ((p.placesOf .examples).flatMap (Place.order v))
      fun h => heldBy v heldExample h (p.placesOf .examples) :=
  slotEntries (m := .examples) (f := Loading.exampleSlot) rfl fun q hq =>
    exampleSlot (role_of_mem_places hq) q.name

/-- The parts of a media type. -/
def mediaTypeParts (node : Node) (location : Location) (owner : SchemaOwner) :
    Loading (MediaType → MediaType) := do
  let schema ← Loading.schemaField node location owner none
  let namedExamples ← Loading.namedExamples node location
  return fun m => { m with schema, namedExamples }

theorem mediaType {title name : String} {node : Node} {origin : Origin} {owner : MediaTypeOwner} :
    Follows v c (Loading.mediaType title node origin owner)
      ((Place.mk .mediaType name node origin).order v)
      fun h => ⟨(Outline.after h).count .mediaTypes⟩ := by
  set p := Place.mk .mediaType name node origin with hp
  have hown : p.own v = [] := own_eq_nil (by simp [hp]) (by simp [hp])
  have hschema : p.schemaMembers v = [.schema] := by
    simp [Place.schemaMembers, Place.isOwnSchema, hp]
  have hparts : ∀ owner : SchemaOwner, Follows v c (mediaTypeParts p.node p.location owner)
      (((p.members v).flatMap p.placesOf).flatMap (Place.order v)) fun h m =>
        { m with
          schema := (slotsOf v h (p.placesOf .schema)).head?
          namedExamples := heldBy v heldExample (h ++ (p.placesOf .schema).flatMap (Place.order v))
            (p.placesOf .examples) } := fun owner =>
    (Follows.bind (schemaField owner none) fun _ => Follows.bind (namedExamples p) fun _ =>
      Follows.pure _).congr (by simp [hp, Place.members]) fun h => rfl
  rw [order_object rfl (by simp [hp]), hown]
  refine object (s := .mediaTypes)
    (fun n => {
      id := ⟨n⟩, origin, name := title, owner, exampleValue := node.get? "example" })
    _ (fun d _ => rfl) rfl rfl (by decide) (fun n => hparts (.mediaType ⟨n⟩)) (fun _ _ => rfl)
    (fun _ _ => trivial) fun h => ⟨rfl, rfl, ?_, ?_⟩
  · rw [Place.schemaSlot?, Place.upTo, hown]
    rfl
  · rw [Place.examplesOf, hschema, Place.upTo, hown]
    simp

theorem content (p : Place) (owner : MediaTypeOwner) :
    Follows v c (Loading.content p.node p.location owner)
      ((p.placesOf .content).flatMap (Place.order v))
      fun h => (moments v h (p.placesOf .content)).map fun (h, q) =>
        (q.name, ⟨(Outline.after h).count .mediaTypes⟩) :=
  entries (m := .content) (w := fun h q =>
    (q.name, MediaTypeId.mk ((Outline.after h).count .mediaTypes))) rfl
    fun name _ _ _ => mediaType.map (name, ·)

/-! ## Parameters and headers -/

/-- The parts of a parameter or header. -/
def parameterParts (p : Place) (isSchema : Bool) (owner : SchemaOwner) (owner' : MediaTypeOwner)
    (title : String) :
    Loading (Option SchemaSlot × List (String × NamedExampleId) × List (String × MediaTypeId)) := do
  let schema ←
    if isSchema then some <$> Loading.selfSchema p.node p.origin owner title
    else Loading.schemaField p.node p.location owner (some title)
  let namedExamples ← Loading.namedExamples p.node p.location
  let content ← Loading.content p.node p.location owner'
  return (schema, namedExamples, content)

/-- The rest of a parameter follows its parts. -/
theorem parameterParts_bind {γ : Type} {isSchema isOwn : Bool} (hself : isSchema = isOwn)
    (p : Place) (owner : SchemaOwner) (owner' : MediaTypeOwner) (title : String)
    (k : Option SchemaSlot → List (String × NamedExampleId) → List (String × MediaTypeId) →
      Loading γ) :
    (do
      let schema ←
        if isSchema then some <$> Loading.selfSchema p.node p.origin owner title
        else Loading.schemaField p.node p.location owner (some title)
      let namedExamples ← Loading.namedExamples p.node p.location
      let content ← Loading.content p.node p.location owner'
      k schema namedExamples content) =
    parameterParts p isOwn owner owner' title >>= fun (schema, namedExamples, content) =>
      k schema namedExamples content := by
  subst hself
  cases isSchema <;> rfl

theorem follows_parameterParts {p : Place} (hrole : p.role = .parameter ∨ p.role = .header)
    (owner : SchemaOwner) (owner' : MediaTypeOwner) (title : String) :
    Follows v c (parameterParts p (p.isOwnSchema v) owner owner' title)
      (p.own v ++ ((p.members v).flatMap p.placesOf).flatMap (Place.order v))
      fun h =>
        let h₁ := h ++ (p.own v ++ ((p.schemaMembers v).flatMap p.placesOf).flatMap (Place.order v))
        let h₂ := h₁ ++ (p.placesOf .examples).flatMap (Place.order v)
        (if p.isOwnSchema v then some ⟨.inline ⟨(Outline.after h).count .schemas⟩, p.origin⟩
          else (slotsOf v h (p.placesOf .schema)).head?,
          heldBy v heldExample h₁ (p.placesOf .examples),
          (moments v h₂ (p.placesOf .content)).map fun (h, q) =>
            (q.name, ⟨(Outline.after h).count .mediaTypes⟩)) := by
  have hmembers : p.members v = p.schemaMembers v ++ [.examples, .content] := by
    rcases hrole with hrole | hrole <;> simp only [Place.members, hrole] <;> rfl
  have hrest := fun schema : Option SchemaSlot =>
    Follows.bind (namedExamples (v := v) (c := c) p) fun namedExamples =>
    Follows.bind (content p owner') fun content => Follows.pure (schema, namedExamples, content)
  unfold parameterParts
  cases hs : p.isOwnSchema v with
  | true =>
    refine (Follows.bind ((selfSchema p owner title).map some) hrest).congr ?_ fun h => ?_
    · simp [hmembers, Place.own, Place.schemaMembers, hs]
    · simp [Place.own, Place.schemaMembers, hs]
  | false =>
    refine (Follows.bind (schemaField owner (some title)) hrest).congr ?_ fun h => ?_
    · simp [hmembers, Place.own, Place.schemaMembers, hs]
    · simp [Place.own, Place.schemaMembers, hs]

theorem schemaOf_eq (h : List Place) (p : Place) :
    p.schemaOf v h =
      if p.isOwnSchema v then
        some ⟨.inline ⟨(Outline.after (h ++ [p])).count .schemas⟩, p.origin⟩
      else (slotsOf v (h ++ [p]) (p.placesOf .schema)).head? := by
  unfold Place.schemaOf
  cases hs : p.isOwnSchema v with
  | true => rfl
  | false => simp [Place.schemaSlot?, Place.upTo, Place.own, hs]

/-- A parameter without its parts. -/
def bareParameter (node : Node) (origin : Origin) (n : Nat) : Parameter where
  id := ⟨n⟩
  origin
  name := (node.textAt? "name").getD ""
  place := node.textAt? "in"
  description := node.textAt? "description"
  required := (node.flagAt? "required").getD false
  exampleValue := node.get? "example"

theorem parameter {name : String} {node : Node} {origin : Origin}
    (href : node.reference? = none) :
    Follows v c (Loading.parameter node origin) ((Place.mk .parameter name node origin).order v)
      fun h => ⟨(Outline.after h).count .parameters⟩ := by
  set p := Place.mk .parameter name node origin with hp
  have href' : p.reference? = none := href
  have hself : (v == .swagger2 && node.textAt? "in" != some "body" && node.hasKey "type" &&
      !node.hasKey "schema") = p.isOwnSchema v := by
    rw [Place.isOwnSchema, href']
    simp [hp, Bool.and_assoc, Bool.and_comm, Bool.and_left_comm]
  rw [order_object href' (by simp [hp])]
  refine object (s := .parameters) (bareParameter node origin)
    (fun n => (fun (schema, namedExamples, content) (x : Parameter) =>
      { x with schema, namedExamples, content }) <$>
        parameterParts p (p.isOwnSchema v) (.parameter ⟨n⟩) (.parameter ⟨n⟩)
          ((node.textAt? "name").getD ""))
    (fun d hd => ?_) href' rfl (by decide)
    (fun n => (follows_parameterParts (p := p) (.inl rfl) (.parameter ⟨n⟩) (.parameter ⟨n⟩) _).map _)
    (fun _ _ => ⟨rfl, rfl, rfl, rfl, rfl⟩) (fun _ _ => trivial)
    fun h => ⟨rfl, rfl, (schemaOf_eq ..).symm, ?_, ?_⟩
  · subst hd
    have hbind := parameterParts_bind hself p (.parameter ⟨d.parameters.size⟩)
      (.parameter ⟨d.parameters.size⟩) ((node.textAt? "name").getD "")
      fun schema namedExamples content => do
        modify fun d' => complete d' .parameters d.parameters.size fun x =>
          { x with schema, namedExamples, content }
        return ParameterId.mk d.parameters.size
    exact congrArg (·.run (d.start p .parameters (bareParameter node origin d.parameters.size)))
      hbind
  · simp [Place.examplesOf, Place.upTo]
  · simp [Place.contentOf, Place.upTo]

theorem parameterSlot {q : Place} (hrole : q.role = .parameter) :
    Follows v c (Loading.parameterSlot q.node q.origin) (q.order v) (heldParameter · q) := by
  obtain ⟨role, name, node, origin⟩ := q
  obtain rfl : role = .parameter := hrole
  exact slotAs (fun t => by rcases t with _ | _ | _ <;> rfl) fun href => parameter href

/-- A header without its parts. -/
def bareHeader (name : String) (node : Node) (origin : Origin) (n : Nat) : Header where
  id := ⟨n⟩
  origin
  name
  description := node.textAt? "description"
  exampleValue := node.get? "example"

theorem header {title name : String} {node : Node} {origin : Origin}
    (href : node.reference? = none) :
    Follows v c (Loading.header title node origin) ((Place.mk .header name node origin).order v)
      fun h => ⟨(Outline.after h).count .headers⟩ := by
  set p := Place.mk .header name node origin with hp
  have href' : p.reference? = none := href
  have hself : (v == .swagger2 && node.hasKey "type" && !node.hasKey "schema") =
      p.isOwnSchema v := by
    rw [Place.isOwnSchema, href']
    simp [hp]
  rw [order_object href' (by simp [hp])]
  refine object (s := .headers) (bareHeader title node origin)
    (fun n => (fun (schema, namedExamples, content) (x : Header) =>
      { x with schema, namedExamples, content }) <$>
        parameterParts p (p.isOwnSchema v) (.header ⟨n⟩) (.header ⟨n⟩) title)
    (fun d hd => ?_) href' rfl (by decide)
    (fun n => (follows_parameterParts (p := p) (.inr rfl) (.header ⟨n⟩) (.header ⟨n⟩) _).map _)
    (fun _ _ => ⟨rfl, rfl⟩) (fun _ _ => trivial)
    fun h => ⟨rfl, rfl, (schemaOf_eq ..).symm, ?_, ?_⟩
  · subst hd
    have hbind := parameterParts_bind hself p (.header ⟨d.headers.size⟩)
      (.header ⟨d.headers.size⟩) title
      fun schema namedExamples content => do
        modify fun d' => complete d' .headers d.headers.size fun x =>
          { x with schema, namedExamples, content }
        return HeaderId.mk d.headers.size
    exact congrArg (·.run (d.start p .headers (bareHeader title node origin d.headers.size))) hbind
  · simp [Place.examplesOf, Place.upTo]
  · simp [Place.contentOf, Place.upTo]

theorem headerSlot {q : Place} (hrole : q.role = .header) (title : String) :
    Follows v c (Loading.headerSlot title q.node q.origin) (q.order v) (heldHeader · q) := by
  obtain ⟨role, name, node, origin⟩ := q
  obtain rfl : role = .header := hrole
  exact slotAs (fun t => by rcases t with _ | _ | _ <;> rfl) fun href => header href

/-! ## Request bodies and responses -/

theorem requestBody {name : String} {node : Node} {origin : Origin}
    (href : node.reference? = none) :
    Follows v c (Loading.requestBody node origin)
      ((Place.mk .requestBody name node origin).order v)
      fun h => ⟨(Outline.after h).count .requestBodies⟩ := by
  set p := Place.mk .requestBody name node origin with hp
  have href' : p.reference? = none := href
  have hown : p.own v = [] := own_eq_nil (by simp [hp]) (by simp [hp])
  rw [order_object href' (by simp [hp]), hown]
  refine object (s := .requestBodies)
    (fun n => {
      id := ⟨n⟩, origin
      description := node.textAt? "description"
      required := (node.flagAt? "required").getD false })
    (fun n => (fun content (x : RequestBody) => { x with content }) <$>
      Loading.content node origin.location (.requestBody ⟨n⟩))
    (fun d _ => rfl) href' rfl (by decide)
    (fun n => ((content p (.requestBody ⟨n⟩)).map _).congr (by simp [hp, Place.members])
      fun h => rfl)
    (fun _ _ => ⟨rfl, rfl⟩) (fun _ _ => trivial) fun h => ⟨rfl, rfl, ?_⟩
  rw [Place.contentOf, Place.upTo, hown]
  rfl

theorem requestBodySlot {q : Place} (hrole : q.role = .requestBody) :
    Follows v c (Loading.requestBodySlot q.node q.origin) (q.order v) (heldRequestBody c · q) := by
  obtain ⟨role, name, node, origin⟩ := q
  obtain rfl : role = .requestBody := hrole
  exact slotByComponent (fun text d => by
      rcases Loading.componentAt? d text with _ | ⟨_, _, _, _, _, _ | _⟩ <;> rfl)
    fun href => requestBody href

theorem responseHeaders (p : Place) :
    Follows v c (Loading.responseHeaders p.node p.location)
      ((p.placesOf .headers).flatMap (Place.order v))
      fun h => heldBy v heldHeader h (p.placesOf .headers) :=
  slotEntries (m := .headers) (f := Loading.headerSlot) rfl fun q hq =>
    headerSlot (role_of_mem_places hq) q.name

/-- The schema of a response, in version 2.0 only. -/
def responseSchema (p : Place) (isOld : Bool) (n : Nat) : Loading (Option SchemaSlot) :=
  if isOld then Loading.schemaField p.node p.location (.response ⟨n⟩) none else Pure.pure none

/-- The parts of a response. -/
def responseParts (p : Place) (n : Nat) : Loading (Response → Response) := do
  let headers ← Loading.responseHeaders p.node p.location
  let content ← Loading.content p.node p.location (.response ⟨n⟩)
  let d ← get
  let schema ← responseSchema p (d.version == .swagger2) n
  return fun r => { r with headers, content, schema }

/-- The rest of a response follows its parts. -/
theorem responseParts_bind {γ : Type} (p : Place) (n : Nat)
    (k : List (String × HeaderId) → List (String × MediaTypeId) → Option SchemaSlot → Loading γ) :
    (do
      let headers ← Loading.responseHeaders p.node p.location
      let content ← Loading.content p.node p.location (.response ⟨n⟩)
      let schema ←
        if (← get).version == .swagger2 then
          Loading.schemaField p.node p.location (.response ⟨n⟩) none
        else Pure.pure none
      k headers content schema : Loading γ) = (do
      let headers ← Loading.responseHeaders p.node p.location
      let content ← Loading.content p.node p.location (.response ⟨n⟩)
      let d ← get
      let schema ← responseSchema p (d.version == .swagger2) n
      k headers content schema) := by
  refine bind_congr fun headers => bind_congr fun content => bind_congr fun d => ?_
  cases d.version == .swagger2 <;> rfl

theorem follows_responseParts {p : Place} (hrole : p.role = .response) (n : Nat) :
    Follows v c (responseParts p n) (((p.members v).flatMap p.placesOf).flatMap (Place.order v))
      fun h r =>
        let h₁ := h ++ (p.placesOf .headers).flatMap (Place.order v)
        let h₂ := h₁ ++ (p.placesOf .content).flatMap (Place.order v)
        { r with
          headers := heldBy v heldHeader h (p.placesOf .headers)
          content := (moments v h₁ (p.placesOf .content)).map fun (h, q) =>
            (q.name, ⟨(Outline.after h).count .mediaTypes⟩)
          schema := if v == .swagger2 then (slotsOf v h₂ (p.placesOf .schema)).head? else none } := by
  have hmembers : p.members v = [.headers, .content] ++ if v == .swagger2 then [.schema] else [] := by
    simp only [Place.members, hrole]
  have hschema : Follows v c (responseSchema p (v == .swagger2) n)
      (((if v == .swagger2 then [Member.schema] else []).flatMap p.placesOf).flatMap (Place.order v))
      fun h => if v == .swagger2 then (slotsOf v h (p.placesOf .schema)).head? else none := by
    unfold responseSchema
    cases hv : v == .swagger2 with
    | true => exact (schemaField (.response ⟨n⟩) none).congr (by simp) fun h => rfl
    | false => exact Follows.pure none
  have hrest := fun headers content => Follows.version (k := fun v => do
      let schema ← responseSchema p (v == .swagger2) n
      return fun r : Response => { r with headers, content, schema })
    (Follows.bind hschema fun schema => Follows.pure _)
  refine (Follows.bind (responseHeaders p) fun headers => Follows.bind (content p (.response ⟨n⟩))
    fun content => hrest headers content).congr ?_ fun h => rfl
  rw [hmembers]
  simp

theorem response {name : String} {node : Node} {origin : Origin}
    (href : node.reference? = none) :
    Follows v c (Loading.response node origin) ((Place.mk .response name node origin).order v)
      fun h => ⟨(Outline.after h).count .responses⟩ := by
  set p := Place.mk .response name node origin with hp
  have href' : p.reference? = none := href
  have hown : p.own v = [] := own_eq_nil (by simp [hp]) (by simp [hp])
  rw [order_object href' (by simp [hp]), hown]
  refine object (s := .responses)
    (fun n => { id := ⟨n⟩, origin, description := node.textAt? "description" })
    (responseParts p)
    (fun d _ => ?_) href' rfl (by decide)
    (fun n => follows_responseParts rfl n) (fun _ _ => rfl) (fun _ _ => trivial)
    fun h => ⟨rfl, rfl, ?_, ?_, ?_⟩
  · have hbind := responseParts_bind p d.responses.size fun headers content schema => do
      modify fun d' => complete d' .responses d.responses.size fun r =>
        { r with headers, content, schema }
      return ResponseId.mk d.responses.size
    exact congrArg (·.run (d.start p .responses
      { id := ⟨d.responses.size⟩, origin, description := node.textAt? "description" })) hbind
  · rw [Place.upTo, hown]
    rfl
  · simp [Place.contentOf, Place.upTo, hown]
  · simp [Place.schemaSlot?, Place.upTo, hown]

theorem responseSlot {q : Place} (hrole : q.role = .response) :
    Follows v c (Loading.responseSlot q.node q.origin) (q.order v) (heldResponse c · q) := by
  obtain ⟨role, name, node, origin⟩ := q
  obtain rfl : role = .response := hrole
  exact slotByComponent (fun text d => by
      rcases Loading.componentAt? d text with _ | ⟨_, _, _, _, _, _ | _⟩ <;> rfl)
    fun href => response href

end Follows

end ApiLint
