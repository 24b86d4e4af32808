import ApiLint.Proofs.Holding
import ApiLint.Proofs.Registration

/-!
# The objects of a document own one another

The names that a document holds are those of its objects, and its schemas and media types form a
forest (`Document.IsForest`):

* **Names** are numbers of objects (`Document.Has`), because a slot that is no reference names the
  object that its place becomes (`Document.Loaded.has_of_place`), and a reference leads to the object
  of a place among those read (`Document.Loaded.has_of_target`).
* **Holders**: each schema stands in one slot and each media type in one content, those of the object
  that it names as its owner, because that is so of all that the loader builds
  (`Document.held_perm_owned`).
* **Levels**: a schema gets its number before the schemas in its slots get theirs
  (`Document.owner_lt`), so going from owner to owner ends
  (`Document.IsForest.exists_outermost`).
-/

set_option autoImplicit false

namespace ApiLint

open Yaml (Node)

/-! ## Names of objects -/

/-- The name of an object: its sort, and its number among the objects of that sort. -/
abbrev ObjectName := Store × Nat

/-- The number that an object bears itself. Components bear none. -/
def Store.number? : (s : Store) → s.Object → Option Nat
  | .schemas, x => some x.id.index
  | .parameters, x => some x.id.index
  | .headers, x => some x.id.index
  | .mediaTypes, x => some x.id.index
  | .namedExamples, x => some x.id.index
  | .requestBodies, x => some x.id.index
  | .responses, x => some x.id.index
  | .components, _ => none

def SchemaOwner.names : SchemaOwner → List ObjectName
  | .component _ => []
  | .schema id => [(.schemas, id.index)]
  | .parameter id => [(.parameters, id.index)]
  | .header id => [(.headers, id.index)]
  | .mediaType id => [(.mediaTypes, id.index)]
  | .response id => [(.responses, id.index)]

def MediaTypeOwner.name : MediaTypeOwner → ObjectName
  | .requestBody id => (.requestBodies, id.index)
  | .response id => (.responses, id.index)
  | .parameter id => (.parameters, id.index)
  | .header id => (.headers, id.index)

def SchemaSlot.names (slot : SchemaSlot) : List ObjectName :=
  (slot.inline?.map fun id => (.schemas, id.index)).toList

def exampleNames (examples : List (String × NamedExampleId)) : List ObjectName :=
  examples.map fun (_, id) => (.namedExamples, id.index)

def contentNames (content : List (String × MediaTypeId)) : List ObjectName :=
  content.map fun (_, id) => (.mediaTypes, id.index)

def ComponentContent.names : ComponentContent → List ObjectName
  | .schema slot => slot.names
  | .parameter id => [(.parameters, id.index)]
  | .requestBody id => [(.requestBodies, id.index)]
  | .response id => [(.responses, id.index)]
  | .namedExample id => [(.namedExamples, id.index)]
  | .header id => [(.headers, id.index)]
  | .opaqueEntry | .unresolved => []

/-- What the slots and lists of an object name. -/
def Store.parts : (s : Store) → s.Object → List ObjectName
  | .schemas, x => x.children.flatMap SchemaSlot.names
  | .parameters, x => x.schema.toList.flatMap SchemaSlot.names ++ exampleNames x.namedExamples ++
      contentNames x.content
  | .headers, x => x.schema.toList.flatMap SchemaSlot.names ++ exampleNames x.namedExamples ++
      contentNames x.content
  | .mediaTypes, x => x.schema.toList.flatMap SchemaSlot.names ++ exampleNames x.namedExamples
  | .namedExamples, _ => []
  | .requestBodies, x => contentNames x.content
  | .responses, x => x.headers.map (fun (_, id) => (.headers, id.index)) ++
      contentNames x.content ++ x.schema.toList.flatMap SchemaSlot.names
  | .components, x => x.content.names

/-- The owner that an object names. -/
def Store.owners : (s : Store) → s.Object → List ObjectName
  | .schemas, x => x.owner.names
  | .mediaTypes, x => [x.owner.name]
  | .parameters, _ | .headers, _ | .namedExamples, _ | .requestBodies, _ | .responses, _
  | .components, _ => []

def Operation.names (op : Operation) : List ObjectName :=
  op.parameters.map (fun id => (.parameters, id.index)) ++
    op.requestBody.toList.map (fun id => (.requestBodies, id.index)) ++
    op.responses.map fun (_, id) => (.responses, id.index)

def PathItem.names (item : PathItem) : List ObjectName :=
  item.parameters.map (fun id => (.parameters, id.index)) ++
    item.operations.flatMap Operation.names

def Target.name? : Target → Option ObjectName
  | .schema id => some (.schemas, id.index)
  | .parameter id => some (.parameters, id.index)
  | .header id => some (.headers, id.index)
  | .mediaType id => some (.mediaTypes, id.index)
  | .namedExample id => some (.namedExamples, id.index)
  | .component i => some (.components, i)
  | .document | .pathItem _ => none

/-- The slots for schemas of an object, each with the name of the object as an owner. -/
def Store.slots : (s : Store) → s.Object → List (SchemaOwner × SchemaSlot)
  | .schemas, x => x.children.map (.schema x.id, ·)
  | .parameters, x => x.schema.toList.map (.parameter x.id, ·)
  | .headers, x => x.schema.toList.map (.header x.id, ·)
  | .mediaTypes, x => x.schema.toList.map (.mediaType x.id, ·)
  | .responses, x => x.schema.toList.map (.response x.id, ·)
  | .components, x => x.content.slots.map (.component x.name, ·)
  | .namedExamples, _ | .requestBodies, _ => []

/-- The media types in the content of an object, each with the name of the object as an owner. -/
def Store.contents : (s : Store) → s.Object → List (MediaTypeOwner × MediaTypeId)
  | .parameters, x => x.content.map fun (_, id) => (.parameter x.id, id)
  | .headers, x => x.content.map fun (_, id) => (.header x.id, id)
  | .requestBodies, x => x.content.map fun (_, id) => (.requestBody x.id, id)
  | .responses, x => x.content.map fun (_, id) => (.response x.id, id)
  | .schemas, _ | .mediaTypes, _ | .namedExamples, _ | .components, _ => []

namespace Document

variable (d : Document)

/-- The object of that name exists. -/
def Has (n : ObjectName) : Prop := n.2 < (d.arena n.1).size

/-- What a reference can lead to exists. -/
def HasTarget (t : Target) : Prop := ∃ n, t.name? = some n ∧ d.Has n

/-- All slots for schemas of a document. -/
def slots : List (SchemaOwner × SchemaSlot) := gather d.arena Store.slots

/-- The contents of a document. -/
def contents : List (MediaTypeOwner × MediaTypeId) := gather d.arena Store.contents

/-- The objects of a document name one another as the trees of a forest do. -/
structure IsForest : Prop where
  /-- An object bears its position as its number. -/
  number : ∀ s i x, (d.arena s)[i]? = some x → ∀ n, s.number? x = some n → n = i
  /-- What an object names exists. -/
  parts : ∀ s, ∀ x ∈ d.arena s, ∀ n ∈ s.parts x, d.Has n
  owners : ∀ s, ∀ x ∈ d.arena s, ∀ n ∈ s.owners x, d.Has n
  paths : ∀ item ∈ d.paths, ∀ n ∈ item.names, d.Has n
  /-- What references lead to exists. -/
  references : ∀ r ∈ d.references.all, ∀ t, r.target = some t → d.HasTarget t
  resolved : ∀ text t, d.resolve text = some t → d.HasTarget t
  pointers : ∀ l t, d.objectAt? l = some t → d.HasTarget t
  /-- A schema stands in one slot, one of its owner. -/
  schemas : ∀ s ∈ d.schemas,
    (d.slots.filter fun (_, slot) => slot.content = .inline s.id).map Prod.fst = [s.owner]
  /-- A media type stands in one content, that of its owner. -/
  mediaTypes : ∀ m ∈ d.mediaTypes,
    (d.contents.filter fun (_, id) => id = m.id).map Prod.fst = [m.owner]
  /-- A schema comes after the one around it. -/
  levels : ∀ s ∈ d.schemas, ∀ id, s.owner = .schema id → id.index < s.id.index

end Document

/-! ## Names at places -/

/-- The places of a member are read after what is before them. -/
theorem ReadAfter.of_mem_member {v : SpecVersion} {root : Node} {h h' : List Place} {p q : Place}
    {ms' : List Member} {m : Member} (ms : List Member) (hp : ReadAfter v root h p)
    (href : p.reference? = none) (hms : p.members v = ms ++ m :: ms')
    (hq : (h', q) ∈ moments v (p.upTo v h ms) (p.placesOf m)) :
    ReadAfter v root h' q ∧ q.role = m.role := by
  have hparts : p.parts v = ms.flatMap p.placesOf ++ p.placesOf m ++
      (ms'.flatMap p.placesOf ++ if p.role = .pathItem then p.operations else []) := by
    simp only [Place.parts, href, hms, Option.isSome_none, Bool.false_eq_true, ↓reduceIte,
      List.flatMap_append, List.flatMap_cons, List.append_assoc]
    rfl
  refine ⟨hp.of_mem_moments hparts hq, ?_⟩
  obtain ⟨as, bs, hcut, -⟩ := mem_moments hq
  exact Follows.role_of_mem_places (hcut ▸ List.mem_append_cons_self : q ∈ p.placesOf m)

/-- So are the sub-schemas of a schema, which of one that stands for a parameter or header are those
of the parameter or header. -/
theorem ReadAfter.of_mem_subSchemas {v : SpecVersion} {root : Node} {h h' : List Place}
    {p q : Place} (hp : ReadAfter v root h p) (href : p.reference? = none)
    (hrole : p.role = .schema ∨ p.role = .ownSchema)
    (hq : (h', q) ∈ moments v (h ++ [p]) (Member.ofSchema.flatMap p.placesOf)) :
    ReadAfter v root h' q ∧ q.role = .schema := by
  constructor
  · rcases hrole with hrole | hrole
    · have hparts : p.parts v = [] ++ Member.ofSchema.flatMap p.placesOf ++ [] := by
        simp only [Place.parts, href, hrole, Place.members]
        simp
        rfl
      exact hp.of_mem_moments hparts (by simpa [Follows.own_eq_nil, hrole] using hq)
    · obtain ⟨h₀, r, rfl, rfl, hr, hself⟩ := hp.exists_owner hrole
      obtain ⟨hrref, hrrole⟩ := Document.Loaded.role_of_isOwnSchema hself
      have hparts : r.parts v = [] ++ Member.ofSchema.flatMap r.placesOf ++
          [Member.examples, .content].flatMap r.placesOf := by
        rcases hrrole with hrrole | hrrole <;>
          simp only [Place.parts, hrref, hrrole, Place.members, hself] <;> simp <;> rfl
      replace hq : (h', q) ∈ moments v (h₀ ++ [r] ++ [{ r with role := .ownSchema }])
        (Member.ofSchema.flatMap r.placesOf) := hq
      refine hr.of_mem_moments hparts ?_
      rw [Place.own, if_pos hself]
      simpa using hq
  · obtain ⟨as, bs, hcut, -⟩ := mem_moments hq
    obtain ⟨m, hm, hq⟩ := List.mem_flatMap.1 (hcut ▸ List.mem_append_cons_self)
    exact (Follows.role_of_mem_places hq).trans (Follows.role_of_mem_ofSchema hm)

namespace Document.Loaded

variable {d : Document} {draft : Draft} (hd : d.Loaded draft)
include hd

/-- A place that is no reference becomes an object. -/
theorem has_of_place {h : List Place} {p : Place} (hp : ReadAfter d.specVersion d.root h p)
    (href : p.reference? = none) {s : Store} (hs : p.role.store? = some s) :
    d.Has (s, (Outline.after h).count s) := by
  obtain ⟨x, hx, -⟩ := hd.filled.objects h p hp href s hs
  exact (Array.getElem?_eq_some_iff.1 hx).1

/-- What references to a place lead to exists. -/
theorem has_of_registered {h : List Place} {p : Place} {t : Target}
    (hp : ReadAfter d.specVersion d.root h p) (href : p.reference? = none)
    (ht : p.role.target? (Outline.after h).count = some t) : d.HasTarget t := by
  by_cases hrole : p.role = .opaqueEntry
  · obtain ⟨ps, e, qs, hcut, rfl, rfl⟩ := hp.entry_of_opaque hrole
    obtain ⟨kind, hkind⟩ := ReadAfter.role_of_mem_componentPlaces (hcut ▸ List.mem_append_cons_self)
    have hentry := hd.has_of_place (s := .components) (ReadAfter.component hcut)
      (by simp [Place.reference?, Role.isSlot, hkind]) (by rw [hkind]; rfl)
    rw [Follows.order_of_opaqueEntry hrole href, Outline.after_concat, Outline.count_read, hrole,
      if_neg (by simp [Role.store?])] at hentry
    rw [hrole] at ht
    obtain rfl := Option.some.inj ht
    exact ⟨_, rfl, hentry⟩
  · have hplace := fun s => hd.has_of_place hp href (s := s)
    cases hr : p.role <;> rw [hr] at ht hplace <;>
      simp only [Role.target?, Option.some.injEq, reduceCtorEq] at ht
    case opaqueEntry => exact absurd hr hrole
    all_goals exact ht ▸ ⟨_, rfl, hplace _ rfl⟩

/-- What a reference finds among the places read exists. -/
theorem has_of_finds {h b : List Place} (horder : readingOrder d.specVersion d.root = h ++ b)
    {text : String} {t : Target} (ht : Finds Role.target? h text t) : d.HasTarget t := by
  obtain ⟨route, -, hleads⟩ := ht
  induction hleads with
  | here hdef =>
    obtain ⟨h', p, b', rfl, -, -, hdef⟩ := hdef
    have hp : ReadAfter d.specVersion d.root h' p :=
      readAfter_iff.2 ⟨b' ++ b, by simpa using horder⟩
    unfold definition at hdef
    split at hdef
    · rename_i href
      exact hd.has_of_registered hp href hdef
    · cases hdef
  | next _ _ _ ih => exact ih

/-- What a reference leads to exists. -/
theorem has_of_target {text : String} {t : Target} (ht : d.resolve text = some t) : d.HasTarget t := by
  rw [resolve, hd.pointers_eq] at ht
  exact hd.has_of_finds (b := []) (by simp) ((Outline.resolve_after _ _ _).1 ht)

/-! ## What slots name -/

theorem has_of_slot {h : List Place} {q : Place} (hq : ReadAfter d.specVersion d.root h q)
    (hrole : q.role = .schema ∨ q.role = .ownSchema) :
    ∀ n ∈ ((Outline.after h).slot q).names, d.Has n := by
  intro n hn
  unfold SchemaSlot.names SchemaSlot.inline? Outline.slot at hn
  cases href : q.reference? with
  | some text => simp [href] at hn
  | none =>
    obtain rfl : n = (.schemas, (Outline.after h).count .schemas) := by simpa [href] using hn
    exact hd.has_of_place hq href (by rcases hrole with hrole | hrole <;> rw [hrole] <;> rfl)

theorem has_of_slots {h qs : List Place}
    (hqs : ∀ h' q, (h', q) ∈ moments d.specVersion h qs →
      ReadAfter d.specVersion d.root h' q ∧ q.role = .schema) :
    ∀ n ∈ (slotsOf d.specVersion h qs).flatMap SchemaSlot.names, d.Has n := by
  intro n hn
  obtain ⟨slot, hslot, hn⟩ := List.mem_flatMap.1 hn
  obtain ⟨⟨h', q⟩, hq, rfl⟩ := List.mem_map.1 hslot
  obtain ⟨hread, hrole⟩ := hqs h' q hq
  exact hd.has_of_slot hread (.inl hrole) n hn

/-- What a slot holds exists, that follows its reference where it stands. -/
theorem has_of_heldAs {α : Type} {pick : Target → Option α} {own : Nat → α} {s : Store}
    {index : α → Nat} (hpick : ∀ t a, pick t = some a → t.name? = some (s, index a))
    (hown : ∀ n, index (own n) = n) {h : List Place} {q : Place}
    (hq : ReadAfter d.specVersion d.root h q) (hs : q.role.store? = some s) {a : α}
    (ha : heldAs pick own s h q = some a) : d.Has (s, index a) := by
  unfold heldAs at ha
  cases href : q.reference? with
  | none =>
    rw [href] at ha
    obtain rfl := Option.some.inj ha
    rw [hown]
    exact hd.has_of_place hq href hs
  | some text =>
    rw [href] at ha
    obtain ⟨t, ht, ha⟩ := Option.bind_eq_some_iff.1 ha
    obtain ⟨b, horder⟩ := readAfter_iff.1 hq
    obtain ⟨n, hn, hhas⟩ := hd.has_of_finds (h := h ++ [q]) (by simpa using horder)
      ((Outline.resolve_after _ _ _).1 ht)
    obtain rfl := Option.some.inj (hn.symm.trans (hpick t a ha))
    exact hhas

/-- What a slot holds exists, that looks its reference up among the component entries. -/
theorem has_of_heldByComponent {α : Type} {pick : ComponentContent → Option α} {own : Nat → α}
    {sort : (Store → Nat) → Role → Option α} (hpick : PicksSort pick sort) {s : Store}
    {index : α → Nat}
    (hsort : ∀ count role a, sort count role = some a → role.store? = some s ∧ index a = count s)
    (hown : ∀ n, index (own n) = n) {h : List Place} {q : Place}
    (hq : ReadAfter d.specVersion d.root h q) (hs : q.role.store? = some s) {a : α}
    (ha : heldByComponent pick own s d.entries h q = some a) : d.Has (s, index a) := by
  cases href : q.reference? with
  | none =>
    rw [heldByComponent, href] at ha
    obtain rfl := Option.some.inj ha
    rw [hown]
    exact hd.has_of_place hq href hs
  | some text =>
    obtain ⟨ps, e, qs, hcut, -, -, hdef⟩ := (heldByComponent_eq_some hpick href a).1 ha
    unfold definition at hdef
    split at hdef
    · rename_i heref
      obtain ⟨hstore, hindex⟩ := hsort _ _ _ hdef
      rw [hindex]
      exact hd.has_of_place (.entry hcut) heref hstore
    · cases hdef

theorem has_of_heldParameter {h : List Place} {q : Place} {id : ParameterId}
    (hq : ReadAfter d.specVersion d.root h q) (hrole : q.role = .parameter)
    (ha : heldParameter h q = some id) : d.Has (.parameters, id.index) := by
  refine hd.has_of_heldAs (fun t a ht => ?_) (fun n => rfl) hq (by rw [hrole]; rfl) ha
  cases t <;> simp_all [Target.parameter?, Target.name?]

theorem has_of_heldHeader {h : List Place} {q : Place} {id : HeaderId}
    (hq : ReadAfter d.specVersion d.root h q) (hrole : q.role = .header)
    (ha : heldHeader h q = some id) : d.Has (.headers, id.index) := by
  refine hd.has_of_heldAs (fun t a ht => ?_) (fun n => rfl) hq (by rw [hrole]; rfl) ha
  cases t <;> simp_all [Target.header?, Target.name?]

theorem has_of_heldExample {h : List Place} {q : Place} {id : NamedExampleId}
    (hq : ReadAfter d.specVersion d.root h q) (hrole : q.role = .namedExample)
    (ha : heldExample h q = some id) : d.Has (.namedExamples, id.index) := by
  refine hd.has_of_heldAs (fun t a ht => ?_) (fun n => rfl) hq (by rw [hrole]; rfl) ha
  cases t <;> simp_all [Target.namedExample?, Target.name?]

theorem has_of_heldRequestBody {h : List Place} {q : Place} {id : RequestBodyId}
    (hq : ReadAfter d.specVersion d.root h q) (hrole : q.role = .requestBody)
    (ha : heldRequestBody d.entries h q = some id) : d.Has (.requestBodies, id.index) := by
  refine hd.has_of_heldByComponent picksSort_requestBody (fun count role a h => ?_) (fun n => rfl)
    hq (by rw [hrole]; rfl) ha
  cases role <;> cases h
  exact ⟨rfl, rfl⟩

theorem has_of_heldResponse {h : List Place} {q : Place} {id : ResponseId}
    (hq : ReadAfter d.specVersion d.root h q) (hrole : q.role = .response)
    (ha : heldResponse d.entries h q = some id) : d.Has (.responses, id.index) := by
  refine hd.has_of_heldByComponent picksSort_response (fun count role a h => ?_) (fun n => rfl)
    hq (by rw [hrole]; rfl) ha
  cases role <;> cases h
  exact ⟨rfl, rfl⟩

/-! ## What objects name -/

section
variable {h : List Place} {p : Place} (hp : ReadAfter d.specVersion d.root h p)
  (href : p.reference? = none)
include hp href

omit hd in
/-- What the slots under a member of entries hold exists. -/
theorem has_of_heldBy {α : Type} {held : List Place → Place → Option α} {s : Store}
    {ms' : List Member} {m : Member} (index : α → Nat) (ms : List Member)
    (hms : p.members d.specVersion = ms ++ m :: ms')
    (hheld : ∀ {h' q a}, ReadAfter d.specVersion d.root h' q → q.role = m.role →
      held h' q = some a → d.Has (s, index a)) :
    ∀ x ∈ heldBy d.specVersion held (p.upTo d.specVersion h ms) (p.placesOf m),
      d.Has (s, index x.2) := by
  intro x hx
  obtain ⟨⟨h', q⟩, hq, hx⟩ := List.mem_filterMap.1 hx
  obtain ⟨a, ha, rfl⟩ := Option.map_eq_some_iff.1 hx
  obtain ⟨hread, hrole⟩ := hp.of_mem_member _ href hms hq
  exact hheld hread hrole ha

theorem has_of_examplesOf {ms : List Member}
    (hms : p.members d.specVersion = p.schemaMembers d.specVersion ++ .examples :: ms) :
    ∀ n ∈ exampleNames (p.examplesOf d.specVersion h), d.Has n := by
  intro n hn
  obtain ⟨x, hx, rfl⟩ := List.mem_map.1 hn
  exact has_of_heldBy hp href NamedExampleId.index _ hms hd.has_of_heldExample x hx

theorem has_of_contentOf {ms' : List Member} (ms : List Member)
    (hms : p.members d.specVersion = ms ++ .content :: ms') :
    ∀ n ∈ contentNames (p.contentOf d.specVersion h ms), d.Has n := by
  intro n hn
  obtain ⟨x, hx, rfl⟩ := List.mem_map.1 hn
  obtain ⟨⟨h', q⟩, hq, rfl⟩ := List.mem_map.1 hx
  obtain ⟨hread, hrole⟩ := hp.of_mem_member _ href hms hq
  have hrole : q.role = .mediaType := hrole
  exact hd.has_of_place hread (by simp [Place.reference?, Role.isSlot, hrole]) (by rw [hrole]; rfl)

theorem has_of_schemaSlot {ms' : List Member} (ms : List Member)
    (hms : p.members d.specVersion = ms ++ .schema :: ms') :
    ∀ n ∈ (p.schemaSlot? d.specVersion h ms).toList.flatMap SchemaSlot.names, d.Has n := by
  have hle : (p.placesOf .schema).length ≤ 1 := Member.length_places_le (.inl rfl) ..
  rw [Place.schemaSlot?, toList_head?_slotsOf hle]
  exact hd.has_of_slots fun h' q hq => hp.of_mem_member _ href hms hq

theorem has_of_schemaOf {ms : List Member}
    (hms : p.members d.specVersion = p.schemaMembers d.specVersion ++ ms) :
    ∀ n ∈ (p.schemaOf d.specVersion h).toList.flatMap SchemaSlot.names, d.Has n := by
  unfold Place.schemaOf
  split
  · rename_i hself
    have hslot := hd.has_of_slot (hp.own hself) (.inr rfl)
    simpa [Outline.slot, Place.reference?, Role.isSlot] using hslot
  · rename_i hself
    rw [Place.schemaMembers, if_neg hself] at hms
    exact hd.has_of_schemaSlot hp href [] hms

end

/-- What a parameter or header names exists. -/
theorem has_of_parameterParts {h : List Place} {p : Place}
    (hp : ReadAfter d.specVersion d.root h p) (href : p.reference? = none)
    (hrole : p.role = .parameter ∨ p.role = .header) :
    ∀ n ∈ (p.schemaOf d.specVersion h).toList.flatMap SchemaSlot.names ++
      exampleNames (p.examplesOf d.specVersion h) ++
      contentNames (p.contentOf d.specVersion h (p.schemaMembers d.specVersion ++ [.examples])),
      d.Has n := by
  have hms : p.members d.specVersion = p.schemaMembers d.specVersion ++ [.examples, .content] := by
    rcases hrole with hrole | hrole <;> simp only [Place.members, hrole] <;> rfl
  simp only [List.forall_mem_append]
  refine ⟨⟨hd.has_of_schemaOf hp href hms, hd.has_of_examplesOf hp href hms⟩, ?_⟩
  rw [List.append_cons] at hms
  exact hd.has_of_contentOf hp href _ hms

/-- What a response names exists. -/
theorem has_of_responseParts {h : List Place} {p : Place}
    (hp : ReadAfter d.specVersion d.root h p) (href : p.reference? = none)
    (hrole : p.role = .response) {x : Response} (hx : p.Describes d.specVersion h .responses x) :
    ∀ n ∈ Store.parts .responses x, d.Has n := by
  obtain ⟨-, -, hheaders, hcontent, hschema⟩ := hx
  have hms : p.members d.specVersion =
      [.headers, .content] ++ if d.specVersion == .swagger2 then [.schema] else [] := by
    simp only [Place.members, hrole]
  rw [Store.parts, hheaders, hcontent, hschema]
  simp only [List.forall_mem_append]
  refine ⟨⟨fun n hn => ?_, hd.has_of_contentOf hp href [.headers] hms⟩, ?_⟩
  · obtain ⟨x, hx, rfl⟩ := List.mem_map.1 hn
    exact has_of_heldBy hp href HeaderId.index [] hms hd.has_of_heldHeader x hx
  · cases hv : d.specVersion == .swagger2 with
    | false => simp
    | true =>
      rw [hv] at hms
      exact hd.has_of_schemaSlot hp href [.headers, .content] hms

/-- What the object of a place names exists. -/
theorem has_of_describes {h : List Place} {p : Place} (hp : ReadAfter d.specVersion d.root h p)
    (href : p.reference? = none) {s : Store} (hs : p.role.store? = some s) (hne : s ≠ .components)
    {x : s.Object} (hx : p.Describes d.specVersion h s x) : ∀ n ∈ s.parts x, d.Has n := by
  cases hrole : p.role <;> rw [hrole] at hs <;> cases hs
  case component => exact absurd rfl hne
  case namedExample => exact fun n hn => by cases hn
  case schema | ownSchema =>
    rw [Store.parts, hx.2.2]
    exact hd.has_of_slots fun h' q hq => hp.of_mem_subSchemas href (by simp [hrole]) hq
  case parameter =>
    obtain ⟨-, -, hschema, hexamples, hcontent⟩ := hx
    rw [Store.parts, hschema, hexamples, hcontent]
    exact hd.has_of_parameterParts hp href (.inl hrole)
  case header =>
    obtain ⟨-, -, hschema, hexamples, hcontent⟩ := hx
    rw [Store.parts, hschema, hexamples, hcontent]
    exact hd.has_of_parameterParts hp href (.inr hrole)
  case mediaType =>
    obtain ⟨-, -, hschema, hexamples⟩ := hx
    have hms : p.members d.specVersion = p.schemaMembers d.specVersion ++ [.examples] := by
      simp [Place.members, Place.schemaMembers, Place.isOwnSchema, hrole]
    have hschemas : p.members d.specVersion = [] ++ Member.schema :: [.examples] := by
      simp [Place.members, hrole]
    rw [Store.parts, hschema, hexamples]
    simp only [List.forall_mem_append]
    exact ⟨hd.has_of_schemaSlot hp href [] hschemas, hd.has_of_examplesOf hp href hms⟩
  case requestBody =>
    obtain ⟨-, -, hcontent⟩ := hx
    have hms : p.members d.specVersion = [] ++ [.content] := by simp [Place.members, hrole]
    rw [Store.parts, hcontent]
    exact hd.has_of_contentOf hp href [] hms
  case response => exact hd.has_of_responseParts hp href hrole hx

/-- What a component entry is exists. -/
theorem has_of_entry {ps qs : List Place} {e : Place}
    (hcut : componentPlaces d.specVersion d.root = ps ++ e :: qs) :
    ∀ n ∈ (contentOf (ps.flatMap (Place.entryOrder d.specVersion)) e).names, d.Has n := by
  have hread : ReadAfter d.specVersion d.root _ e.held := .entry hcut
  obtain ⟨kind, hkind⟩ := ReadAfter.role_of_mem_componentPlaces (hcut ▸ List.mem_append_cons_self)
  have href := Place.reference?_held hkind
  have hplace : ∀ s, e.node.reference? = none → e.held.role.store? = some s →
      d.Has (s, (Outline.after (ps.flatMap (Place.entryOrder d.specVersion))).count s) :=
    fun s hnone hs => hd.has_of_place hread (href.trans hnone) hs
  unfold contentOf
  cases hrole : e.held.role <;> cases hnone : e.node.reference? <;> rw [hrole, hnone] at hplace
  case schema.none | schema.some => exact hd.has_of_slot hread (.inl hrole)
  case parameter.none | requestBody.none | response.none | namedExample.none | header.none =>
    simpa [ComponentContent.names] using hplace _ rfl rfl
  all_goals exact fun n hn => by cases hn

omit hd in
/-- Following a component's reference names what it leads to. -/
theorem mem_names_followed {pointers : Pointers} {c : Component} {n : ObjectName}
    (hn : n ∈ (followed pointers c).content.names) :
    n ∈ c.content.names ∨ ∃ text t, pointers.resolve text = some t ∧ t.name? = some n := by
  unfold followed at hn
  split at hn
  · exact .inl hn
  · exact .inl hn
  · rename_i _ text _ _
    refine .inr ⟨text, ?_⟩
    cases ht : pointers.resolve text with
    | none => simp [ht, ComponentContent.names] at hn
    | some t => cases t <;> simp_all [ComponentContent.names, Target.name?]

theorem has_of_component {c : Component} (hc : c ∈ d.components) :
    ∀ n ∈ c.content.names, d.Has n := by
  intro n hn
  rw [hd.components, hd.hasRead.components, Array.mem_map] at hc
  obtain ⟨c, hc, rfl⟩ := hc
  obtain ⟨ps, e, qs, kind, hcut, -, rfl⟩ := mem_componentsOf (List.mem_toArray.1 hc)
  rcases mem_names_followed hn with hn | ⟨text, t, ht, hname⟩
  · exact hd.has_of_entry hcut n hn
  · rw [← hd.pointers] at ht
    obtain ⟨n', hn', hhas⟩ := hd.has_of_target ht
    obtain rfl := Option.some.inj (hname.symm.trans hn')
    exact hhas

/-- **What an object names** exists. -/
theorem has_of_parts {s : Store} {x : s.Object} (hx : x ∈ d.arena s) :
    ∀ n ∈ s.parts x, d.Has n := by
  by_cases hs : s = .components
  · subst hs
    exact hd.has_of_component hx
  · rw [hd.arena_eq hs] at hx
    obtain ⟨i, hi⟩ := Array.mem_iff_getElem?.1 hx
    obtain ⟨h, p, hp, href, hstore, -, hdesc⟩ := hd.place_of_arena hi
    exact hd.has_of_describes hp href hstore hs hdesc

theorem has_of_parameters {h : List Place} {p : Place} {ms : List Member}
    (hp : ReadAfter d.specVersion d.root h p) (href : p.reference? = none)
    (hown : p.own d.specVersion = []) (hms : p.members d.specVersion = .parameters :: ms) :
    ∀ id ∈ (moments d.specVersion (h ++ [p]) (p.placesOf .parameters)).filterMap
      (fun (h, q) => heldParameter h q), d.Has (.parameters, id.index) := by
  intro id hid
  obtain ⟨⟨h', q⟩, hq, hid⟩ := List.mem_filterMap.1 hid
  obtain ⟨hread, hrole⟩ := hp.of_mem_member [] href hms (by simpa [Place.upTo, hown] using hq)
  exact hd.has_of_heldParameter hread hrole hid

/-- What an operation names exists. -/
theorem has_of_operation {h : List Place} {p : Place} (hp : ReadAfter d.specVersion d.root h p)
    (hrole : p.role = .operation) :
    ∀ n ∈ (p.operationOf d.specVersion d.entries h).names, d.Has n := by
  have href : p.reference? = none := by simp [Place.reference?, Role.isSlot, hrole]
  have hown : p.own d.specVersion = [] :=
    Follows.own_eq_nil (by simp [hrole]) (by simp [hrole])
  have hms : p.members d.specVersion = [.parameters, .requestBody, .responses] := by
    simp [Place.members, hrole]
  have hparameters := hd.has_of_parameters hp href hown hms
  simp only [Operation.names, Place.operationOf, List.forall_mem_append, List.forall_mem_map]
  refine ⟨⟨hparameters, fun id hid => ?_⟩, fun x hx => ?_⟩
  · obtain ⟨⟨h', q⟩, hq, hid⟩ := Option.bind_eq_some_iff.1 (Option.mem_toList.1 hid)
    obtain ⟨hread, hqrole⟩ := hp.of_mem_member [.parameters] href hms
      (by simpa [Place.upTo, hown] using List.mem_of_head? hq)
    exact hd.has_of_heldRequestBody hread hqrole hid
  · refine has_of_heldBy hp href ResponseId.index [.parameters, .requestBody] hms
      hd.has_of_heldResponse x ?_
    simpa [Place.upTo, hown] using hx

/-- What a path item names exists. -/
theorem has_of_item {item : PathItem} (hitem : item ∈ d.paths) :
    ∀ n ∈ item.names, d.Has n := by
  obtain ⟨h, p, hp, hrole, rfl⟩ := hd.exists_place_of_item hitem
  have href : p.reference? = none := by simp [Place.reference?, Role.isSlot, hrole]
  have hown : p.own d.specVersion = [] :=
    Follows.own_eq_nil (by simp [hrole]) (by simp [hrole])
  have hms : p.members d.specVersion = [.parameters] := by simp [Place.members, hrole]
  have hparameters := hd.has_of_parameters hp href hown hms
  simp only [PathItem.names, Place.pathItemOf, List.forall_mem_append, List.forall_mem_map]
  refine ⟨hparameters, fun n hn => ?_⟩
  obtain ⟨op, hop, hn⟩ := List.mem_flatMap.1 hn
  obtain ⟨⟨h', q⟩, hq, rfl⟩ := List.mem_map.1 hop
  have hqrole : q.role = .operation := by
    obtain ⟨as, bs, hcut, -⟩ := mem_moments hq
    exact Place.role_of_mem_operations (hcut ▸ List.mem_append_cons_self)
  exact hd.has_of_operation (hp.of_mem_operations hrole hq) hqrole n hn

/-! ## Numbers and levels -/

theorem number_eq {s : Store} {i : Nat} {x : s.Object} (hx : (d.arena s)[i]? = some x) {n : Nat}
    (hn : s.number? x = some n) : n = i := by
  by_cases hs : s = .components
  · subst hs
    cases hn
  · rw [hd.arena_eq hs] at hx
    obtain ⟨h, p, -, -, -, rfl, hdesc⟩ := hd.place_of_arena hx
    cases s
    case components => exact absurd rfl hs
    all_goals
      have hid := hdesc.1
      simp_all [Store.number?]

/-- The schemas in the slots of a schema come after it. -/
theorem index_lt_of_child {s : Schema} (hs : s ∈ d.schemas) {slot : SchemaSlot}
    (hslot : slot ∈ s.children) {id : SchemaId} (hid : slot.inline? = some id) :
    s.id.index < id.index := by
  rw [hd.schemas] at hs
  obtain ⟨i, hi⟩ := Array.mem_iff_getElem?.1 hs
  obtain ⟨h, p, hp, href, hstore, -, hnumber, -, hchildren⟩ := hd.place_of_arena (s := .schemas) hi
  rw [hchildren] at hslot
  obtain ⟨⟨h', q⟩, hq, rfl⟩ := List.mem_map.1 hslot
  obtain ⟨as, bs, -, rfl⟩ := mem_moments hq
  have hone := Outline.count_concat h href hstore
  have hle := Outline.count_le_append (h ++ [p]) (as.flatMap (Place.order d.specVersion)) .schemas
  unfold SchemaSlot.inline? Outline.slot at hid
  cases hqref : q.reference? with
  | some text => simp [hqref] at hid
  | none =>
    simp only [hqref, Option.some.injEq] at hid
    subst hid
    rw [hnumber]
    dsimp only at hone hle ⊢
    omega

/-- What bears a number of a sort exists. -/
theorem has_of_number {s : Store} {x : s.Object} (hx : x ∈ d.arena s) {n : Nat}
    (hn : s.number? x = some n) : d.Has (s, n) := by
  obtain ⟨i, hi⟩ := Array.mem_iff_getElem?.1 hx
  rw [hd.number_eq hi hn]
  exact (Array.getElem?_eq_some_iff.1 hi).1

end Document.Loaded

/-! ## Holders -/

theorem mem_gather {α : Type} {arena : (s : Store) → Array s.Object}
    {f : (s : Store) → s.Object → List α} {a : α} :
    a ∈ gather arena f ↔ ∃ s, ∃ x ∈ arena s, a ∈ f s x := by
  have hall : ∀ s, s ∈ Store.all := fun s => by cases s <;> decide
  simp [gather, hall]

theorem filterMap_gather {α β : Type} (g : α → Option β) (arena : (s : Store) → Array s.Object)
    (f : (s : Store) → s.Object → List α) :
    (gather arena f).filterMap g = gather arena fun s x => (f s x).filterMap g := by
  simp only [gather, List.filterMap_flatMap]

namespace Holding

def schema? : Holding → Option (SchemaOwner × SchemaId)
  | .schema owner id => some (owner, id)
  | .mediaType _ _ => none

def mediaType? : Holding → Option (MediaTypeOwner × MediaTypeId)
  | .schema _ _ => none
  | .mediaType owner id => some (owner, id)

end Holding

/-- The schema in a slot, with the name of its owner. -/
def SchemaSlot.holding? : SchemaOwner × SchemaSlot → Option (SchemaOwner × SchemaId)
  | (owner, slot) => slot.inline?.map (owner, ·)

theorem heldIn_eq_filterMap (owner : SchemaOwner) (slots : List SchemaSlot) :
    heldIn owner slots = slots.filterMap fun slot => slot.inline?.map (.schema owner) :=
  (List.filterMap_eq_flatMap_toList ..).symm

@[simp]
theorem filterMap_schema_heldIn (owner : SchemaOwner) (slots : List SchemaSlot) :
    (heldIn owner slots).filterMap Holding.schema? =
      (slots.map (owner, ·)).filterMap SchemaSlot.holding? := by
  rw [heldIn_eq_filterMap, List.filterMap_filterMap, List.filterMap_map]
  refine List.filterMap_congr fun slot _ => ?_
  cases hslot : slot.inline? <;> simp [Holding.schema?, SchemaSlot.holding?, hslot]

@[simp]
theorem filterMap_schema_contentIn (owner : MediaTypeOwner) (content : List (String × MediaTypeId)) :
    (contentIn owner content).filterMap Holding.schema? = [] := by
  simp [contentIn, Function.comp_def, Holding.schema?]

@[simp]
theorem filterMap_mediaType_heldIn (owner : SchemaOwner) (slots : List SchemaSlot) :
    (heldIn owner slots).filterMap Holding.mediaType? = [] := by
  rw [heldIn_eq_filterMap, List.filterMap_filterMap]
  refine List.filterMap_eq_nil_iff.2 fun slot _ => ?_
  cases slot.inline? <;> rfl

@[simp]
theorem filterMap_mediaType_contentIn (owner : MediaTypeOwner)
    (content : List (String × MediaTypeId)) :
    (contentIn owner content).filterMap Holding.mediaType? = content.map fun (_, id) => (owner, id) := by
  simp [contentIn, Function.comp_def, Holding.mediaType?]

namespace Store

variable (s : Store) (x : s.Object)

theorem filterMap_schema_held :
    (s.held x).filterMap Holding.schema? = (s.slots x).filterMap SchemaSlot.holding? := by
  cases s <;> simp [held, slots]

theorem filterMap_mediaType_held : (s.held x).filterMap Holding.mediaType? = s.contents x := by
  cases s <;> simp [held, contents]

variable {s x}

/-- The holder of a slot bears its name. -/
theorem number_of_mem_slots {owner : SchemaOwner} {slot : SchemaSlot} (h : (owner, slot) ∈ s.slots x) :
    ∀ n ∈ owner.names, n.1 = s ∧ s.number? x = some n.2 := by
  cases s <;> simp only [slots, List.mem_map, Prod.mk.injEq, List.not_mem_nil] at h <;>
    obtain ⟨-, -, rfl, -⟩ := h <;> simp [SchemaOwner.names, number?]

/-- What a slot of an object names, the object names. -/
theorem mem_parts_of_slot {owner : SchemaOwner} {slot : SchemaSlot} (h : (owner, slot) ∈ s.slots x)
    {n : ObjectName} (hn : n ∈ slot.names) : n ∈ s.parts x := by
  cases s <;> simp only [slots, List.mem_map, Prod.mk.injEq, List.not_mem_nil] at h <;>
    obtain ⟨slot, hslot, -, rfl⟩ := h <;> simp only [parts, List.mem_append, List.mem_flatMap]
  case schemas => exact ⟨slot, hslot, hn⟩
  case parameters => exact .inl (.inl ⟨slot, hslot, hn⟩)
  case headers => exact .inl (.inl ⟨slot, hslot, hn⟩)
  case mediaTypes => exact .inl ⟨slot, hslot, hn⟩
  case responses => exact .inr ⟨slot, hslot, hn⟩
  case components =>
    cases hcontent : x.content <;> simp_all [ComponentContent.slots, ComponentContent.names]

theorem number_of_mem_contents {owner : MediaTypeOwner} {id : MediaTypeId}
    (h : (owner, id) ∈ s.contents x) :
    owner.name.1 = s ∧ s.number? x = some owner.name.2 := by
  cases s <;> simp only [contents, List.mem_map, Prod.mk.injEq, List.not_mem_nil] at h <;>
    obtain ⟨-, -, rfl, -⟩ := h <;> simp [MediaTypeOwner.name, number?]

end Store

/-- A slot holds a schema inline if that is the schema in it. -/
theorem map_fst_filter_content (slots : List (SchemaOwner × SchemaSlot)) (id : SchemaId) :
    (slots.filter fun (_, slot) => slot.content = .inline id).map Prod.fst =
      ((slots.filterMap SchemaSlot.holding?).filter fun (_, id') => id' = id).map Prod.fst := by
  induction slots with
  | nil => rfl
  | cons x slots ih =>
    obtain ⟨owner, ⟨_ | _, origin⟩⟩ := x
    · simp only [List.filter_cons, List.filterMap_cons, SchemaSlot.holding?, SchemaSlot.inline?,
        Option.map_some, SlotContent.inline.injEq]
      split <;> simp [ih]
    · simpa [List.filterMap_cons, SchemaSlot.holding?, SchemaSlot.inline?] using ih

namespace Document

variable {root : Node} {d : Document}

/-- The slots of a document hold its schemas, each with its owner. -/
theorem slots_perm (h : ofNode root = .ok d) :
    (d.slots.filterMap SchemaSlot.holding?).Perm (d.schemas.toList.map fun s => (s.owner, s.id)) := by
  have hperm := (held_perm_owned h).filterMap Holding.schema?
  simp only [filterMap_gather, Store.filterMap_schema_held] at hperm
  rw [slots, filterMap_gather]
  refine hperm.trans (List.Perm.of_eq ?_)
  simp [gather, Store.all, Store.owned, List.filterMap_cons, Holding.schema?, arena,
    flatMap_nil_right, List.map_eq_flatMap]

/-- The contents of a document hold its media types, each with its owner. -/
theorem contents_perm (h : ofNode root = .ok d) :
    d.contents.Perm (d.mediaTypes.toList.map fun m => (m.owner, m.id)) := by
  have hperm := (held_perm_owned h).filterMap Holding.mediaType?
  simp only [filterMap_gather, Store.filterMap_mediaType_held] at hperm
  refine hperm.trans (List.Perm.of_eq ?_)
  simp [gather, Store.all, Store.owned, List.filterMap_cons, Holding.mediaType?, arena,
    flatMap_nil_right, List.map_eq_flatMap]

/-- The owner of a schema has it in a slot. -/
theorem exists_slot_of_schema (h : ofNode root = .ok d) {s : Schema} (hs : s ∈ d.schemas) :
    ∃ t, ∃ x ∈ d.arena t, ∃ slot, (s.owner, slot) ∈ t.slots x ∧ slot.inline? = some s.id := by
  have hmem := (slots_perm h).mem_iff.2 (List.mem_map_of_mem (Array.mem_toList_iff.2 hs))
  obtain ⟨⟨owner, slot⟩, hslot, hid⟩ := List.mem_filterMap.1 hmem
  obtain ⟨id, hid, he⟩ := Option.map_eq_some_iff.1 hid
  obtain ⟨rfl, rfl⟩ := Prod.mk.inj he
  obtain ⟨t, x, hx, hslot⟩ := mem_gather.1 hslot
  exact ⟨t, x, hx, slot, hslot, hid⟩

/-- The owner of a media type has it in its content. -/
theorem exists_content_of_mediaType (h : ofNode root = .ok d) {m : MediaType}
    (hm : m ∈ d.mediaTypes) : ∃ t, ∃ x ∈ d.arena t, (m.owner, m.id) ∈ t.contents x :=
  mem_gather.1 ((contents_perm h).mem_iff.2 (List.mem_map_of_mem (Array.mem_toList_iff.2 hm)))

/-- The names of owners exist. -/
theorem has_of_owners (h : ofNode root = .ok d) {s : Store} {x : s.Object} (hx : x ∈ d.arena s) :
    ∀ n ∈ s.owners x, d.Has n := by
  obtain ⟨-, draft, hd⟩ := loaded_of_ofNode h
  cases s
  case schemas =>
    obtain ⟨t, y, hy, slot, hslot, -⟩ := exists_slot_of_schema h hx
    rintro ⟨_, n⟩ hn
    obtain ⟨rfl, hnumber⟩ := Store.number_of_mem_slots hslot _ hn
    exact hd.has_of_number hy hnumber
  case mediaTypes =>
    obtain ⟨t, y, hy, hcontent⟩ := exists_content_of_mediaType h hx
    obtain ⟨hstore, hnumber⟩ := Store.number_of_mem_contents hcontent
    intro n hn
    obtain rfl := List.mem_singleton.1 hn
    subst hstore
    exact hd.has_of_number hy hnumber
  all_goals exact fun n hn => by cases hn

/-- A schema comes after the one around it. -/
theorem owner_lt (h : ofNode root = .ok d) {s : Schema} (hs : s ∈ d.schemas) {id : SchemaId}
    (howner : s.owner = .schema id) : id.index < s.id.index := by
  obtain ⟨-, draft, hd⟩ := loaded_of_ofNode h
  obtain ⟨t, x, hx, slot, hslot, hid⟩ := exists_slot_of_schema h hs
  rw [howner] at hslot
  cases t <;> simp only [Store.slots, List.mem_map, Prod.mk.injEq, List.not_mem_nil, reduceCtorEq,
    false_and, and_false, exists_false, SchemaOwner.schema.injEq] at hslot
  obtain ⟨slot', hchild, rfl, rfl⟩ := hslot
  exact hd.index_lt_of_child hx hchild hid

/-- **The objects of a document form a forest.** -/
theorem isForest_of_ofNode (h : ofNode root = .ok d) : d.IsForest := by
  obtain ⟨-, draft, hd⟩ := loaded_of_ofNode h
  have hschemas : (d.schemas.toList.map Schema.id).Nodup :=
    nodup_of_positions SchemaId.index fun i x hx =>
      hd.number_eq (s := .schemas) hx rfl
  have hmediaTypes : (d.mediaTypes.toList.map MediaType.id).Nodup :=
    nodup_of_positions MediaTypeId.index fun i x hx =>
      hd.number_eq (s := .mediaTypes) hx rfl
  refine {
    number := fun s i x hx n hn => hd.number_eq hx hn
    parts := fun s x hx => hd.has_of_parts hx
    owners := fun s x hx => has_of_owners h hx
    paths := fun item hitem => hd.has_of_item hitem
    references := fun r hr t ht => ?_
    resolved := fun text t ht => hd.has_of_target ht
    pointers := fun l t ht => ?_
    schemas := fun s hs => ?_
    mediaTypes := fun m hm => ?_
    levels := fun s hs id howner => owner_lt h hs howner }
  · rw [hd.references] at hr
    obtain ⟨⟨text, origin⟩, -, rfl⟩ := List.mem_map.1 hr
    have ht : draft.pointers.resolve text = some t := ht
    rw [← hd.pointers] at ht
    exact hd.has_of_target ht
  · obtain ⟨h', p, hp, href, htarget, -⟩ := hd.place_of_objectAt ht
    exact hd.has_of_registered hp href htarget
  · have hperm := slots_perm h
    have hnodup : ((d.slots.filterMap SchemaSlot.holding?).map Prod.snd).Nodup := by
      rw [(hperm.map Prod.snd).nodup_iff, List.map_map]
      exact hschemas
    rw [map_fst_filter_content]
    exact map_fst_filter hnodup
      (hperm.mem_iff.2 (List.mem_map_of_mem (Array.mem_toList_iff.2 hs)))
  · have hperm := contents_perm h
    have hnodup : (d.contents.map Prod.snd).Nodup := by
      rw [(hperm.map Prod.snd).nodup_iff, List.map_map]
      exact hmediaTypes
    exact map_fst_filter hnodup
      (hperm.mem_iff.2 (List.mem_map_of_mem (Array.mem_toList_iff.2 hm)))

/-! ## Lookups -/

/-- The schema `n` levels around a schema. -/
def ancestor? (d : Document) : Nat → Schema → Option Schema
  | 0, s => some s
  | n + 1, s => (d.enclosingSchema? s).bind (d.ancestor? n)

namespace IsForest

/-- The schema of a name is found under it. -/
theorem exists_schema (hd : d.IsForest) {id : SchemaId} (h : d.Has (.schemas, id.index)) :
    ∃ s ∈ d.schemas, d.schema? id = some s ∧ s.id = id := by
  have hs : d.schemas[id.index]? = some d.schemas[id.index] := Array.getElem?_eq_getElem h
  have hnumber := hd.number .schemas _ _ hs _ rfl
  exact ⟨_, Array.mem_of_getElem? hs, hs, congrArg SchemaId.mk hnumber⟩

theorem exists_enclosing (hd : d.IsForest) {s : Schema} (hs : s ∈ d.schemas) {id : SchemaId}
    (howner : s.owner = .schema id) : ∃ t ∈ d.schemas, d.enclosingSchema? s = some t ∧ t.id = id := by
  have hhas := hd.owners .schemas s hs (.schemas, id.index) (by simp [Store.owners, howner,
    SchemaOwner.names])
  obtain ⟨t, ht, hfound, hid⟩ := hd.exists_schema hhas
  exact ⟨t, ht, by rw [enclosingSchema?, howner]; exact hfound, hid⟩

/-- The schema that a slot holds or leads to is found. -/
theorem exists_slotSchema (hd : d.IsForest) {owner : SchemaOwner} {slot : SchemaSlot}
    (hslot : (owner, slot) ∈ d.slots) {id : SchemaId} (hid : d.slotId? slot = some id) :
    ∃ s ∈ d.schemas, d.slotSchema? slot = some s ∧ s.id = id := by
  have hhas : d.Has (.schemas, id.index) := by
    unfold slotId? at hid
    split at hid
    · rename_i hcontent
      obtain rfl := Option.some.inj hid
      obtain ⟨t, x, hx, hslot⟩ := mem_gather.1 hslot
      exact hd.parts t x hx _ (Store.mem_parts_of_slot hslot (by simp [SchemaSlot.names,
        SchemaSlot.inline?, hcontent]))
    · split at hid
      · rename_i ht
        obtain rfl := Option.some.inj hid
        obtain ⟨n, hn, hhas⟩ := hd.resolved _ _ ht
        obtain rfl := Option.some.inj hn
        exact hhas
      · cases hid
  obtain ⟨s, hs, hfound, rfl⟩ := hd.exists_schema hhas
  exact ⟨s, hs, by rw [slotSchema?, hid]; exact hfound, rfl⟩

/-- From schema to schema around it, one without a schema around it is reached. -/
theorem exists_outermost (hd : d.IsForest) {s : Schema} (hs : s ∈ d.schemas) :
    ∃ n ≤ s.id.index, ∃ t ∈ d.schemas, d.ancestor? n s = some t ∧ ∀ id, t.owner ≠ .schema id := by
  induction hi : s.id.index using Nat.strong_induction_on generalizing s with
  | _ i ih =>
    subst hi
    cases howner : s.owner with
    | schema id =>
      obtain ⟨t, ht, henclosing, rfl⟩ := hd.exists_enclosing hs howner
      have hlt := hd.levels s hs t.id howner
      obtain ⟨n, hn, u, hu, hancestor, houter⟩ := ih _ hlt ht rfl
      refine ⟨n + 1, by omega, u, hu, ?_, houter⟩
      rw [ancestor?, henclosing]
      exact hancestor
    | _ => exact ⟨0, Nat.zero_le _, s, hs, rfl, fun id => by simp [howner]⟩

end IsForest

/-- **The objects of a document form a forest**: objects bear their positions as numbers, all names
are names of objects, and each schema and each media type is held once, by its owner. So the schemas
of slots and owners are found, and going from owner to owner ends. -/
theorem forest (root : Node) (d : Document) (h : ofNode root = .ok d) :
    d.IsForest ∧
    (∀ owner slot id, (owner, slot) ∈ d.slots → d.slotId? slot = some id →
      ∃ s ∈ d.schemas, d.slotSchema? slot = some s ∧ s.id = id) ∧
    (∀ s ∈ d.schemas, ∀ id, s.owner = .schema id →
      ∃ t ∈ d.schemas, d.enclosingSchema? s = some t ∧ t.id = id) ∧
    ∀ s ∈ d.schemas, ∃ n ≤ s.id.index, ∃ t ∈ d.schemas,
      d.ancestor? n s = some t ∧ ∀ id, t.owner ≠ .schema id := by
  have hd := isForest_of_ofNode h
  exact ⟨hd, fun owner slot id hslot hid => hd.exists_slotSchema hslot hid,
    fun s hs id howner => hd.exists_enclosing hs howner, fun s hs => hd.exists_outermost hs⟩

/-- A document with a parameter that is a schema itself, around another. -/
def listTyped : Node :=
  .table 1 [("swagger", .word "2.0" 1),
    ("parameters", .table 3 [("Limits", .table 4 [("type", .word "array" 4),
      ("items", .table 6 [("type", .word "integer" 6)])])]),
    ("paths", .table 8 [("/pets", .table 9 [
      ("parameters", .sequence [.pointTo 10 "#/parameters/Limits"] ⟨⟨10, 1⟩, ⟨11, 1⟩⟩)])])]

theorem forest_listTyped : ∃ d, ofNode listTyped = .ok d ∧ d.IsForest ∧
    ∃ s ∈ d.schemas, s.id = ⟨1⟩ ∧
      (d.slots.filter fun (_, slot) => slot.content = .inline ⟨1⟩).map Prod.fst = [.schema ⟨0⟩] ∧
      ∃ t ∈ d.schemas, d.enclosingSchema? s = some t ∧ t.id = ⟨0⟩ := by
  have hrun : ((ofNode listTyped).toOption.bind fun d => d.schemas[1]?.map fun s =>
      (s.id, s.owner)) = some (⟨1⟩, .schema ⟨0⟩) := by decide +kernel
  obtain ⟨d, hd, he⟩ := ofNode_of_toOption hrun
  obtain ⟨s, hs, he⟩ := Option.map_eq_some_iff.1 he
  obtain ⟨hid, howner⟩ := Prod.mk.inj he
  obtain ⟨hforest, -, henclosing, -⟩ := forest listTyped d hd
  have hmem := Array.mem_of_getElem? hs
  have hslots := hforest.schemas s hmem
  rw [hid, howner] at hslots
  exact ⟨d, hd, hforest, s, hmem, hid, hslots, henclosing s hmem ⟨0⟩ howner⟩

end Document

end ApiLint
