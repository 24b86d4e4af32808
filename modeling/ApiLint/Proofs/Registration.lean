import ApiLint.Proofs.Addresses

/-!
# Every object at its own address

An object that references can lead to (`Document.IsAddressed`) comes from a place that is registered
under its target (`Document.Loaded.place_of_addressed`). In a document that repeats no key no two
such places share a pointer (`ReadAfter.eq_of_texts`), so registering the first object at a pointer
only never turns one away: each is found at its own pointer (`Document.Loaded.objectAt?_of_addressed`).
What else is built stands clear of all references, too (`Document.Loaded.clear_of_written`). The two
make up `Document.addressed_at`.
-/

set_option autoImplicit false

namespace ApiLint

open Yaml (Node)

namespace Document

section
variable (d : Document)

/-- The schema is a parameter or header of version 2.0 itself: the slot that holds it is written
where its owner is. -/
def IsSelfSchema (id : SchemaId) : Prop :=
  d.specVersion = .swagger2 ∧
    ((∃ x ∈ d.parameters, x.schema = some ⟨.inline id, x.origin⟩) ∨
      ∃ x ∈ d.headers, x.schema = some ⟨.inline id, x.origin⟩)

/-- References can lead to the object; of the components these are links and security schemes. -/
def IsAddressed : Target → Prop
  | .schema id => ¬d.IsSelfSchema id
  | .parameter _ | .header _ | .mediaType _ | .namedExample _ => True
  | .component i => ∃ c, d.components[i]? = some c ∧ c.kind.isAddressed = true ∧ c.reference = none
  | .document | .pathItem _ => False

/-- An object of any kind is written at the origin; component entries that are references are
none. -/
def IsWritten (o : Origin) : Prop :=
  (∃ s, s ≠ .components ∧ ∃ x ∈ d.arena s, s.originOf x = o) ∨
    (∃ c ∈ d.components, c.reference = none ∧ c.origin = o) ∨
    (∃ item ∈ d.paths, item.origin = o) ∨ ∃ item op, (item, op) ∈ d.operations ∧ op.origin = o

end

/-- The text of an object's pointer leads to it at once. -/
theorem resolve_of_objectAt {d : Document} {l : Location} {t : Target}
    (h : d.objectAt? l = some t) : d.resolve l.pointer = some t := by
  have hat : d.pointers.objectAt? l.pointer = some t := h
  rw [resolve, Pointers.resolve, Pointers.maxHops, Pointers.resolveWithin,
    Pointers.isLocal_pointer, hat]
  rfl

namespace Loaded

variable {d : Document} {draft : Draft} (hd : d.Loaded draft)
include hd

/-! ## The places of objects -/

/-- The schema at a place that stands for a parameter or header is that object itself. -/
theorem isSelfSchema_of_own {h : List Place} {p : Place}
    (hp : ReadAfter d.specVersion d.root h p) (hrole : p.role = .ownSchema) :
    d.IsSelfSchema ⟨(Outline.after h).count .schemas⟩ := by
  obtain ⟨h', q, rfl, -, hq, hself⟩ := hp.exists_owner hrole
  obtain ⟨href, hqrole⟩ := role_of_isOwnSchema hself
  have hslot : q.schemaOf d.specVersion h' =
      some ⟨.inline ⟨(Outline.after (h' ++ [q])).count .schemas⟩, q.origin⟩ := if_pos hself
  have hversion : d.specVersion = .swagger2 := by
    simp only [Place.isOwnSchema, Bool.and_eq_true, beq_iff_eq] at hself
    exact hself.1.1.1.2
  refine ⟨hversion, ?_⟩
  rcases hqrole with hqrole | hqrole
  · obtain ⟨x, hx, -, horigin, hschema, -⟩ :=
      hd.object hq href (s := .parameters) (by rw [hqrole]; rfl)
    refine .inl ⟨x, ?_, ?_⟩
    · rw [hd.parameters]
      exact Array.mem_of_getElem? hx
    · rw [hschema, hslot, horigin]
  · obtain ⟨x, hx, -, horigin, hschema, -⟩ :=
      hd.object hq href (s := .headers) (by rw [hqrole]; rfl)
    refine .inr ⟨x, ?_, ?_⟩
    · rw [hd.headers]
      exact Array.mem_of_getElem? hx
    · rw [hschema, hslot, horigin]

/-- An object that references find by its number comes from a place with its target. -/
theorem place_of_getElem {s : Store} {i : Nat} {x : s.Object} {t : Target}
    (hx : (d.arena s)[i]? = some x) (hs : s ≠ .components)
    (ht : ∀ role : Role, role ≠ .ownSchema → role.store? = some s →
      ∀ n : Store → Nat, n s = i → role.target? n = some t)
    (hown : s = .schemas → ¬d.IsSelfSchema ⟨i⟩) :
    ∃ h p, ReadAfter d.specVersion d.root h p ∧ p.reference? = none ∧
      p.role.target? (Outline.after h).count = some t ∧ p.origin = s.originOf x := by
  rw [hd.arena_eq hs] at hx
  obtain ⟨h, p, hp, href, hstore, hcount, hdesc⟩ := hd.place_of_arena hx
  have hrole : p.role ≠ .ownSchema := by
    intro hrole
    obtain rfl : .schemas = s := by simpa [hrole, Role.store?] using hstore
    exact hown rfl (hcount ▸ hd.isSelfSchema_of_own hp hrole)
  exact ⟨h, p, hp, href, ht p.role hrole hstore _ hcount, (hdesc.originOf hs).symm⟩

/-- A component that is a link or a security scheme comes from the place of its entry. -/
theorem place_of_component {i : Nat} {c : Component} (hc : d.components[i]? = some c)
    (hkind : c.kind.isAddressed = true) (hnone : c.reference = none) :
    ∃ h p, ReadAfter d.specVersion d.root h p ∧ p.reference? = none ∧
      p.role.target? (Outline.after h).count = some (.component i) ∧ p.origin = c.origin := by
  rw [hd.components, Array.getElem?_map] at hc
  obtain ⟨c', hc', rfl⟩ := Option.map_eq_some_iff.1 hc
  obtain ⟨hk, hr, ho⟩ := names_followed draft.pointers c'
  rw [hk] at hkind
  rw [hr] at hnone
  obtain ⟨h, e, he, -, -, hcount, -, hrole, -, horigin, -, hnode⟩ :=
    hd.place_of_arena_readOff (s := .components) hc'
  obtain ⟨ps, qs, hcut, rfl⟩ := he.entry_of_component hrole
  have hheld : e.held.role = .opaqueEntry :=
    (Place.role_held hrole).trans ((ComponentKind.isAddressed_iff _).1 hkind)
  have href : e.held.reference? = none := by
    rw [Place.reference?_held hrole, ← hnode, hnone]
  refine ⟨_, e.held, .entry hcut, href, ?_, by rw [Place.origin_held, ho, horigin]⟩
  rw [Follows.order_of_opaqueEntry hheld href, Outline.after_concat, Outline.count_read, hheld,
    if_neg (by simp [Role.store?])] at hcount
  rw [hheld, Role.target?, hcount]

/-- An object that references can lead to comes from a place with its target. -/
theorem place_of_addressed {t : Target} {o : Origin} (ho : d.originOf? t = some o)
    (ht : d.IsAddressed t) :
    ∃ h p, ReadAfter d.specVersion d.root h p ∧ p.reference? = none ∧
      p.role.target? (Outline.after h).count = some t ∧ p.origin = o := by
  cases t with
  | document => cases ht
  | pathItem i => cases ht
  | component i =>
    obtain ⟨c, hc, hkind, hnone⟩ := ht
    obtain rfl : c.origin = o := by simpa [originOf?, hc] using ho
    exact hd.place_of_component hc hkind hnone
  | schema id =>
    obtain ⟨x, hx, rfl⟩ := Option.map_eq_some_iff.1 ho
    refine hd.place_of_getElem (s := .schemas) hx (by decide) ?_ fun _ => ht
    intro role hne hrole n hn
    cases role <;> simp_all [Role.store?, Role.target?]
  | parameter id =>
    obtain ⟨x, hx, rfl⟩ := Option.map_eq_some_iff.1 ho
    refine hd.place_of_getElem (s := .parameters) hx (by decide) ?_ fun h => by cases h
    intro role _ hrole n hn
    cases role <;> simp_all [Role.store?, Role.target?]
  | header id =>
    obtain ⟨x, hx, rfl⟩ := Option.map_eq_some_iff.1 ho
    refine hd.place_of_getElem (s := .headers) hx (by decide) ?_ fun h => by cases h
    intro role _ hrole n hn
    cases role <;> simp_all [Role.store?, Role.target?]
  | mediaType id =>
    obtain ⟨x, hx, rfl⟩ := Option.map_eq_some_iff.1 ho
    refine hd.place_of_getElem (s := .mediaTypes) hx (by decide) ?_ fun h => by cases h
    intro role _ hrole n hn
    cases role <;> simp_all [Role.store?, Role.target?]
  | namedExample id =>
    obtain ⟨x, hx, rfl⟩ := Option.map_eq_some_iff.1 ho
    refine hd.place_of_getElem (s := .namedExamples) hx (by decide) ?_ fun h => by cases h
    intro role _ hrole n hn
    cases role <;> simp_all [Role.store?, Role.target?]

/-! ## Objects at their pointers -/

/-- **Each object is found at its own pointer.** -/
theorem objectAt?_of_addressed (hkeys : d.root.keysDistinct = true) {t : Target} {o : Origin}
    (ho : d.originOf? t = some o) (ht : d.IsAddressed t) :
    d.objectAt? o.location = some t := by
  obtain ⟨h, p, hp, href, htarget, rfl⟩ := hd.place_of_addressed ho ht
  obtain ⟨t', ht'⟩ := hd.objectAt?_of_place hp href htarget
  obtain ⟨h', p', hp', -, htarget', hpointer⟩ := hd.place_of_pointer ht'
  have htexts : p.location.texts = p'.location.texts :=
    (Location.pointer_eq_iff.1 hpointer).symm
  obtain ⟨rfl, rfl⟩ := hp.eq_of_texts hkeys hp' htarget htarget' htexts
  obtain rfl : t = t' := Option.some.inj (htarget.symm.trans htarget')
  exact ht'

/-- What is written in a document has a place that is neither a reference nor a component entry. -/
theorem place_of_written {o : Origin} (ho : d.IsWritten o) :
    ∃ p ∈ readingOrder d.specVersion d.root, p.reference? = none ∧
      (∀ kind, p.role ≠ .component kind) ∧ p.origin = o := by
  have hmem : ∀ {h : List Place} {p : Place}, ReadAfter d.specVersion d.root h p →
      p ∈ readingOrder d.specVersion d.root := by
    intro h p hp
    obtain ⟨b, horder⟩ := readAfter_iff.1 hp
    exact horder ▸ List.mem_append_cons_self
  rcases ho with ⟨s, hs, x, hx, rfl⟩ | ⟨c, hc, hnone, rfl⟩ | ⟨item, hitem, rfl⟩ | ⟨item, op, hop, rfl⟩
  · rw [hd.arena_eq hs] at hx
    obtain ⟨i, hi⟩ := Array.mem_iff_getElem?.1 hx
    obtain ⟨h, p, hp, href, hstore, -, hdesc⟩ := hd.place_of_arena hi
    refine ⟨p, hmem hp, href, fun kind hrole => hs ?_, (hdesc.originOf hs).symm⟩
    simpa [hrole, Role.store?, eq_comm] using hstore
  · obtain ⟨e, he, hrole, hnode, ho⟩ := hd.mem_components_iff.1 ⟨c, hc, rfl, hnone, rfl⟩
    obtain ⟨ps, qs, hcut⟩ := List.append_of_mem he
    refine ⟨e.held, hmem (.entry hcut), ?_, fun kind => ?_, by rw [Place.origin_held, ho]⟩
    · rw [Place.reference?_held hrole, hnode]
    · rw [Place.role_held hrole]
      cases c.kind <;> simp [ComponentKind.role]
  · obtain ⟨h, p, hp, hrole, rfl⟩ := hd.exists_place_of_item hitem
    exact ⟨p, hmem hp, by simp [Place.reference?, Role.isSlot, hrole], by simp [hrole], rfl⟩
  · obtain ⟨h, p, hp, hrole, rfl⟩ := hd.exists_place_of_operation hop
    exact ⟨p, hmem hp, by simp [Place.reference?, Role.isSlot, hrole], by simp [hrole], rfl⟩

/-- **Nothing is written at or below a reference.** -/
theorem clear_of_written (hkeys : d.root.keysDistinct = true) {r : Reference} {o : Origin}
    (hr : r ∈ d.references.all) (ho : d.IsWritten o) :
    ¬r.origin.location.texts <+: o.location.texts := by
  obtain ⟨p, hp, href, hpl⟩ := hd.place_of_reference hr
  obtain ⟨q, hq, hqref, hqrole, rfl⟩ := hd.place_of_written ho
  rw [← hpl]
  exact not_prefix_of_reference hkeys hp hq href hqref hqrole

end Loaded

/-- **Every object is the one found at its own address**, in a document that repeats no key. So no
two share one; and no object or reference stands at or below a reference. -/
theorem addressed_at (root : Node) (d : Document) (h : ofNode root = .ok d)
    (hkeys : root.keysDistinct = true) :
    (∀ t o, d.originOf? t = some o → d.IsAddressed t →
      d.objectAt? o.location = some t ∧ d.resolve o.location.pointer = some t) ∧
    (∀ t t' o o', d.originOf? t = some o → d.IsAddressed t → d.originOf? t' = some o' →
      d.IsAddressed t' → o.location.pointer = o'.location.pointer → t = t') ∧
    (∀ r ∈ d.references.all, ∀ o, d.IsWritten o →
      ¬r.origin.location.texts <+: o.location.texts) ∧
    d.references.all.Pairwise fun r s => r.origin.location.Apart s.origin.location := by
  obtain ⟨rfl, draft, hd⟩ := loaded_of_ofNode h
  refine ⟨fun t o ho ht => ?_, fun t t' o o' ho ht ho' ht' hpointer => ?_, ?_,
    hd.references_apart hkeys⟩
  · have hat := hd.objectAt?_of_addressed hkeys ho ht
    exact ⟨hat, resolve_of_objectAt hat⟩
  · have hat : d.pointers.objectAt? o.location.pointer = some t :=
      hd.objectAt?_of_addressed hkeys ho ht
    have hat' : d.pointers.objectAt? o'.location.pointer = some t' :=
      hd.objectAt?_of_addressed hkeys ho' ht'
    rw [hpointer, hat'] at hat
    exact (Option.some.inj hat).symm
  · exact fun r hr o ho => hd.clear_of_written hkeys hr ho

/-- A document with a parameter that is a schema itself, and a reference to it. -/
def selfTyped : Node :=
  .table 1 [("swagger", .word "2.0" 1),
    ("parameters", .table 3 [("Limit", .table 4 [("type", .word "integer" 4)])]),
    ("paths", .table 6 [("/pets", .table 7 [
      ("parameters", .sequence [.pointTo 8 "#/parameters/Limit"] ⟨⟨8, 1⟩, ⟨9, 1⟩⟩)])])]

theorem addressed_at_selfTyped : ∃ d, ofNode selfTyped = .ok d ∧
    d.schemas.toList.map (·.origin.location.pointer) = ["#/parameters/Limit"] ∧
    d.resolve "#/parameters/Limit" = some (.parameter ⟨0⟩) := by
  have hrun : ((ofNode selfTyped).toOption.bind fun d =>
      (d.originOf? (.parameter ⟨0⟩)).map fun o =>
        (o.location.pointer, d.schemas.toList.map (·.origin.location.pointer))) =
      some ("#/parameters/Limit", ["#/parameters/Limit"]) := by decide +kernel
  obtain ⟨d, hd, he⟩ := ofNode_of_toOption hrun
  obtain ⟨o, ho, hpointer⟩ := Option.map_eq_some_iff.1 he
  obtain ⟨hp, hschemas⟩ := Prod.mk.inj hpointer
  obtain ⟨hfound, -⟩ := addressed_at selfTyped d hd (by decide +kernel)
  exact ⟨d, hd, hschemas, hp ▸ (hfound (.parameter ⟨0⟩) o ho trivial).2⟩

end Document

end ApiLint
