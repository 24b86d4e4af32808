import ApiLint.Proofs.Ownership

/-!
# Origins stand at places

What a document says about where its parts are, it says of places that were read: of objects and
path items the place that they come from, of a slot for a schema the place that it holds or refers
from (`Document.Loaded.exists_place_of_origin`). So what holds of the origins of all places holds of
all origins.
-/

set_option autoImplicit false

namespace ApiLint

open Yaml (Node)

/-- An object, a slot for a schema or a path item stands there. -/
inductive Document.HasOrigin (d : Document) : Origin → Prop
  | object {s : Store} {x : s.Object} : x ∈ d.arena s → HasOrigin d (s.originOf x)
  | slot {owner : SchemaOwner} {slot : SchemaSlot} : (owner, slot) ∈ d.slots →
      HasOrigin d slot.origin
  | item {item : PathItem} : item ∈ d.paths → HasOrigin d item.origin

/-- A place with that origin is read. -/
def ReadAt (v : SpecVersion) (root : Node) (o : Origin) : Prop :=
  ∃ h p, ReadAfter v root h p ∧ o = p.origin

namespace ReadAfter

variable {v : SpecVersion} {root : Node} {h : List Place} {p : Place}

theorem readAt (hp : ReadAfter v root h p) : ReadAt v root p.origin := ⟨h, p, hp, rfl⟩

theorem readAt_of_mem_slotsOf {qs : List Place} {slot : SchemaSlot}
    (hqs : ∀ h' q, (h', q) ∈ moments v h qs → ReadAfter v root h' q)
    (hslot : slot ∈ slotsOf v h qs) : ReadAt v root slot.origin := by
  obtain ⟨⟨h', q⟩, hq, rfl⟩ := List.mem_map.1 hslot
  exact (hqs h' q hq).readAt

section
variable (hp : ReadAfter v root h p) (href : p.reference? = none)
include hp href

theorem readAt_of_schemaSlot {ms' : List Member} (ms : List Member)
    (hms : p.members v = ms ++ .schema :: ms') {slot : SchemaSlot}
    (hslot : p.schemaSlot? v h ms = some slot) : ReadAt v root slot.origin :=
  readAt_of_mem_slotsOf (fun _ _ hq => (hp.of_mem_member ms href hms hq).1)
    (List.mem_of_head? hslot)

theorem readAt_of_schemaOf {ms : List Member} (hms : p.members v = p.schemaMembers v ++ ms)
    {slot : SchemaSlot} (hslot : p.schemaOf v h = some slot) : ReadAt v root slot.origin := by
  unfold Place.schemaOf at hslot
  split at hslot
  · obtain rfl := Option.some.inj hslot
    exact hp.readAt
  · rename_i hself
    rw [Place.schemaMembers, if_neg hself] at hms
    exact hp.readAt_of_schemaSlot href [] hms hslot

/-- The slots of the object of a place stand at places, too. -/
theorem readAt_of_mem_slots {s : Store} (hs : p.role.store? = some s) (hne : s ≠ .components)
    {x : s.Object} (hx : p.Describes v h s x) {owner : SchemaOwner} {slot : SchemaSlot}
    (hslot : (owner, slot) ∈ s.slots x) : ReadAt v root slot.origin := by
  cases hrole : p.role <;> rw [hrole] at hs <;> cases hs
  case component => exact absurd rfl hne
  case namedExample | requestBody => cases hslot
  all_goals
    obtain ⟨slot', hmem, he⟩ := List.mem_map.1 hslot
    obtain ⟨-, rfl⟩ := Prod.mk.inj he
  case schema | ownSchema =>
    rw [hx.2.2] at hmem
    exact readAt_of_mem_slotsOf
      (fun _ _ hq => (hp.of_mem_subSchemas href (by simp [hrole]) hq).1) hmem
  case parameter | header =>
    have hms : p.members v = p.schemaMembers v ++ [.examples, .content] := by
      simp only [Place.members, hrole]
      rfl
    exact hp.readAt_of_schemaOf href hms (hx.2.2.1.symm.trans (Option.mem_toList.1 hmem))
  case mediaType =>
    have hms : p.members v = [] ++ Member.schema :: [.examples] := by simp [Place.members, hrole]
    exact hp.readAt_of_schemaSlot href [] hms (hx.2.2.1.symm.trans (Option.mem_toList.1 hmem))
  case response =>
    have hheld := hx.2.2.2.2.symm.trans (Option.mem_toList.1 hmem)
    split at hheld
    · rename_i hv
      have hms : p.members v = [.headers, .content] ++ Member.schema :: [] := by
        simp only [Place.members, hrole, hv, if_true]
      exact hp.readAt_of_schemaSlot href _ hms hheld
    · cases hheld

end

/-- So does the slot of a component entry. -/
theorem readAt_of_component {ps qs : List Place} {e : Place}
    (hcut : componentPlaces v root = ps ++ e :: qs) {pointers : Pointers} {kind : ComponentKind}
    {slot : SchemaSlot}
    (hslot : slot ∈ (Document.followed pointers
      (componentOf kind (ps.flatMap (Place.entryOrder v)) e)).content.slots) :
    ReadAt v root slot.origin := by
  have hcontent : slot ∈ (contentOf (ps.flatMap (Place.entryOrder v)) e).slots := by
    unfold Document.followed at hslot
    split at hslot
    · exact hslot
    · exact hslot
    · split at hslot <;> cases hslot
  unfold contentOf at hcontent
  dsimp only at hcontent
  split at hcontent <;>
    simp only [ComponentContent.slots, List.not_mem_nil, List.mem_singleton] at hcontent
  subst hcontent
  exact (ReadAfter.entry hcut).readAt

end ReadAfter

namespace Document

variable {d : Document}

theorem hasOrigin_schema {s : Schema} (hs : s ∈ d.schemas) : d.HasOrigin s.origin :=
  .object (s := .schemas) hs

theorem hasOrigin_namedExample {id : NamedExampleId} {e : NamedExample}
    (he : d.namedExample? id = some e) : d.HasOrigin e.origin :=
  .object (s := .namedExamples) (Array.mem_of_getElem? he)

theorem hasOrigin_property {s : Schema} (hs : s ∈ d.schemas) {name : String} {slot : SchemaSlot}
    (hslot : (name, slot) ∈ s.properties) : d.HasOrigin slot.origin := by
  have hchild : slot ∈ s.children := by
    simp only [Schema.children, List.mem_append, List.mem_map]
    grind
  exact .slot (mem_gather.2 ⟨.schemas, s, hs, List.mem_map_of_mem hchild⟩)

/-- **Whatever stands in a document stands at a place that was read.** -/
theorem Loaded.exists_place_of_origin {draft : Draft} (hd : d.Loaded draft) {o : Origin}
    (ho : d.HasOrigin o) : ReadAt d.specVersion d.root o := by
  have hcomponent : ∀ c ∈ d.components, ∃ ps e qs kind,
      componentPlaces d.specVersion d.root = ps ++ e :: qs ∧
        c = followed draft.pointers (componentOf kind (ps.flatMap (Place.entryOrder d.specVersion)) e) := by
    intro c hc
    rw [hd.components, hd.hasRead.components, Array.mem_map] at hc
    obtain ⟨c, hc, rfl⟩ := hc
    obtain ⟨ps, e, qs, kind, hcut, -, rfl⟩ := mem_componentsOf (List.mem_toArray.1 hc)
    exact ⟨ps, e, qs, kind, hcut, rfl⟩
  have hobject : ∀ s, s ≠ .components → ∀ x ∈ d.arena s, ∃ h p,
      ReadAfter d.specVersion d.root h p ∧ p.reference? = none ∧ p.role.store? = some s ∧
        p.Describes d.specVersion h s x := by
    intro s hs x hx
    rw [hd.arena_eq hs] at hx
    obtain ⟨i, hi⟩ := Array.mem_iff_getElem?.1 hx
    obtain ⟨h, p, hp, href, hstore, -, hdesc⟩ := hd.place_of_arena hi
    exact ⟨h, p, hp, href, hstore, hdesc⟩
  cases ho with
  | @object s x hx =>
    by_cases hs : s = .components
    · subst hs
      obtain ⟨ps, e, qs, kind, hcut, rfl⟩ := hcomponent x hx
      refine ⟨_, e, .component hcut, ?_⟩
      exact (names_followed ..).2.2
    · obtain ⟨h, p, hp, -, -, hdesc⟩ := hobject s hs x hx
      rw [hdesc.originOf hs]
      exact hp.readAt
  | @slot owner slot hslot =>
    obtain ⟨s, x, hx, hslot⟩ := mem_gather.1 hslot
    by_cases hs : s = .components
    · subst hs
      obtain ⟨slot', hmem, he⟩ := List.mem_map.1 hslot
      obtain ⟨-, rfl⟩ := Prod.mk.inj he
      obtain ⟨ps, e, qs, kind, hcut, rfl⟩ := hcomponent x hx
      exact ReadAfter.readAt_of_component hcut hmem
    · obtain ⟨h, p, hp, href, hstore, hdesc⟩ := hobject s hs x hx
      exact hp.readAt_of_mem_slots href hstore hs hdesc hslot
  | @item item hitem =>
    obtain ⟨h, p, hp, -, rfl⟩ := hd.exists_place_of_item hitem
    exact hp.readAt

end Document

end ApiLint
