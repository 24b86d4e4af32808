import ApiLint.Proofs.Occurrences
import ApiLint.Proofs.Walking

/-!
# Every schema hangs under a root

The schemas of a loaded document are named by their positions (`Document.Loaded.schemasNamed`), and
each of them is held, without a reference in between, by a component, parameter, header, media type
or response, or by a schema that is (`Document.Loaded.reaches_of_schema`). So a walk whose levels
suffice meets them all.
-/

set_option autoImplicit false

namespace ApiLint

namespace Document

/-- A slot stands `n` levels below a root. -/
def HasSlot (d : Document) (n : Nat) (slot : SchemaSlot) : Prop :=
  (n = 0 ∧ slot ∈ d.schemaRoots) ∨
    ∃ m s, n = m + 1 ∧ d.Reaches (fun _ => True) m s ∧ slot ∈ s.children

theorem HasSlot.reaches {d : Document} {n : Nat} {slot : SchemaSlot} {s : Schema}
    (h : d.HasSlot n slot) (hs : d.slotSchema? slot = some s) :
    d.Reaches (fun _ => True) n s := by
  rcases h with ⟨rfl, hroot⟩ | ⟨m, t, rfl, ht, hchild⟩
  · exact .root hroot hs
  · exact .child ht trivial hchild hs

end Document

/-! ## Slots side by side -/

/-- The slot of a place among others. -/
theorem slot_mem_slotsOf {v : SpecVersion} {ps qs : List Place} {r : Place} (h : List Place) :
    (Outline.after (h ++ ps.flatMap (Place.order v))).slot r ∈ slotsOf v h (ps ++ r :: qs) := by
  rw [slotsOf_append]
  exact List.mem_append_right _ List.mem_cons_self

/-- No member holds schemas that stand for a parameter or header. -/
theorem Place.role_ne_of_mem_members {v : SpecVersion} {q : Place} {m : Member}
    (hm : m ∈ q.members v) : m.role ≠ .ownSchema := by
  have hall : ∀ m ∈ Member.ofSchema ++ [.schema, .examples, .content, .headers, .parameters,
      .requestBody, .responses], m.role ≠ .ownSchema := by decide
  refine hall m ?_
  unfold Place.members at hm
  split at hm
  all_goals grind

/-- The slots of one member are among those of all. -/
theorem mem_slotsOf_members {v : SpecVersion} {h : List Place} {p : Place} {ms ms' : List Member}
    {m : Member} {slot : SchemaSlot}
    (hslot : slot ∈ slotsOf v (h ++ (ms.flatMap p.placesOf).flatMap (Place.order v)) (p.placesOf m)) :
    slot ∈ slotsOf v h ((ms ++ m :: ms').flatMap p.placesOf) := by
  rw [List.flatMap_append, List.flatMap_cons, slotsOf_append, slotsOf_append]
  exact List.mem_append_right _ (List.mem_append_left _ hslot)

/-- The part of a place that is no operation belongs to one of its members. -/
theorem Place.member_of_parts {v : SpecVersion} {q r : Place} {ps qs : List Place}
    (hparts : q.parts v = ps ++ r :: qs) (hrole : r.role ≠ .operation) :
    q.reference? = none ∧ ∃ ms m ms' a b, q.members v = ms ++ m :: ms' ∧
      q.placesOf m = a ++ r :: b ∧ ps = ms.flatMap q.placesOf ++ a ∧ r.role = m.role := by
  unfold Place.parts at hparts
  cases href : q.reference? with
  | some text => simp [href] at hparts
  | none =>
    rw [href] at hparts
    simp only [Option.isSome_none, Bool.false_eq_true, ↓reduceIte] at hparts
    rcases append_eq_append_cons hparts with ⟨e, -, hoperations⟩ | ⟨e, hmembers, -⟩
    · split at hoperations
      · have hr : r ∈ q.operations := hoperations ▸ List.mem_append_cons_self
        exact absurd (Place.role_of_mem_operations hr) hrole
      · simp at hoperations
    · obtain ⟨ms, m, ms', a, b, hm, hr, hps⟩ := flatMap_eq_append_cons hmembers
      have hmem : r ∈ m.places q.node q.location := hr ▸ List.mem_append_cons_self
      exact ⟨rfl, ms, m, ms', a, b, hm, hr, hps, Follows.role_of_mem_places hmem⟩

theorem schemaSlot?_eq_some {v : SpecVersion} {h : List Place} {p : Place} {ms : List Member}
    {slot : SchemaSlot} (hslot : slot ∈ slotsOf v (p.upTo v h ms) (p.placesOf .schema)) :
    p.schemaSlot? v h ms = some slot := by
  have hle : (p.placesOf .schema).length ≤ 1 := Member.length_places_le (.inl rfl) ..
  rwa [← toList_head?_slotsOf hle, Option.mem_toList] at hslot

namespace Document.Loaded

variable {d : Document} {draft : Draft}

theorem schemasNamed (hd : d.Loaded draft) : d.SchemasNamed := by
  intro i s hs
  rw [hd.schemas] at hs
  obtain ⟨h, p, -, -, -, rfl, hdesc⟩ := hd.place_of_arena (s := .schemas) hs
  exact hdesc.1

/-! ## Roots -/

theorem mem_schemaRoots_of_component (hd : d.Loaded draft) {ps qs : List Place} {e : Place}
    (he : componentPlaces d.specVersion d.root = ps ++ e :: qs) (hrole : e.held.role = .schema) :
    (Outline.after (ps.flatMap (Place.entryOrder d.specVersion))).slot e.held ∈ d.schemaRoots := by
  set slot := (Outline.after (ps.flatMap (Place.entryOrder d.specVersion))).slot e.held with hslot
  obtain ⟨kind, hkind⟩ := ReadAfter.role_of_mem_componentPlaces (he ▸ List.mem_append_cons_self)
  have hcontent : ∃ c ∈ draft.components.toList, c.content = .schema slot := by
    rw [hd.hasRead.components, he, componentsOf_append]
    refine ⟨componentOf kind (ps.flatMap (Place.entryOrder d.specVersion)) e, ?_, ?_⟩
    · simp [componentsOf, hkind]
    · simp [componentOf, contentOf, hrole, hslot]
  obtain ⟨c, hc, hcontent⟩ := hcontent
  have hfollowed : (followed draft.pointers c).content = .schema slot := by
    unfold followed
    cases c.reference <;> simp [hcontent]
  simp only [schemaRoots, List.mem_append, List.mem_filterMap]
  refine .inl (.inl (.inl (.inl ⟨followed draft.pointers c, ?_, by rw [hfollowed]⟩)))
  rw [hd.components, Array.toList_map]
  exact List.mem_map_of_mem hc

/-- The schema of a parameter or header is a root. -/
theorem mem_schemaRoots_of_parameter (hd : d.Loaded draft) {h : List Place} {p : Place}
    {slot : SchemaSlot} (hp : ReadAfter d.specVersion d.root h p) (href : p.reference? = none)
    (hrole : p.role = .parameter ∨ p.role = .header)
    (hslot : p.schemaOf d.specVersion h = some slot) : slot ∈ d.schemaRoots := by
  simp only [schemaRoots, List.mem_append, List.mem_filterMap]
  rcases hrole with hrole | hrole
  · obtain ⟨x, hx, -, -, hschema, -⟩ := hd.object hp href (s := .parameters) (by rw [hrole]; rfl)
    refine .inl (.inl (.inl (.inr ⟨x, ?_, hschema.trans hslot⟩)))
    rw [hd.parameters]
    exact Array.mem_toList_iff.2 (Array.mem_of_getElem? hx)
  · obtain ⟨x, hx, -, -, hschema, -⟩ := hd.object hp href (s := .headers) (by rw [hrole]; rfl)
    refine .inl (.inl (.inr ⟨x, ?_, hschema.trans hslot⟩))
    rw [hd.headers]
    exact Array.mem_toList_iff.2 (Array.mem_of_getElem? hx)

theorem mem_schemaRoots_of_mediaType (hd : d.Loaded draft) {h : List Place} {p : Place}
    {slot : SchemaSlot} (hp : ReadAfter d.specVersion d.root h p) (hrole : p.role = .mediaType)
    (hslot : p.schemaSlot? d.specVersion h [] = some slot) : slot ∈ d.schemaRoots := by
  have href : p.reference? = none := by simp [Place.reference?, Role.isSlot, hrole]
  obtain ⟨x, hx, -, -, hschema, -⟩ := hd.object hp href (s := .mediaTypes) (by rw [hrole]; rfl)
  simp only [schemaRoots, List.mem_append, List.mem_filterMap]
  refine .inl (.inr ⟨x, ?_, hschema.trans hslot⟩)
  rw [hd.mediaTypes]
  exact Array.mem_toList_iff.2 (Array.mem_of_getElem? hx)

theorem mem_schemaRoots_of_response (hd : d.Loaded draft) {h : List Place} {p : Place}
    {slot : SchemaSlot} (hp : ReadAfter d.specVersion d.root h p) (href : p.reference? = none)
    (hrole : p.role = .response) (hv : (d.specVersion == .swagger2) = true)
    (hslot : p.schemaSlot? d.specVersion h [.headers, .content] = some slot) :
    slot ∈ d.schemaRoots := by
  obtain ⟨x, hx, -, -, -, -, hschema⟩ :=
    hd.object hp href (s := .responses) (by rw [hrole]; rfl)
  rw [hv, if_pos rfl] at hschema
  simp only [schemaRoots, List.mem_append, List.mem_filterMap]
  refine .inr ⟨x, ?_, hschema.trans hslot⟩
  rw [hd.responses]
  exact Array.mem_toList_iff.2 (Array.mem_of_getElem? hx)

/-! ## Sub-schemas -/

/-- The slots of the schema that a place has become stand below it. -/
theorem hasSlot_of_child (hd : d.Loaded draft) {h : List Place} {p : Place}
    (hp : ReadAfter d.specVersion d.root h p) (href : p.reference? = none)
    (hrole : p.role = .schema ∨ p.role = .ownSchema) {n : Nat}
    (hn : d.HasSlot n ((Outline.after h).slot p)) {slot : SchemaSlot}
    (hslot : slot ∈ slotsOf d.specVersion (h ++ [p]) (Member.ofSchema.flatMap p.placesOf)) :
    d.HasSlot (n + 1) slot := by
  obtain ⟨s, hs, -, -, hchildren⟩ :=
    hd.object hp href (s := .schemas) (by rcases hrole with hrole | hrole <;> rw [hrole] <;> rfl)
  have hs' : d.slotSchema? ((Outline.after h).slot p) = some s := by
    simp only [Document.slotSchema?, Document.slotId?, Outline.slot, href, Option.bind_some,
      Document.schema?, hd.schemas]
    exact hs
  exact .inr ⟨n, s, rfl, hn.reaches hs', hchildren ▸ hslot⟩

theorem role_of_isOwnSchema {v : SpecVersion} {p : Place} (hself : p.isOwnSchema v = true) :
    p.reference? = none ∧ (p.role = .parameter ∨ p.role = .header) := by
  unfold Place.isOwnSchema at hself
  cases hrole : p.role <;> simp_all

/-- A schema that stands for its parameter or header is a root. -/
theorem mem_schemaRoots_of_own (hd : d.Loaded draft) {h : List Place} {p : Place}
    (hp : ReadAfter d.specVersion d.root h p) (hself : p.isOwnSchema d.specVersion = true) :
    (Outline.after (h ++ [p])).slot { p with role := .ownSchema } ∈ d.schemaRoots := by
  obtain ⟨href, hrole⟩ := role_of_isOwnSchema hself
  refine hd.mem_schemaRoots_of_parameter hp href hrole ?_
  rw [Place.schemaOf, if_pos hself]
  rfl

/-- A slot for a schema in a parameter or header is a root, or stands below one. -/
theorem hasSlot_of_parameter (hd : d.Loaded draft) {h : List Place} {q : Place}
    (hq : ReadAfter d.specVersion d.root h q) (href : q.reference? = none)
    (hqrole : q.role = .parameter ∨ q.role = .header) {ms ms' : List Member} {m : Member}
    (hm : q.schemaMembers d.specVersion = ms ++ m :: ms') {slot : SchemaSlot}
    (hslot : slot ∈ slotsOf d.specVersion (q.upTo d.specVersion h ms) (q.placesOf m)) :
    ∃ n, d.HasSlot n slot := by
  unfold Place.schemaMembers at hm
  cases hself : q.isOwnSchema d.specVersion with
  | true =>
    simp only [hself, ↓reduceIte] at hm
    have hroot := hd.mem_schemaRoots_of_own hq hself
    refine ⟨1, hd.hasSlot_of_child (hq.own hself) rfl (.inr rfl) (.inl ⟨rfl, hroot⟩) ?_⟩
    have hplaces : Place.placesOf { q with role := .ownSchema } = q.placesOf := rfl
    rw [hm]
    refine mem_slotsOf_members ?_
    rw [Place.upTo, Place.own, if_pos hself] at hslot
    simpa [hplaces] using hslot
  | false =>
    simp only [hself, Bool.false_eq_true, ↓reduceIte] at hm
    obtain ⟨rfl, rfl⟩ := singleton_eq_append_cons hm
    refine ⟨0, .inl ⟨rfl, hd.mem_schemaRoots_of_parameter hq href hqrole ?_⟩⟩
    rw [Place.schemaOf, hself]
    exact schemaSlot?_eq_some hslot

/-- A slot for a schema in any place is a root, or stands below one. -/
theorem hasSlot_of_member (hd : d.Loaded draft) {h : List Place} {q : Place}
    (hq : ReadAfter d.specVersion d.root h q) (href : q.reference? = none)
    (ih : q.role = .schema ∨ q.role = .ownSchema → ∃ n, d.HasSlot n ((Outline.after h).slot q))
    {ms ms' : List Member} {m : Member} (hm : q.members d.specVersion = ms ++ m :: ms')
    (hrole : m.role = .schema) {slot : SchemaSlot}
    (hslot : slot ∈ slotsOf d.specVersion (q.upTo d.specVersion h ms) (q.placesOf m)) :
    ∃ n, d.HasSlot n slot := by
  have hmem : m ∈ q.members d.specVersion := hm ▸ List.mem_append_cons_self
  have hparameter : q.role = .parameter ∨ q.role = .header → ∃ n, d.HasSlot n slot := by
    intro hqrole
    have hmembers : q.members d.specVersion =
        q.schemaMembers d.specVersion ++ [.examples, .content] := by
      rcases hqrole with hqrole | hqrole <;> simp only [Place.members, hqrole] <;> rfl
    rcases append_eq_append_cons (hmembers ▸ hm) with ⟨e, -, he⟩ | ⟨e, hm, -⟩
    · have hmem' : m ∈ [Member.examples, .content] := he ▸ List.mem_append_cons_self
      simp only [List.mem_cons, List.not_mem_nil, or_false] at hmem'
      rcases hmem' with rfl | rfl <;> cases hrole
    · exact hd.hasSlot_of_parameter hq href hqrole hm hslot
  cases hqrole : q.role <;> simp only [Place.members, hqrole] at hm hmem
  case schema =>
    obtain ⟨n, hn⟩ := ih (.inl hqrole)
    refine ⟨n + 1, hd.hasSlot_of_child hq href (.inl hqrole) hn ?_⟩
    rw [hm]
    refine mem_slotsOf_members ?_
    rw [Place.upTo, Follows.own_eq_nil (by simp [hqrole]) (by simp [hqrole])] at hslot
    simpa using hslot
  case parameter => exact hparameter (.inl hqrole)
  case header => exact hparameter (.inr hqrole)
  case mediaType =>
    obtain ⟨rfl, hhead⟩ | ⟨ms, rfl, htail⟩ := List.cons_eq_append_iff.1 hm
    · obtain ⟨rfl, -⟩ := List.cons.inj hhead
      exact ⟨0, .inl ⟨rfl, hd.mem_schemaRoots_of_mediaType hq hqrole (schemaSlot?_eq_some hslot)⟩⟩
    · obtain ⟨-, rfl⟩ := singleton_eq_append_cons htail
      cases hrole
  case response =>
    rcases append_eq_append_cons hm with ⟨e, rfl, he⟩ | ⟨e, he, -⟩
    · split at he
      · rename_i hv
        obtain ⟨rfl, rfl⟩ := singleton_eq_append_cons he
        refine ⟨0, .inl ⟨rfl, hd.mem_schemaRoots_of_response hq href hqrole hv ?_⟩⟩
        exact schemaSlot?_eq_some hslot
      · simp at he
    · have hmem' : m ∈ [Member.headers, .content] := he ▸ List.mem_append_cons_self
      simp only [List.mem_cons, List.not_mem_nil, or_false] at hmem'
      rcases hmem' with rfl | rfl <;> cases hrole
  case operation =>
    simp only [List.mem_cons, List.not_mem_nil, or_false] at hmem
    rcases hmem with rfl | rfl | rfl <;> cases hrole
  case requestBody => cases List.mem_singleton.1 hmem; cases hrole
  case pathItem => cases List.mem_singleton.1 hmem; cases hrole
  all_goals cases hmem

/-- Every slot for a schema stands below a root. -/
theorem hasSlot (hd : d.Loaded draft) {h : List Place} {p : Place}
    (hp : ReadAfter d.specVersion d.root h p) (hrole : p.role = .schema ∨ p.role = .ownSchema) :
    ∃ n, d.HasSlot n ((Outline.after h).slot p) := by
  induction hp with
  | @entry ps qs e he =>
    obtain ⟨kind, hkind⟩ := ReadAfter.role_of_mem_componentPlaces (he ▸ List.mem_append_cons_self)
    refine ⟨0, .inl ⟨rfl, hd.mem_schemaRoots_of_component he (hrole.resolve_right ?_)⟩⟩
    cases kind <;> simp [Place.held, hkind, ComponentKind.role]
  | @component ps qs e he =>
    obtain ⟨kind, hkind⟩ := ReadAfter.role_of_mem_componentPlaces (he ▸ List.mem_append_cons_self)
    simp [hkind] at hrole
  | @path ps qs e he =>
    have hpath := ReadAfter.role_of_mem_pathPlaces (he ▸ List.mem_append_cons_self : e ∈ pathPlaces _)
    simp [hpath] at hrole
  | @own h q hq hself ih => exact ⟨0, .inl ⟨rfl, hd.mem_schemaRoots_of_own hq hself⟩⟩
  | @part h ps qs q r hq hparts ih =>
    obtain ⟨href, ms, m, ms', a, b, hm, hplaces, rfl, hmrole⟩ :=
      Place.member_of_parts hparts (by rcases hrole with hrole | hrole <;> simp [hrole])
    have hschema : m.role = .schema := by
      have hmem : m ∈ q.members d.specVersion := hm ▸ List.mem_append_cons_self
      exact (hmrole ▸ hrole).resolve_right (Place.role_ne_of_mem_members hmem)
    refine hd.hasSlot_of_member hq href ih hm hschema ?_
    rw [hplaces]
    have hpos : h ++ q :: (q.own d.specVersion ++
        (ms.flatMap q.placesOf ++ a).flatMap (Place.order d.specVersion)) =
        q.upTo d.specVersion h ms ++ a.flatMap (Place.order d.specVersion) := by
      simp [Place.upTo]
    rw [hpos]
    exact slot_mem_slotsOf _

/-- **Every schema of a document is reached from a root.** -/
theorem reaches_of_schema (hd : d.Loaded draft) {id : SchemaId} {s : Schema}
    (hs : d.schema? id = some s) : ∃ n, d.Reaches (fun _ => True) n s := by
  have hs' := hs
  rw [Document.schema?, hd.schemas] at hs
  obtain ⟨h, p, hp, href, hstore, hid, -⟩ := hd.place_of_arena (s := .schemas) hs
  have hrole : p.role = .schema ∨ p.role = .ownSchema := by
    cases hr : p.role <;> simp_all [Role.store?]
  obtain ⟨n, hn⟩ := hd.hasSlot hp hrole
  refine ⟨n, hn.reaches ?_⟩
  simp only [Document.slotSchema?, Document.slotId?, Outline.slot, href, hid]
  exact hs'

end Document.Loaded

end ApiLint
