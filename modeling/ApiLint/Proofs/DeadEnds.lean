import ApiLint.Proofs.Locating
import ApiLint.Proofs.Reaching
import ApiLint.Proofs.Slots

/-!
# References that lead nowhere

References lead to schemas, parameters, headers, media types, examples and component entries that
are not looked into; they do not lead to request bodies and responses (`Store.isAddressed`,
`ComponentKind.isAddressed`). That apart, a reference is left without a target only if the chain
that it starts is too long or comes to an end where nothing was built
(`Document.target_eq_none_iff`).
-/

set_option autoImplicit false

namespace ApiLint

open Yaml (Node)

/-! ## What references lead to -/

/-- References lead to the objects of the sort. -/
def Store.isAddressed : Store → Bool
  | .schemas | .parameters | .headers | .mediaTypes | .namedExamples => true
  | .requestBodies | .responses | .components => false

/-- Where an object is written. -/
def Store.originOf : (s : Store) → s.Object → Origin
  | .schemas, x => x.origin
  | .parameters, x => x.origin
  | .headers, x => x.origin
  | .mediaTypes, x => x.origin
  | .namedExamples, x => x.origin
  | .requestBodies, x => x.origin
  | .responses, x => x.origin
  | .components, x => x.origin

/-- References lead to the component entries of the kind themselves. -/
def ComponentKind.isAddressed : ComponentKind → Bool
  | .links | .securitySchemes => true
  | _ => false

namespace Document

variable (d : Document)

/-- The pointer is that of something that references lead to. -/
def BuiltAt (pointer : String) : Prop :=
  (∃ s : Store, s.isAddressed = true ∧
    ∃ x ∈ d.arena s, (s.originOf x).location.pointer = pointer) ∨
  ∃ c ∈ d.components, c.kind.isAddressed = true ∧ c.reference = none ∧
    c.origin.location.pointer = pointer

/-- The last of the references at a pointer. -/
def referenceAt? (pointer : String) : Option Reference :=
  d.references.all.reverse.find? (·.origin.location.pointer == pointer)

/-- Following a text through `n` further references leads to the text of the last. -/
inductive LeadsOn : Nat → String → String → Prop
  | stop {text : String} : LeadsOn 0 text text
  | on {n : Nat} {text last : String} {r : Reference} : ¬d.BuiltAt text →
      d.referenceAt? text = some r → LeadsOn n r.text last → LeadsOn (n + 1) text last

/-- A text leads nowhere: it starts a chain of references that is followed no further (as one that
goes round in a circle), or one that ends where there is nothing. There never is anything outside
the document (`Loaded.not_builtAt_of_not_isLocal`). -/
def DeadEnd (text : String) : Prop :=
  (∃ last, d.LeadsOn Pointers.maxHops text last) ∨
  ∃ n < Pointers.maxHops, ∃ last, d.LeadsOn n text last ∧ ¬d.BuiltAt last ∧
    d.referenceAt? last = none

end Document

/-! ## What the pointers know -/

/-- An object is written where its place is. -/
theorem Place.Describes.originOf {v : SpecVersion} {h : List Place} {p : Place} {s : Store}
    {x : s.Object} (hx : p.Describes v h s x) (hs : s ≠ .components) : s.originOf x = p.origin := by
  cases s
  case components => exact absurd rfl hs
  case namedExamples => exact hx.2
  all_goals exact hx.2.1

theorem Place.reference?_held {e : Place} {kind : ComponentKind}
    (hrole : e.role = .component kind) : e.held.reference? = e.node.reference? := by
  simp only [reference?, held, hrole]
  cases kind <;> rfl

theorem Place.role_held {e : Place} {kind : ComponentKind} (hrole : e.role = .component kind) :
    e.held.role = kind.role := by
  simp [held, hrole]

theorem ComponentKind.isAddressed_iff (kind : ComponentKind) :
    kind.isAddressed = true ↔ kind.role = .opaqueEntry := by
  cases kind <;> decide

/-- A schema that stands for a parameter or header is read right after it. -/
theorem ReadAfter.exists_owner {v : SpecVersion} {root : Node} {h : List Place} {p : Place}
    (hp : ReadAfter v root h p) (hrole : p.role = .ownSchema) :
    ∃ h' q, h = h' ++ [q] ∧ p = { q with role := .ownSchema } ∧ ReadAfter v root h' q ∧
      q.isOwnSchema v = true := by
  have hsite := hp.site
  rwa [hrole] at hsite

/-- The last reference met at a pointer is the one to follow from there. -/
theorem Outline.linkAt?_eq (ps : List Place) (pointer : String) :
    (after ps).pointers.linkAt? pointer =
      ((after ps).met.toList.reverse.find? (·.2.location.pointer == pointer)).map Prod.fst := by
  induction ps using List.reverseRecOn with
  | nil => rfl
  | append_singleton ps p ih =>
    rw [met_after] at ih ⊢
    rw [after_concat, linkAt?_read, ih, List.filterMap_append, List.reverse_append]
    have hpointer : p.origin.location.pointer = p.pointer := rfl
    cases href : p.reference? with
    | none => simp [href]
    | some text => by_cases hp : p.pointer = pointer <;> simp [href, hpointer, hp]

/-- The components of entries side by side are those entries, as far as their names tell. -/
theorem mem_componentsOf_iff {v : SpecVersion} {kind : ComponentKind} {reference : Option String}
    {origin : Origin} (h es : List Place) :
    (∃ c ∈ componentsOf v h es, c.kind = kind ∧ c.reference = reference ∧ c.origin = origin) ↔
      ∃ e ∈ es, e.role = .component kind ∧ e.node.reference? = reference ∧ e.origin = origin := by
  induction es generalizing h with
  | nil => simp [componentsOf]
  | cons e es ih =>
    rw [componentsOf]
    cases hrole : e.role <;> simp [hrole, ih, componentOf]

theorem Document.names_followed (pointers : Pointers) (c : Component) :
    (followed pointers c).kind = c.kind ∧ (followed pointers c).reference = c.reference ∧
      (followed pointers c).origin = c.origin := by
  unfold followed
  split <;> exact ⟨rfl, rfl, rfl⟩

namespace Document.Loaded

variable {d : Document} {draft : Draft} (hd : d.Loaded draft)
include hd

/-- The components are the component entries, as far as their names tell. -/
theorem mem_components_iff {kind : ComponentKind} {reference : Option String} {origin : Origin} :
    (∃ c ∈ d.components, c.kind = kind ∧ c.reference = reference ∧ c.origin = origin) ↔
      ∃ e ∈ componentPlaces d.specVersion d.root, e.role = .component kind ∧
        e.node.reference? = reference ∧ e.origin = origin := by
  rw [← mem_componentsOf_iff (v := d.specVersion) [], hd.components, hd.hasRead.components]
  simp [names_followed]

/-- Something is registered at a place that references lead to. -/
theorem objectAt?_of_place {h : List Place} {p : Place} {t : Target}
    (hp : ReadAfter d.specVersion d.root h p) (href : p.reference? = none)
    (ht : p.role.target? (Outline.after h).count = some t) :
    ∃ t, d.pointers.objectAt? p.pointer = some t := by
  obtain ⟨b, horder⟩ := readAfter_iff.1 hp
  rw [hd.pointers_eq, ← Option.ne_none_iff_exists', Ne, ← (Outline.objectAt?_after _ _).1]
  intro hundef
  have hdef := hundef h p b horder rfl
  simp [definition, href, ht] at hdef

/-- References lead to what was built at their pointers. -/
theorem builtAt_iff (pointer : String) :
    d.BuiltAt pointer ↔ ∃ t, d.pointers.objectAt? pointer = some t := by
  constructor
  · rintro (⟨s, hs, x, hx, rfl⟩ | ⟨c, hc, hkind, href, rfl⟩)
    · have hne : s ≠ .components := by
        rintro rfl
        cases hs
      rw [hd.arena_eq hne] at hx
      obtain ⟨i, hi⟩ := Array.mem_iff_getElem?.1 hx
      obtain ⟨h, p, hp, href, hstore, -, hdesc⟩ := hd.place_of_arena hi
      rw [hdesc.originOf hne]
      cases ht : p.role.target? (Outline.after h).count with
      | some t => exact hd.objectAt?_of_place hp href ht
      | none =>
        have hrole : p.role = .ownSchema := by
          revert hs hstore ht
          cases p.role <;> simp only [Role.store?, Role.target?] <;> grind [Store.isAddressed]
        obtain ⟨h', q, rfl, rfl, hq, hself⟩ := hp.exists_owner hrole
        obtain ⟨hqref, hqrole⟩ := role_of_isOwnSchema hself
        change ∃ t, d.pointers.objectAt? q.pointer = some t
        rcases hqrole with hqrole | hqrole <;>
          exact hd.objectAt?_of_place hq hqref (by rw [hqrole]; rfl)
    · obtain ⟨e, he, hrole, hnode, ho⟩ := hd.mem_components_iff.1 ⟨c, hc, rfl, href, rfl⟩
      obtain ⟨ps, qs, hcut⟩ := List.append_of_mem he
      have hheld : e.held.role = .opaqueEntry :=
        (Place.role_held hrole).trans ((ComponentKind.isAddressed_iff _).1 hkind)
      have hat := hd.objectAt?_of_place (ReadAfter.entry hcut)
        ((Place.reference?_held hrole).trans hnode) (by rw [hheld]; rfl)
      rwa [Place.pointer, Place.location_held, Place.location, ho] at hat
  · rintro ⟨t, ht⟩
    obtain ⟨h, p, hp, href, htarget, rfl⟩ := hd.place_of_pointer ht
    by_cases hrole : p.role = .opaqueEntry
    · obtain ⟨ps, e, qs, hcut, -, rfl⟩ := hp.entry_of_opaque hrole
      have he : e ∈ componentPlaces d.specVersion d.root := hcut ▸ List.mem_append_cons_self
      obtain ⟨kind, hkind⟩ := ReadAfter.role_of_mem_componentPlaces he
      obtain ⟨c, hc, rfl, hnode, ho⟩ := hd.mem_components_iff.2
        ⟨e, he, hkind, (Place.reference?_held hkind).symm.trans href, rfl⟩
      refine .inr ⟨c, hc, ?_, hnode, ?_⟩
      · rw [ComponentKind.isAddressed_iff, ← Place.role_held hkind, hrole]
      · rw [ho, Place.pointer, Place.location_held, Place.location]
    · obtain ⟨s, hs, haddressed⟩ : ∃ s, p.role.store? = some s ∧ s.isAddressed = true := by
        revert hrole htarget
        cases p.role <;> simp [Role.target?, Role.store?, Store.isAddressed]
      obtain ⟨x, hx, hdesc⟩ := hd.filled.objects h p hp href s hs
      have hne : s ≠ .components := by
        rintro rfl
        cases haddressed
      exact .inl ⟨s, haddressed, x, Array.mem_of_getElem? hx, by rw [hdesc.originOf hne]; rfl⟩

/-- The reference to follow from a pointer is the last one there. -/
theorem linkAt?_eq (pointer : String) :
    d.pointers.linkAt? pointer = (d.referenceAt? pointer).map Reference.text := by
  rw [hd.pointers_eq, referenceAt?, hd.references, hd.met_eq, ← List.map_reverse, List.find?_map,
    Option.map_map]
  exact Outline.linkAt?_eq (readingOrder d.specVersion d.root) pointer

/-- Nothing is built, and no reference written, outside the document. -/
theorem not_builtAt_of_not_isLocal {text : String} (h : Pointers.isLocal text = false) :
    ¬d.BuiltAt text ∧ d.referenceAt? text = none := by
  obtain ⟨hobject, hlink⟩ :=
    Outline.objectAt?_of_not_isLocal (readingOrder d.specVersion d.root) h
  rw [← hd.pointers_eq] at hobject
  constructor
  · rw [hd.builtAt_iff, hobject]
    simp
  · rw [← Option.map_eq_none_iff (f := Reference.text), ← hd.linkAt?_eq, hd.pointers_eq,
      Option.eq_none_iff_forall_ne_some]
    intro next hnext
    exact hlink next ((Outline.linkAt?_after _ _ _).2 hnext)

/-- A text leads nowhere if there is nothing at it, and the reference there leads nowhere. -/
theorem resolveWithin_succ_eq_none_iff (hops : Nat) (text : String) :
    d.pointers.resolveWithin (hops + 1) text = none ↔ ¬d.BuiltAt text ∧
      ∀ r, d.referenceAt? text = some r → d.pointers.resolveWithin hops r.text = none := by
  rw [Pointers.resolveWithin]
  cases hlocal : Pointers.isLocal text with
  | false =>
    obtain ⟨hbuilt, href⟩ := hd.not_builtAt_of_not_isLocal hlocal
    simp [hbuilt, href]
  | true =>
    rw [hd.builtAt_iff, hd.linkAt?_eq]
    cases d.pointers.objectAt? text <;> cases d.referenceAt? text <;> simp

/-- Following a text gives nothing exactly if the chain is too long or ends at nothing. -/
theorem resolveWithin_eq_none_iff (hops : Nat) (text : String) :
    d.pointers.resolveWithin hops text = none ↔ (∃ last, d.LeadsOn hops text last) ∨
      ∃ n < hops, ∃ last, d.LeadsOn n text last ∧ ¬d.BuiltAt last ∧ d.referenceAt? last = none := by
  induction hops generalizing text with
  | zero => exact ⟨fun _ => .inl ⟨text, .stop⟩, fun _ => rfl⟩
  | succ hops ih =>
    rw [hd.resolveWithin_succ_eq_none_iff]
    constructor
    · rintro ⟨hbuilt, hnext⟩
      cases href : d.referenceAt? text with
      | none => exact .inr ⟨0, Nat.succ_pos _, text, .stop, hbuilt, href⟩
      | some r =>
        rcases (ih r.text).1 (hnext r href) with ⟨last, hlast⟩ | ⟨n, hn, last, hlast, hend⟩
        · exact .inl ⟨last, .on hbuilt href hlast⟩
        · exact .inr ⟨n + 1, Nat.succ_lt_succ hn, last, .on hbuilt href hlast, hend⟩
    · rintro (⟨last, hlast⟩ | ⟨n, hn, last, hlast, hend⟩)
      · cases hlast with
        | on hbuilt href hrest =>
          refine ⟨hbuilt, fun r hr => (ih r.text).2 (.inl ⟨last, ?_⟩)⟩
          rwa [← Option.some.inj (href.symm.trans hr)]
      · cases hlast with
        | stop => exact ⟨hend.1, fun r hr => by simp [hend.2] at hr⟩
        | on hbuilt href hrest =>
          refine ⟨hbuilt, fun r hr => (ih r.text).2 (.inr ⟨_, Nat.lt_of_succ_lt_succ hn, last, ?_,
            hend⟩)⟩
          rwa [← Option.some.inj (href.symm.trans hr)]

/-- A component entry that is no reference was built, unless it is a request body or a response. -/
theorem builtAt_of_component {c : Component} (hc : c ∈ d.components) (href : c.reference = none)
    (hkind : c.kind ≠ .requestBodies ∧ c.kind ≠ .responses) :
    d.BuiltAt c.origin.location.pointer := by
  obtain ⟨e, he, hrole, hnode, ho⟩ := hd.mem_components_iff.1 ⟨c, hc, rfl, href, rfl⟩
  obtain ⟨ps, qs, hcut⟩ := List.append_of_mem he
  obtain ⟨t, ht⟩ : ∃ t, e.held.role.target?
      (Outline.after (ps.flatMap (Place.entryOrder d.specVersion))).count = some t := by
    rw [Place.role_held hrole]
    cases hk : c.kind <;> simp_all [ComponentKind.role, Role.target?]
  have hat := hd.objectAt?_of_place (ReadAfter.entry hcut)
    ((Place.reference?_held hrole).trans hnode) ht
  rwa [Place.pointer, Place.location_held, Place.location, ho, ← hd.builtAt_iff] at hat

end Document.Loaded

namespace Document

/-- **When a reference is left without a target.** That is exactly when its text leads nowhere. So a
reference to a component entry that is not a reference itself has the entry as its target, and the
locator steps from all places in the entry to the same places below the reference, if it stands
outside; but for request bodies and responses, which references do not lead to. -/
theorem target_eq_none_iff (root : Node) (d : Document) (h : ofNode root = .ok d) :
    (∀ r ∈ d.references.all, r.target = none ↔ d.DeadEnd r.text) ∧
    ∀ c ∈ d.components, c.reference = none → c.kind ≠ .requestBodies ∧ c.kind ≠ .responses →
      ∃ t, d.objectAt? c.origin.location = some t ∧
        ∀ r ∈ d.references.all, r.text = c.origin.location.pointer →
          r.target = some t ∧
          ∀ l : Location, l.isWithin c.origin.location = true →
            r.origin.location.isWithin c.origin.location = false →
            ∃ m, l.rebased? c.origin.location r.origin.location = some m ∧ d.Step l r m ∧
              m.path ∈ d.equivalents l := by
  obtain ⟨rfl, draft, hd⟩ := loaded_of_ofNode h
  have htarget : ∀ r ∈ d.references.all, r.target = d.resolve r.text := by
    intro r hr
    rw [hd.references] at hr
    obtain ⟨x, -, rfl⟩ := List.mem_map.1 hr
    rw [resolve, hd.pointers]
  constructor
  · intro r hr
    rw [htarget r hr]
    exact hd.resolveWithin_eq_none_iff Pointers.maxHops r.text
  · intro c hc href hkind
    obtain ⟨t, ht⟩ := (hd.builtAt_iff _).1 (hd.builtAt_of_component hc href hkind)
    refine ⟨t, ht, fun r hr htext => ?_⟩
    have hat : r.target = some t := by
      have hhops : Pointers.maxHops = 9 + 1 := rfl
      rw [htarget r hr, htext, resolve, Pointers.resolve, hhops, Pointers.resolveWithin]
      simp only [Pointers.isLocal_pointer, ht, ↓reduceIte]
    refine ⟨hat, fun l hl hout => ?_⟩
    obtain ⟨rest, hrest⟩ := List.isPrefixOf_iff_prefix.1 hl
    have hrebased : l.rebased? c.origin.location r.origin.location =
        some ⟨r.origin.location.segments ++ rest⟩ :=
      Location.rebased?_eq_some.2 ⟨rest, hrest.symm, rfl⟩
    have hstep : d.Step l r ⟨r.origin.location.segments ++ rest⟩ :=
      ⟨c.origin.location, t, ht, hr, hat, hout, hrebased⟩
    exact ⟨_, hrebased, hstep, [r], _, .cons hstep .nil, by simp,
      (by decide : 1 ≤ Pointers.maxHops), by simp, rfl⟩

/-- A document with an operation that refers to a request body and to a parameter. -/
def pointing : Node :=
  .table 1 [("openapi", .word "3.1.0" 1),
    ("paths", .table 2 [("/pets", .table 3 [("post", .table 4 [
      ("parameters", .sequence [.pointTo 5 "#/components/parameters/Limit"] ⟨⟨5, 1⟩, ⟨5, 1⟩⟩),
      ("requestBody", .pointTo 6 "#/components/requestBodies/Pet")])])]),
    ("components", .table 7 [
      ("parameters", .table 8 [("Limit", .table 9 [])]),
      ("requestBodies", .table 10 [("Pet", .table 11 [])])])]

theorem target_eq_none_iff_pointing : ∃ d, ofNode pointing = .ok d ∧
    (∃ r ∈ d.references.all, r.target = none ∧ d.DeadEnd r.text) ∧
    ∃ r ∈ d.references.all, r.text = "#/components/parameters/Limit" ∧
      ∃ m, d.Step ((((Location.root.field "components").field "parameters").key "Limit").field "in")
        r m := by
  set limit := ((Location.root.field "components").field "parameters").key "Limit" with hlimit
  have hrun : ((ofNode pointing).toOption.bind fun d => do
      let c ← d.components[0]?
      let r ← d.references.all[0]?
      let s ← d.references.all[1]?
      return decide (c.reference = none ∧ c.kind = .parameters ∧ c.origin.location = limit ∧
        r.text = "#/components/parameters/Limit" ∧ c.origin.location.pointer = r.text ∧
        r.origin.location.isWithin limit = false ∧ s.target = none)) = some true := by
    decide +kernel
  obtain ⟨d, hd, he⟩ := ofNode_of_toOption hrun
  obtain ⟨c, hc, he⟩ := Option.bind_eq_some_iff.1 he
  obtain ⟨r, hr, he⟩ := Option.bind_eq_some_iff.1 he
  obtain ⟨s, hs, he⟩ := Option.bind_eq_some_iff.1 he
  obtain ⟨href, hkind, hat, htext, hpointer, hout, hnone⟩ :=
    of_decide_eq_true (Option.some.inj he)
  have hr := List.mem_of_getElem? hr
  have hs := List.mem_of_getElem? hs
  obtain ⟨hdead, hcomponent⟩ := target_eq_none_iff pointing d hd
  obtain ⟨t, -, hreferences⟩ :=
    hcomponent c (Array.mem_of_getElem? hc) href (by rw [hkind]; decide)
  obtain ⟨-, hstep⟩ := hreferences r hr hpointer.symm
  obtain ⟨m, -, hm, -⟩ := hstep (limit.field "in") (by rw [hat]; decide +kernel) (by rw [hat, hout])
  exact ⟨d, hd, ⟨s, hs, hnone, (hdead s hs).1 hnone⟩, r, hr, htext, m, hm⟩

/-- In `pointing` a reference to a request body has no target, though the body was built at just the
pointer that the reference names; the locator does not list the path by way of it. -/
theorem exists_component_without_target : ∃ d, ofNode pointing = .ok d ∧
    ∃ c ∈ d.components, c.kind = .requestBodies ∧ c.reference = none ∧
      (∃ b ∈ d.requestBodies, b.origin = c.origin) ∧
      (∃ r ∈ d.references.all, Pointers.isLocal r.text = true ∧
        r.text = c.origin.location.pointer ∧ r.target = none ∧
        r.origin.location.isWithin c.origin.location = false) ∧
      (d.locate (c.origin.location.field "content")).paths =
        ["$.components.requestBodies['Pet'].content"] := by
  have hrun : ((ofNode pointing).toOption.bind fun d => do
      let c ← d.components[1]?
      let b ← d.requestBodies[0]?
      let r ← d.references.all[1]?
      return decide (c.kind = .requestBodies ∧ c.reference = none ∧ b.origin = c.origin ∧
        (Pointers.isLocal r.text = true ∧ r.text = c.origin.location.pointer ∧ r.target = none ∧
          r.origin.location.isWithin c.origin.location = false) ∧
        (d.locate (c.origin.location.field "content")).paths =
          ["$.components.requestBodies['Pet'].content"])) = some true := by
    decide +kernel
  obtain ⟨d, hd, he⟩ := ofNode_of_toOption hrun
  obtain ⟨c, hc, he⟩ := Option.bind_eq_some_iff.1 he
  obtain ⟨b, hb, he⟩ := Option.bind_eq_some_iff.1 he
  obtain ⟨r, hr, he⟩ := Option.bind_eq_some_iff.1 he
  obtain ⟨hkind, href, horigin, hreference, hpaths⟩ := of_decide_eq_true (Option.some.inj he)
  exact ⟨d, hd, c, Array.mem_of_getElem? hc, hkind, href, ⟨b, Array.mem_of_getElem? hb, horigin⟩,
    ⟨r, List.mem_of_getElem? hr, hreference⟩, hpaths⟩

end Document

end ApiLint
