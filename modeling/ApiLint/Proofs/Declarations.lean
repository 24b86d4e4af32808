import ApiLint.Proofs.ParameterReports
import ApiLint.Proofs.Slots
import ApiLint.Proofs.VariableTypes

/-!
# What path items declare

The types of the variables of a path item go by what its parameters declare, in turn
(`Route.types_eq_foldl`). What a parameter declares can be read off its place and what references
lead to: off its node, or else from the parameter that its reference leads to
(`Route.declarationAt?`). So if the lists of parameters hold what the finished document leads to
(`Document.ParametersSettled`), a path item has the types that can be read off its place
(`Document.Loaded.types_eq_typesAt`). The lists do so if no reference leads below the paths, which
are read last (`Document.Loaded.parametersSettled`).
-/

set_option autoImplicit false

namespace ApiLint

open Yaml (Node)

namespace Route

/-! ## Declarations -/

/-- What a parameter says of a variable. -/
structure Declaration where
  name : String
  /-- Where the parameter is. -/
  place : Option String
  type : Option String

def declaration? (d : Document) (id : ParameterId) : Option Declaration :=
  (d.parameter? id).map fun p => ⟨p.name, p.place, variableType? d p⟩

/-- Notes what is declared of a variable of the path, unless it has a type already. -/
def note (found : Types) (x : Declaration) : Types :=
  if x.place == some "path" && (found.lookup x.name).isNone then
    match x.type with
    | some type => found ++ [(x.name, type)]
    | none => found
  else found

theorem noteType_eq (d : Document) (found : Types) (id : ParameterId) :
    noteType d found id = match declaration? d id with
      | some x => note found x
      | none => found := by
  rw [noteType, declaration?]
  cases d.parameter? id <;> rfl

/-- The declarations of a path item are noted in turn. -/
theorem types_eq_foldl (d : Document) (item : PathItem) :
    types d item = ((declared item).filterMap (declaration? d)).foldl note [] := by
  rw [types_eq, List.foldl_filterMap]
  congr 1
  funext found id
  rw [noteType_eq]
  cases declaration? d id <;> rfl

/-! ## Reading them off places -/

/-- The first type that a node has as a schema. -/
def firstType? (n : Node) : Option String := (((n.get? "type").map Node.texts).getD []).head?

section
variable (d : Document)

/-- The type of a schema. -/
def targetType? : Target → Option String
  | .schema id => (d.schema? id).bind (·.types.head?)
  | _ => none

/-- The type of the schema that a reference leads to. -/
def referredType? (text : String) : Option String := (d.resolve text).bind (targetType? d)

/-- The type of the schema that a slot holds or leads to. -/
def slotType? (p : Place) : Option String :=
  match p.reference? with
  | some text => referredType? d text
  | none => firstType? p.node

/-- What a parameter declares that is no reference. -/
def ownDeclaration (p : Place) : Declaration where
  name := (p.node.textAt? "name").getD ""
  place := p.node.textAt? "in"
  type :=
    if p.isOwnSchema d.specVersion then firstType? p.node
    else (p.placesOf .schema).head?.bind (slotType? d)

/-- What a parameter declares. -/
def targetDeclaration? (t : Target) : Option Declaration := t.parameter?.bind (declaration? d)

/-- What the parameter declares that a reference leads to. -/
def referredDeclaration? (text : String) : Option Declaration :=
  (d.resolve text).bind (targetDeclaration? d)

/-- What is declared at a slot for a parameter. -/
def declarationAt? (p : Place) : Option Declaration :=
  match p.reference? with
  | some text => referredDeclaration? d text
  | none => some (ownDeclaration d p)

/-- The types of the variables of the path item at a place. -/
def typesAt (p : Place) : Types :=
  ((p.placesOf .parameters ++ p.operations.flatMap (·.placesOf .parameters)).filterMap
    (declarationAt? d)).foldl note []

end

end Route

open Route

/-! ## Lists of parameters -/

theorem map_snd_moments (v : SpecVersion) (h qs : List Place) :
    (moments v h qs).map Prod.snd = qs := by
  induction qs generalizing h with
  | nil => rfl
  | cons q qs ih => rw [moments, List.map_cons, ih]

/-- What is found at places side by side, if it does not matter what was read before them. -/
theorem filterMap_moments {α : Type} {v : SpecVersion} {h qs : List Place}
    {f : List Place × Place → Option α} {g : Place → Option α}
    (hf : ∀ h' q, (h', q) ∈ moments v h qs → f (h', q) = g q) :
    (moments v h qs).filterMap f = qs.filterMap g := by
  have hg : (moments v h qs).filterMap f = (moments v h qs).filterMap (g ∘ Prod.snd) :=
    List.filterMap_congr fun x hx => hf x.1 x.2 hx
  rw [hg, ← List.filterMap_map, map_snd_moments]

/-- The parameters of a path item or an operation are read first. -/
theorem Place.parts_of_lists {v : SpecVersion} {p : Place}
    (hrole : p.role = .pathItem ∨ p.role = .operation) :
    p.own v = [] ∧ ∃ others, p.parts v = [] ++ p.placesOf .parameters ++ others := by
  have href : p.reference? = none := by
    rcases hrole with hrole | hrole <;> simp [Place.reference?, Role.isSlot, hrole]
  constructor
  · rcases hrole with hrole | hrole <;>
      exact Follows.own_eq_nil (by simp [hrole]) (by simp [hrole])
  · rcases hrole with hrole | hrole <;>
      simp [Place.parts, href, hrole, Place.members, Place.placesOf]

namespace Document

/-- The lists of parameters hold what the finished document leads to: of each reference in the list
of a path item or an operation, the parameter that it leads to in the end, if any. -/
def ParametersSettled (d : Document) : Prop :=
  ∀ h p h' q text, ReadAfter d.specVersion d.root h p →
    p.role = .pathItem ∨ p.role = .operation →
    (h', q) ∈ moments d.specVersion (h ++ [p]) (p.placesOf .parameters) →
    q.reference? = some text → heldParameter h' q = (d.resolve text).bind Target.parameter?

namespace Loaded

variable {d : Document} {draft : Draft} (hd : d.Loaded draft)
include hd

/-- A schema has the types of its node. -/
theorem types_of_schema {h : List Place} {p : Place} (hp : ReadAfter d.specVersion d.root h p)
    (href : p.reference? = none) (hstore : p.role.store? = some .schemas) :
    (d.schema? ⟨(Outline.after h).count .schemas⟩).bind (·.types.head?) = firstType? p.node := by
  obtain ⟨b, horder⟩ := readAfter_iff.1 hp
  obtain ⟨x, hx, -, hread, -⟩ := hd.built h p b horder href .schemas hstore
  have hschema : d.schema? ⟨(Outline.after h).count .schemas⟩ = some x := by
    rw [Document.schema?, hd.schemas]
    exact hx
  rw [hschema, Option.bind_some, hread]
  rfl

/-- A slot for a schema leads to the type that is read off its place. -/
theorem type_of_slot {h : List Place} {p : Place} (hp : ReadAfter d.specVersion d.root h p)
    (hrole : p.role = .schema) :
    (d.slotSchema? ((Outline.after h).slot p)).bind (·.types.head?) = slotType? d p := by
  unfold Document.slotSchema? Document.slotId? Outline.slot slotType?
  cases href : p.reference? with
  | some text =>
    dsimp only
    rw [referredType?]
    cases d.resolve text with
    | none => rfl
    | some t => cases t <;> rfl
  | none => exact hd.types_of_schema hp href (by rw [hrole]; rfl)

/-- The schema of a parameter has the type that is read off its place. -/
theorem type_of_schemaOf {h : List Place} {p : Place} (hp : ReadAfter d.specVersion d.root h p)
    (href : p.reference? = none) (hrole : p.role = .parameter) :
    ((p.schemaOf d.specVersion h).bind d.slotSchema?).bind (·.types.head?) =
      (ownDeclaration d p).type := by
  unfold Place.schemaOf ownDeclaration
  cases hself : p.isOwnSchema d.specVersion with
  | true => exact hd.types_of_schema (p := { p with role := .ownSchema }) (hp.own hself) rfl rfl
  | false =>
    have hparts : ∃ others, p.parts d.specVersion = p.placesOf .schema ++ others := by
      simp [Place.parts, href, hrole, Place.members, hself, Place.placesOf]
    obtain ⟨others, hparts⟩ := hparts
    simp only [Bool.false_eq_true, ↓reduceIte, Place.schemaSlot?, slotsOf]
    cases hplaces : p.placesOf .schema with
    | nil => rfl
    | cons s rest =>
      have hfirst : p.parts d.specVersion = [] ++ s :: (rest ++ others) := by
        rw [hparts, hplaces]
        rfl
      have hs : ReadAfter d.specVersion d.root (p.upTo d.specVersion h []) s := hp.part hfirst
      have hsrole : s.role = .schema :=
        Follows.role_of_mem_places (hplaces ▸ List.mem_cons_self : s ∈ p.placesOf .schema)
      exact hd.type_of_slot hs hsrole

/-- A parameter that is no reference declares what is read off its place. -/
theorem declaration_of_parameter {h : List Place} {p : Place}
    (hp : ReadAfter d.specVersion d.root h p) (href : p.reference? = none)
    (hrole : p.role = .parameter) :
    declaration? d ⟨(Outline.after h).count .parameters⟩ = some (ownDeclaration d p) := by
  obtain ⟨b, horder⟩ := readAfter_iff.1 hp
  obtain ⟨x, hx, ⟨-, -, hschema, -⟩, ⟨hname, hplace, -⟩, -⟩ :=
    hd.built h p b horder href .parameters (by rw [hrole]; rfl)
  have hparameter : d.parameter? ⟨(Outline.after h).count .parameters⟩ = some x := by
    rw [Document.parameter?, hd.parameters]
    exact hx
  have htype : variableType? d x = (ownDeclaration d p).type := by
    rw [← hd.type_of_schemaOf hp href hrole, ← hschema, variableType?]
    cases x.schema <;> rfl
  rw [declaration?, hparameter, Option.map_some, htype, hname, hplace]
  rfl

/-- What is said of the object that a place has become. -/
theorem of_target {h : List Place} {p : Place} (hp : ReadAfter d.specVersion d.root h p)
    (href : p.reference? = none) {t : Target}
    (ht : p.role.target? (Outline.after h).count = some t) :
    targetType? d t = (if p.role = .schema then firstType? p.node else none) ∧
      targetDeclaration? d t =
        if p.role = .parameter then some (ownDeclaration d p) else none := by
  cases hrole : p.role with
  | schema =>
    rw [hrole] at ht
    obtain rfl := Option.some.inj ht
    exact ⟨hd.types_of_schema hp href (by rw [hrole]; rfl), rfl⟩
  | parameter =>
    rw [hrole] at ht
    obtain rfl := Option.some.inj ht
    exact ⟨rfl, hd.declaration_of_parameter hp href hrole⟩
  | _ =>
    rw [hrole] at ht
    cases ht
    all_goals exact ⟨rfl, rfl⟩

/-- The templates of a document are the names of its path items. -/
theorem templates : d.paths.toList.map (·.template) = (pathPlaces d.root).map Place.name := by
  let before := (componentPlaces d.specVersion d.root).flatMap (Place.entryOrder d.specVersion)
  have hsnd : (moments d.specVersion before (pathPlaces d.root)).map Prod.snd = pathPlaces d.root :=
    map_snd_moments ..
  rw [hd.paths, List.map_map]
  conv_rhs => rw [← hsnd, List.map_map]
  rfl

variable (hsettled : d.ParametersSettled)
include hsettled

/-- A list of parameters declares what is read off its places. -/
theorem declarations_of_list {h : List Place} {p : Place} (hp : ReadAfter d.specVersion d.root h p)
    (hrole : p.role = .pathItem ∨ p.role = .operation) :
    ((moments d.specVersion (h ++ [p]) (p.placesOf .parameters)).filterMap
        fun (h', q) => heldParameter h' q).filterMap (declaration? d) =
      (p.placesOf .parameters).filterMap (declarationAt? d) := by
  rw [List.filterMap_filterMap]
  refine filterMap_moments fun h' q hq => ?_
  show (heldParameter h' q).bind (declaration? d) = declarationAt? d q
  cases href : q.reference? with
  | some text =>
    rw [hsettled h p h' q text hp hrole hq href, declarationAt?, href, Option.bind_assoc]
    rfl
  | none =>
    obtain ⟨hown, others, hparts⟩ := Place.parts_of_lists (v := d.specVersion) hrole
    have hread : ReadAfter d.specVersion d.root h' q :=
      hp.of_mem_moments hparts (by simpa [hown] using hq)
    have hplaces : q ∈ p.placesOf .parameters := by
      rw [← map_snd_moments d.specVersion (h ++ [p]) (p.placesOf .parameters)]
      exact List.mem_map_of_mem hq
    have hheld : heldParameter h' q = some ⟨(Outline.after h').count .parameters⟩ := by
      rw [heldParameter, heldAs, href]
    rw [hheld, Option.bind_some, declarationAt?, href]
    exact hd.declaration_of_parameter hread href (Follows.role_of_mem_places hplaces)

/-- **The types of a path item** can be read off its place. -/
theorem types_eq_typesAt {h : List Place} {p : Place} (hp : (h, p) ∈ moments d.specVersion
      ((componentPlaces d.specVersion d.root).flatMap (Place.entryOrder d.specVersion))
      (pathPlaces d.root)) (c : Array Component) :
    types d (p.pathItemOf d.specVersion c h) = typesAt d p := by
  obtain ⟨hread, hrole⟩ := ReadAfter.of_mem_paths hp
  have hlist : (p.pathItemOf d.specVersion c h).parameters.filterMap (declaration? d) =
      (p.placesOf .parameters).filterMap (declarationAt? d) :=
    hd.declarations_of_list hsettled hread (.inl hrole)
  let ms := moments d.specVersion
    (h ++ [p] ++ (p.placesOf .parameters).flatMap (Place.order d.specVersion)) p.operations
  have hoperations : ∀ x ∈ ms,
      (x.2.operationOf d.specVersion c x.1).parameters.filterMap (declaration? d) =
        (x.2.placesOf .parameters).filterMap (declarationAt? d) := by
    intro x hx
    have hmem : x.2 ∈ p.operations :=
      map_snd_moments d.specVersion _ p.operations ▸ List.mem_map_of_mem hx
    exact hd.declarations_of_list hsettled (hread.of_mem_operations hrole hx)
      (.inr (Place.role_of_mem_operations hmem))
  have hlists :
      ((p.pathItemOf d.specVersion c h).operations.flatMap (·.parameters)).filterMap
          (declaration? d) =
        (p.operations.flatMap (·.placesOf .parameters)).filterMap (declarationAt? d) := by
    have hsnd : ms.map Prod.snd = p.operations := map_snd_moments ..
    rw [List.filterMap_flatMap, List.filterMap_flatMap, ← hsnd, Place.pathItemOf, List.flatMap_map,
      List.flatMap_map]
    exact List.flatMap_congr hoperations
  rw [types_eq_foldl, typesAt, declared, List.filterMap_append, List.filterMap_append, hlist,
    hlists]

/-- What counts of the path items of a document can be read off their places. -/
theorem signatures : d.paths.toList.map (signature d) =
    (pathPlaces d.root).map fun p => (p.name, typesAt d p) := by
  let ms := moments d.specVersion ((componentPlaces d.specVersion d.root).flatMap
    (Place.entryOrder d.specVersion)) (pathPlaces d.root)
  have hitems : ∀ x ∈ ms, signature d (x.2.pathItemOf d.specVersion draft.components x.1) =
      (x.2.name, typesAt d x.2) := by
    intro x hx
    rw [signature, hd.types_eq_typesAt hsettled hx]
    rfl
  have hsnd : ms.map Prod.snd = pathPlaces d.root := map_snd_moments ..
  rw [hd.paths, List.map_map]
  calc ms.map (fun x => signature d (x.2.pathItemOf d.specVersion draft.components x.1))
      = ms.map fun x => (x.2.name, typesAt d x.2) := List.map_congr_left hitems
    _ = (ms.map Prod.snd).map fun p => (p.name, typesAt d p) := by
      rw [List.map_map]
      rfl
    _ = (pathPlaces d.root).map fun p => (p.name, typesAt d p) := by rw [hsnd]

end Loaded

end Document

/-! ## References that stay out of the paths -/

theorem Leads.mem_route {α : Type} {sort : (Store → Nat) → Role → Option α} {ps : List Place}
    {route : List String} {text : String} {a : α} (h : Leads sort ps route text a) :
    ∀ r ∈ route, ∃ p ∈ ps, p.reference? = some r := by
  induction h with
  | here _ => exact nofun
  | next _ hrefers _ ih =>
    obtain ⟨front, p, back, hcut, -, href, -⟩ := hrefers
    exact List.forall_mem_cons.2 ⟨⟨p, hcut ▸ List.mem_append_cons_self, href⟩, ih⟩

/-- **What is read later where no reference leads** is not found by any. -/
theorem finds_append_of_unreferred {ps b : List Place} {text : String} {t : Target}
    (hb : ∀ p ∈ ps ++ b, ∀ text, p.reference? = some text → ∀ x ∈ b, x.pointer ≠ text) {q : Place}
    (hq : q ∈ ps ++ b) (href : q.reference? = some text) :
    Finds Role.target? (ps ++ b) text t ↔ Finds Role.target? ps text t := by
  have hoff : ∀ ps', (∀ p ∈ ps', p ∈ ps ++ b) → ∀ {route}, Leads Role.target? ps' route text t →
      ∀ x ∈ b, x.pointer ∉ text :: route := by
    intro ps' hps route hroute x hx hmem
    rcases List.mem_cons.1 hmem with he | hmem
    · exact hb q hq text href x hx he
    · obtain ⟨p, hp, hpref⟩ := hroute.mem_route _ hmem
      exact hb p (hps p hp) _ hpref x hx rfl
  constructor
  · rintro ⟨route, hlen, hroute⟩
    exact ⟨route, hlen, (leads_append (hoff _ (fun _ h => h) hroute)).1 hroute⟩
  · rintro ⟨route, hlen, hroute⟩
    have hps : ∀ p ∈ ps, p ∈ ps ++ b := fun p hp => List.mem_append_left b hp
    exact ⟨route, hlen, (leads_append (hoff ps hps hroute)).2 hroute⟩

/-- All that is read with a path item has a pointer below the paths. -/
theorem startsWith_of_mem_paths {v : SpecVersion} {root : Node} {p : Place}
    (h : p ∈ (pathPlaces root).flatMap (Place.order v)) :
    p.pointer.startsWith "#/paths/" = true := by
  obtain ⟨e, he, hp⟩ := List.mem_flatMap.1 h
  obtain ⟨rest, hrest⟩ := Place.texts_of_mem_order hp
  obtain ⟨x, -, rfl⟩ := List.mem_map.1 (List.mem_filter.1 he).1
  let l : Location := ⟨.field "paths" :: .key x.1 :: rest.map Segment.key⟩
  have hl : p.pointer = l.pointer := by
    refine Location.pointer_eq_iff.2 ?_
    rw [← hrest]
    simp [l, Place.location, Origin.ofEntry, Location.texts, Location.root, Location.field,
      Location.key, Location.child, Function.comp_def, Segment.text]
  rw [hl]
  refine String.startsWith_string_iff.2 ⟨x.1.toList.flatMap Segment.escapePointer ++
    (rest.map Segment.key).flatMap Segment.pointer, ?_⟩
  simp [l, Location.pointer, Segment.pointer, Segment.text, Segment.escapePointer]

theorem prefix_of_mem_moments {v : SpecVersion} {h qs h' : List Place} {q : Place}
    (hq : (h', q) ∈ moments v h qs) : h <+: h' := by
  obtain ⟨ps, rs, -, rfl⟩ := mem_moments hq
  exact List.prefix_append ..

/-- Path items and operations are read after all components. -/
theorem ReadAfter.prefix_of_lists {v : SpecVersion} {root : Node} {h : List Place} {p : Place}
    (hp : ReadAfter v root h p) (hrole : p.role = .pathItem ∨ p.role = .operation) :
    (componentPlaces v root).flatMap (Place.entryOrder v) <+: h := by
  have hitem : ∀ {h p}, ReadAfter v root h p → p.role = .pathItem →
      (componentPlaces v root).flatMap (Place.entryOrder v) <+: h := by
    intro h p hp hrole
    have hsite := hp.site
    rw [hrole] at hsite
    exact prefix_of_mem_moments hsite
  rcases hrole with hrole | hrole
  · exact hitem hp hrole
  · obtain ⟨h', q, hq, hqrole, hmoment⟩ := hp.of_operation hrole
    have hbefore := prefix_of_mem_moments hmoment
    rw [List.append_assoc] at hbefore
    exact (hitem hq hqrole).trans ((List.prefix_append ..).trans hbefore)

namespace Document.Loaded

variable {d : Document} {draft : Draft} (hd : d.Loaded draft)
include hd

/-- The references of a document are those read. -/
theorem mem_references_iff {text : String} : (∃ r ∈ d.references.all, r.text = text) ↔
    ∃ p ∈ readingOrder d.specVersion d.root, p.reference? = some text := by
  rw [hd.references, hd.met_eq, Outline.met_after]
  simp [Option.map_eq_some_iff]

/-- **References that stay out of the paths** lead where they lead in the end already when they are
met in a list of parameters. -/
theorem parametersSettled
    (hout : ∀ r ∈ d.references.all, r.text.startsWith "#/paths/" = false) :
    d.ParametersSettled := by
  intro h p h' q text hp hrole hq href
  obtain ⟨hown, others, hparts⟩ := Place.parts_of_lists (v := d.specVersion) hrole
  have hread : ReadAfter d.specVersion d.root h' q :=
    hp.of_mem_moments hparts (by simpa [hown] using hq)
  obtain ⟨b, horder⟩ := readAfter_iff.1 hread
  have hcut : readingOrder d.specVersion d.root = (h' ++ [q]) ++ b := by simpa using horder
  -- what is read later stands below the paths, and no reference leads there
  have hlater : ∀ x ∈ b, x.pointer.startsWith "#/paths/" = true := by
    intro x hx
    have hprefix := (hp.prefix_of_lists hrole).trans
      ((List.prefix_append ..).trans (prefix_of_mem_moments hq))
    obtain ⟨e, rfl⟩ := hprefix
    rw [readingOrder, List.append_assoc, List.append_cancel_left_eq] at horder
    have hpaths : x ∈ (pathPlaces d.root).flatMap (Place.order d.specVersion) := by
      rw [horder]
      exact List.mem_append_right _ (.tail _ hx)
    exact startsWith_of_mem_paths hpaths
  have htext : ∀ p ∈ readingOrder d.specVersion d.root, ∀ text, p.reference? = some text →
      ∀ x ∈ b, x.pointer ≠ text := by
    intro p hp text href x hx he
    obtain ⟨r, hr, rfl⟩ := hd.mem_references_iff.2 ⟨p, hp, href⟩
    have hstart := hlater x hx
    rw [he, hout r hr] at hstart
    cases hstart
  have hq : q ∈ readingOrder d.specVersion d.root := horder ▸ List.mem_append_cons_self
  rw [hcut] at htext hq
  ext id
  rw [heldParameter_eq_some href, ← finds_append_of_unreferred htext hq href, ← hcut,
    ← Outline.resolve_after, ← hd.pointers_eq, Option.bind_eq_some_iff]
  simp only [Target.parameter?_eq_some, exists_eq_right]
  rfl

end Document.Loaded

end ApiLint
