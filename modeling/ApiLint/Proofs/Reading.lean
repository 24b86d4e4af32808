import ApiLint.Proofs.Lists
import ApiLint.Proofs.Nodes

/-!
# The order in which a document is read

A `Place` is a node together with what it is read as; `Place.parts` are the places directly below
it, from a table of the members that each role has. `readingOrder` lists all places of a document:
the entries of its components, then its path items, each before what stands below it.

Reading is a matter of the places read so far. `Outline.after` is what they leave behind as far as
later places depend on it: the objects and references at their pointers, and how many objects there
are of each sort. `moments` pairs places with all that is read before them, and `Outline.slot`,
`heldAs` and `heldByComponent` are what a slot then holds.
-/

set_option autoImplicit false

namespace ApiLint

open Yaml (Node)

/-! ## Places -/

/-- What a node is read as. -/
inductive Role where
  | schema
  /-- A parameter or header of version 2.0 read as a schema. -/
  | ownSchema
  | parameter
  | header
  | mediaType
  | namedExample
  | requestBody
  | response
  /-- What a component entry of a kind that is not looked into holds. -/
  | opaqueEntry
  /-- A component entry that holds what was read last. -/
  | component (kind : ComponentKind)
  | operation
  | pathItem
  deriving DecidableEq

/-- Whether a reference may stand in place of the object. -/
def Role.isSlot : Role → Bool
  | .schema | .parameter | .header | .namedExample | .requestBody | .response
  | .opaqueEntry => true
  | .ownSchema | .mediaType | .component _ | .operation | .pathItem => false

structure Place where
  role : Role
  /-- The key the node is stored under; of items and fixed fields nothing. -/
  name : String
  node : Node
  origin : Origin

namespace Place

def location (p : Place) : Location := p.origin.location

def pointer (p : Place) : String := p.location.pointer

/-- The reference written at a place. -/
def reference? (p : Place) : Option String :=
  if p.role.isSlot then p.node.reference? else none

end Place

/-! ## The members of an object -/

/-- How a member holds places: as its value, its value if that is a mapping, the entries of its
value, the items of its value, or those items that are mappings. -/
inductive Shape where
  | value
  | mapping
  | entries
  | items
  | mappings

structure Member where
  name : String
  shape : Shape
  role : Role

/-- The places under a member of the node at a location. -/
def Member.places (m : Member) (node : Node) (l : Location) : List Place :=
  let atItem := fun ((value, i) : Node × Nat) =>
    Place.mk m.role "" value (Origin.ofItem ((l.field m.name).index i) value)
  let atEntry := fun ((key, value) : Node × Node) =>
    Place.mk m.role "" value (Origin.ofEntry (l.field m.name) key value)
  let items := ((node.itemsAt? m.name).getD []).zipIdx
  let entries := Option.toList <| node.entry? m.name
  match m.shape with
  | .value => entries.map atEntry
  | .mapping => (entries.filter fun (_, value) => value.isMapping).map atEntry
  | .entries =>
    (((node.get? m.name).map Node.fields).getD []).map fun (name, key, value) =>
      ⟨m.role, name, value, Origin.ofEntry ((l.field m.name).key name) key value⟩
  | .items => items.map atItem
  | .mappings => (items.filter fun (n, _) => n.isMapping).map atItem

/-- A place stands under a member of the node at a location: as its value, as an entry of its value,
or as an item of its value. -/
inductive Member.Holds (m : Member) (node : Node) (l : Location) : Place → Prop where
  | value {key value : Node} (h : node.entry? m.name = some (key, value)) :
    Holds m node l ⟨m.role, "", value, Origin.ofEntry (l.field m.name) key value⟩
  | entry {map key value : Node} {name : String} (hmap : node.get? m.name = some map)
      (h : (name, key, value) ∈ map.fields) :
    Holds m node l ⟨m.role, name, value, Origin.ofEntry ((l.field m.name).key name) key value⟩
  | item {value : Node} {i : Nat} (h : (value, i) ∈ ((node.itemsAt? m.name).getD []).zipIdx) :
    Holds m node l ⟨m.role, "", value, Origin.ofItem ((l.field m.name).index i) value⟩

theorem Member.holds_of_mem_places {m : Member} {node : Node} {l : Location} {q : Place}
    (h : q ∈ m.places node l) : m.Holds node l q := by
  unfold Member.places at h
  cases hshape : m.shape <;> simp only [hshape, List.mem_map, List.mem_filter, Prod.exists] at h
  case value =>
    obtain ⟨key, value, he, rfl⟩ := h
    exact .value (Option.mem_toList.1 he)
  case mapping =>
    obtain ⟨key, value, ⟨he, -⟩, rfl⟩ := h
    exact .value (Option.mem_toList.1 he)
  case entries =>
    obtain ⟨name, key, value, he, rfl⟩ := h
    cases hg : node.get? m.name with
    | none => simp [hg] at he
    | some map =>
      simp only [hg, Option.map_some, Option.getD_some] at he
      exact .entry hg he
  case items =>
    obtain ⟨value, i, he, rfl⟩ := h
    exact .item he
  case mappings =>
    obtain ⟨value, i, ⟨he, -⟩, rfl⟩ := h
    exact .item he

namespace Member

def properties : Member := ⟨"properties", .entries, .schema⟩

def subSchema (keyword : String) : Member := ⟨keyword, .mapping, .schema⟩

def negation : Member := ⟨"not", .value, .schema⟩

def combinator (keyword : String) : Member := ⟨keyword, .mappings, .schema⟩

def schema : Member := ⟨"schema", .value, .schema⟩

def examples : Member := ⟨"examples", .entries, .namedExample⟩

def content : Member := ⟨"content", .entries, .mediaType⟩

def headers : Member := ⟨"headers", .entries, .header⟩

def parameters : Member := ⟨"parameters", .items, .parameter⟩

def requestBody : Member := ⟨"requestBody", .value, .requestBody⟩

def responses : Member := ⟨"responses", .entries, .response⟩

/-- The members of a schema that hold schemas. -/
def ofSchema : List Member :=
  [properties, subSchema "items", subSchema "additionalProperties", negation, combinator "allOf",
   combinator "anyOf", combinator "oneOf"]

end Member

namespace Place

variable (v : SpecVersion)

/-- In version 2.0 a parameter or header without `schema` can be a schema itself. -/
def isOwnSchema (p : Place) : Bool :=
  p.reference?.isNone && v == .swagger2 && p.node.hasKey "type" && !p.node.hasKey "schema" &&
    match p.role with
    | .parameter => p.node.textAt? "in" != some "body"
    | .header => true
    | _ => false

/-- The place once more, read as a schema. -/
def own (p : Place) : List Place :=
  if p.isOwnSchema v then [{ p with role := .ownSchema }] else []

def members (p : Place) : List Member :=
  match p.role with
  | .schema => Member.ofSchema
  | .parameter | .header =>
    (if p.isOwnSchema v then Member.ofSchema else [.schema]) ++ [.examples, .content]
  | .mediaType => [.schema, .examples]
  | .requestBody => [.content]
  | .response => [.headers, .content] ++ if v == .swagger2 then [.schema] else []
  | .operation => [.parameters, .requestBody, .responses]
  | .pathItem => [.parameters]
  | .ownSchema | .namedExample | .opaqueEntry | .component _ => []

/-- The operations of a path item. -/
def operations (p : Place) : List Place :=
  (p.node.fields.filter fun (method, _, _) => Loading.methods.contains method).map
    fun (method, key, value) =>
      ⟨.operation, method, value, Origin.ofEntry (p.location.field method) key value⟩

/-- The places directly below a place; a reference has none. -/
def parts (p : Place) : List Place :=
  if p.reference?.isSome then []
  else (p.members v).flatMap (·.places p.node p.location) ++
    if p.role = .pathItem then p.operations else []

end Place

/-! ## The reading order -/

theorem Member.size_lt {m : Member} {node : Node} {l : Location} {q : Place}
    (h : q ∈ m.places node l) : q.node.size < node.size := by
  cases holds_of_mem_places h with
  | value he => exact Node.size_lt_of_entry he
  | entry hmap he => exact Nat.lt_trans (Node.size_lt_of_mem_fields he) (Node.size_lt_of_get hmap)
  | item he => exact Node.size_lt_of_mem_itemsAt (List.fst_mem_of_mem_zipIdx he)

namespace Place

section
variable {v : SpecVersion} {p q : Place}

theorem mem_operations (h : q ∈ p.operations) :
    ∃ method key value, (method, key, value) ∈ p.node.fields ∧
      Loading.methods.contains method = true ∧
        q = ⟨.operation, method, value, Origin.ofEntry (p.location.field method) key value⟩ := by
  unfold operations at h
  obtain ⟨⟨method, key, value⟩, hx, rfl⟩ := List.mem_map.1 h
  obtain ⟨hfield, hmethod⟩ := List.mem_filter.1 hx
  exact ⟨method, key, value, hfield, hmethod, rfl⟩

theorem role_of_mem_operations (h : q ∈ p.operations) : q.role = .operation := by
  obtain ⟨_, _, _, -, -, rfl⟩ := mem_operations h
  rfl

theorem mem_parts (h : q ∈ p.parts v) :
    p.reference? = none ∧ ((∃ m ∈ p.members v, q ∈ m.places p.node p.location) ∨
      p.role = .pathItem ∧ q ∈ p.operations) := by
  unfold parts at h
  split at h
  · cases h
  · rename_i href
    refine ⟨Option.not_isSome_iff_eq_none.1 href, ?_⟩
    rcases List.mem_append.1 h with h | h
    · exact .inl (List.mem_flatMap.1 h)
    · split at h
      · rename_i hrole
        exact .inr ⟨hrole, h⟩
      · cases h

theorem size_lt_of_mem_parts (h : q ∈ p.parts v) : q.node.size < p.node.size := by
  rcases (mem_parts h).2 with ⟨m, -, hq⟩ | ⟨-, hq⟩
  · exact Member.size_lt hq
  · obtain ⟨method, key, value, hfield, -, rfl⟩ := mem_operations hq
    exact Node.size_lt_of_mem_fields hfield

end

/-- A place and all places below it, in the order in which they are read. -/
def order (v : SpecVersion) (p : Place) : List Place :=
  p :: (p.own v ++ (p.parts v).attach.flatMap fun q => order v q.1)
termination_by p.node.size
decreasing_by exact size_lt_of_mem_parts q.2

theorem order_eq (v : SpecVersion) (p : Place) :
    p.order v = p :: (p.own v ++ (p.parts v).flatMap (order v)) := by
  rw [order]
  simp only [List.flatMap_subtype, List.unattach_attach]

end Place

/-! ## The places of a document -/

/-- What a component entry is read as. -/
def ComponentKind.role : ComponentKind → Role
  | .schemas => .schema
  | .parameters => .parameter
  | .requestBodies => .requestBody
  | .responses => .response
  | .examples => .namedExample
  | .headers => .header
  | .links | .securitySchemes => .opaqueEntry

/-- The component entries of a document. -/
def componentPlaces (v : SpecVersion) (root : Node) : List Place :=
  if v == .swagger2 then
    Loading.swagger2Sections.flatMap fun (field, kind) =>
      Member.places ⟨field, .entries, .component kind⟩ root .root
  else
    match root.get? "components" with
    | none => []
    | some node =>
      ComponentKind.all.flatMap fun kind =>
        Member.places ⟨kind.name, .entries, .component kind⟩ node (Location.root.field "components")

def pathPlaces (root : Node) : List Place :=
  (Member.places ⟨"paths", .entries, .pathItem⟩ root .root).filter fun p =>
    !p.name.startsWith "x-"

/-- In version 2.0 the component entries stand in sections of the document, in the others in
sections of what it has under `components`. -/
theorem exists_of_mem_componentPlaces {v : SpecVersion} {root : Node} {e : Place}
    (h : e ∈ componentPlaces v root) :
    (∃ x ∈ Loading.swagger2Sections,
      e ∈ Member.places ⟨x.1, .entries, .component x.2⟩ root .root) ∨
    ∃ node kind, root.get? "components" = some node ∧
      e ∈ Member.places ⟨kind.name, .entries, .component kind⟩ node
        (Location.root.field "components") := by
  unfold componentPlaces at h
  split at h
  · exact .inl (List.mem_flatMap.1 h)
  · split at h
    · cases h
    · rename_i node hg
      obtain ⟨kind, -, he⟩ := List.mem_flatMap.1 h
      exact .inr ⟨node, kind, hg, he⟩

namespace Place

/-- A component entry as what it holds. -/
def held (p : Place) : Place :=
  match p.role with
  | .component kind => { p with role := kind.role }
  | _ => p

/-- All that a component entry holds, and the entry. -/
def entryOrder (v : SpecVersion) (p : Place) : List Place := p.held.order v ++ [p]

end Place

/-- All places of a document, in the order in which they are read. -/
def readingOrder (v : SpecVersion) (root : Node) : List Place :=
  (componentPlaces v root).flatMap (Place.entryOrder v) ++ (pathPlaces root).flatMap (Place.order v)

/-! ## What reading leaves behind -/

/-- Where the objects of one sort are kept. -/
inductive Store where
  | schemas
  | parameters
  | headers
  | mediaTypes
  | namedExamples
  | requestBodies
  | responses
  | components
  deriving DecidableEq

/-- Where a place adds an object once it is read. -/
def Role.store? : Role → Option Store
  | .schema | .ownSchema => some .schemas
  | .parameter => some .parameters
  | .header => some .headers
  | .mediaType => some .mediaTypes
  | .namedExample => some .namedExamples
  | .requestBody => some .requestBodies
  | .response => some .responses
  | .component _ => some .components
  | .opaqueEntry | .operation | .pathItem => none

/-- What references to a place lead to, given how many objects there are of each sort. -/
def Role.target? (count : Store → Nat) : Role → Option Target
  | .schema => some (.schema ⟨count .schemas⟩)
  | .parameter => some (.parameter ⟨count .parameters⟩)
  | .header => some (.header ⟨count .headers⟩)
  | .mediaType => some (.mediaType ⟨count .mediaTypes⟩)
  | .namedExample => some (.namedExample ⟨count .namedExamples⟩)
  | .opaqueEntry => some (.component (count .components))
  | .ownSchema | .requestBody | .response | .component _ | .operation | .pathItem => none

/-- What later places depend on. -/
@[ext]
structure Outline where
  pointers : Pointers := {}
  met : Array (String × Origin) := #[]
  /-- How many objects there are of a sort. -/
  count : Store → Nat := fun _ => 0

namespace Outline

/-- What a slot for a schema holds that is read next. -/
def slot (o : Outline) (p : Place) : SchemaSlot :=
  ⟨match p.reference? with
    | some text => .reference text
    | none => .inline ⟨o.count .schemas⟩, p.origin⟩

def register (o : Outline) (p : Place) : Outline :=
  match p.role.target? o.count with
  | some t => { o with pointers := o.pointers.register p.pointer t }
  | none => o

def link (o : Outline) (p : Place) (text : String) : Outline :=
  { o with
    pointers := o.pointers.registerLink p.pointer text
    met := o.met.push (text, p.origin) }

def bump (o : Outline) (p : Place) : Outline :=
  { o with count := fun s => if p.role.store? = some s then o.count s + 1 else o.count s }

/-- Reads one place. -/
def read (o : Outline) (p : Place) : Outline :=
  match p.reference? with
  | some text => o.link p text
  | none => (o.register p).bump p

/-- What is left behind by the places read so far. -/
def after (h : List Place) : Outline := h.foldl read {}

theorem after_append (h ps : List Place) : after (h ++ ps) = ps.foldl read (after h) :=
  List.foldl_append

theorem after_concat (h : List Place) (p : Place) : after (h ++ [p]) = (after h).read p := by
  rw [after_append]; rfl

end Outline

/-! ## What slots hold -/

section
variable {α : Type} (pick : Target → Option α) (own : Nat → α) (s : Store)

/-- What a slot holds that is read after `h`: its own object, or of a reference what it leads to
among what has been read, if that is of the right sort. -/
def heldAs (h : List Place) (p : Place) : Option α :=
  match p.reference? with
  | some text => ((Outline.after (h ++ [p])).pointers.resolve text).bind pick
  | none => some (own ((Outline.after h).count s))

end

namespace Target

def parameter? : Target → Option ParameterId
  | .parameter id => some id
  | _ => none

def header? : Target → Option HeaderId
  | .header id => some id
  | _ => none

def namedExample? : Target → Option NamedExampleId
  | .namedExample id => some id
  | _ => none

end Target

def heldParameter : List Place → Place → Option ParameterId :=
  heldAs Target.parameter? ParameterId.mk .parameters

def heldHeader : List Place → Place → Option HeaderId :=
  heldAs Target.header? HeaderId.mk .headers

def heldExample : List Place → Place → Option NamedExampleId :=
  heldAs Target.namedExample? NamedExampleId.mk .namedExamples

namespace ComponentContent

def requestBody? : ComponentContent → Option RequestBodyId
  | .requestBody id => some id
  | _ => none

def response? : ComponentContent → Option ResponseId
  | .response id => some id
  | _ => none

end ComponentContent

section
variable {α : Type} (pick : ComponentContent → Option α) (own : Nat → α) (s : Store)

/-- Like `heldAs`, for objects that references find only as one of the components `c`. -/
def heldByComponent (c : Array Component) (h : List Place) (p : Place) : Option α :=
  match p.reference? with
  | some text =>
    (c.find? fun x => x.origin.location.pointer == text).bind fun x => pick x.content
  | none => some (own ((Outline.after h).count s))

end

def heldRequestBody : Array Component → List Place → Place → Option RequestBodyId :=
  heldByComponent ComponentContent.requestBody? RequestBodyId.mk .requestBodies

def heldResponse : Array Component → List Place → Place → Option ResponseId :=
  heldByComponent ComponentContent.response? ResponseId.mk .responses

/-- What a component entry is whose content is read after `h`. -/
def contentOf (h : List Place) (p : Place) : ComponentContent :=
  let n := (Outline.after h).count
  match p.held.role, p.node.reference? with
  | .schema, _ => .schema ((Outline.after h).slot p.held)
  | _, some _ => .unresolved
  | .parameter, none => .parameter ⟨n .parameters⟩
  | .requestBody, none => .requestBody ⟨n .requestBodies⟩
  | .response, none => .response ⟨n .responses⟩
  | .namedExample, none => .namedExample ⟨n .namedExamples⟩
  | .header, none => .header ⟨n .headers⟩
  | _, none => .opaqueEntry

def componentOf (kind : ComponentKind) (h : List Place) (p : Place) : Component where
  kind
  name := p.name
  origin := p.origin
  description := p.node.textAt? "description"
  reference := p.node.reference?
  content := contentOf h p

/-- The components that entries side by side become. -/
def componentsOf (v : SpecVersion) (h : List Place) : List Place → List Component
  | [] => []
  | p :: ps =>
    (match p.role with
      | .component kind => [componentOf kind h p]
      | _ => []) ++ componentsOf v (h ++ p.entryOrder v) ps

/-- Places side by side, each with all that is read before it. -/
def moments (v : SpecVersion) (h : List Place) : List Place → List (List Place × Place)
  | [] => []
  | q :: qs => (h, q) :: moments v (h ++ q.order v) qs

@[simp]
theorem moments_nil (v : SpecVersion) (h : List Place) : moments v h [] = [] := rfl

@[simp]
theorem length_moments (v : SpecVersion) (h qs : List Place) :
    (moments v h qs).length = qs.length := by
  induction qs generalizing h with
  | nil => rfl
  | cons q qs ih => simp [moments, ih]

theorem moments_append (v : SpecVersion) (h ps qs : List Place) :
    moments v h (ps ++ qs) =
      moments v h ps ++ moments v (h ++ ps.flatMap (Place.order v)) qs := by
  induction ps generalizing h with
  | nil => simp
  | cons p ps ih => simp [moments, ih]

/-- The named objects that the slots side by side hold; slots that hold nothing are left out. -/
def heldBy {α : Type} (v : SpecVersion) (held : List Place → Place → Option α) (h qs : List Place) :
    List (String × α) :=
  (moments v h qs).filterMap fun (h, q) => (held h q).map (q.name, ·)

/-- The slots for schemas side by side. -/
def slotsOf (v : SpecVersion) (h qs : List Place) : List SchemaSlot :=
  (moments v h qs).map fun (h, q) => (Outline.after h).slot q

end ApiLint
