import ApiLint.Proofs.Loading

/-!
# Documents as read

A document that loads has been read in `readingOrder` (`Document.loaded_of_ofNode`): its objects
are those that its places have become (`Draft.Built`), its components are `componentsOf` the
component entries, and its path items are `Place.pathItemOf` the path items.
-/

set_option autoImplicit false

namespace ApiLint

open Yaml (Node)
open Draft

/-! ## Components -/

namespace Follows

variable {v : SpecVersion} {c : Array Component}

theorem order_of_opaqueEntry {p : Place} (hrole : p.role = .opaqueEntry) (href : p.reference? = none)
    (v : SpecVersion) : p.order v = [p] := by
  rw [order_object href (by simp [hrole]), own_eq_nil (by simp [hrole]) (by simp [hrole]),
    Place.members, hrole]
  rfl

/-- Nothing is made of an entry that is not looked into, but references lead to its component. -/
theorem opaqueEntry {p : Place} (hrole : p.role = .opaqueEntry) (href : p.reference? = none) :
    Follows v c (Loading.register p.location (.component c.size)) (p.order v) fun _ => () := by
  rw [order_of_opaqueEntry hrole href]
  refine single (fun _ => by rw [hrole, Role.store?]) fun d h hd => ?_
  have hread : d.outline.read p = (d.outline.register p).bump p := by rw [Outline.read, href]
  have hregister : d.outline.register p =
      { d.outline with pointers := d.pointers.register p.pointer (.component c.size) } := by
    rw [Outline.register, hrole, ← hd.components]
    rfl
  rw [hread, hregister]
  rfl

/-- What a component entry is. -/
theorem componentContent {kind : ComponentKind} {p : Place} (hp : p.role = .component kind) :
    Follows v c (Loading.componentContent kind p.name c.size p.node p.origin) (p.held.order v)
      fun h => contentOf h p := by
  obtain ⟨role, name, node, origin⟩ := p
  obtain rfl : role = .component kind := hp
  have hschema : Follows v c
      (ComponentContent.schema <$> Loading.slot node origin (.component name) (some name))
      ((Place.mk .schema name node origin).order v)
      fun h => .schema ((Outline.after h).slot ⟨.schema, name, node, origin⟩) :=
    (slot (q := ⟨.schema, name, node, origin⟩) rfl _ _).map _
  have hopaque : node.reference? = none → Follows v c (do
      Loading.register origin.location (.component c.size)
      return ComponentContent.opaqueEntry) ((Place.mk .opaqueEntry name node origin).order v)
      fun _ => ComponentContent.opaqueEntry := fun href =>
    (opaqueEntry (p := ⟨.opaqueEntry, name, node, origin⟩) rfl href).map
      fun _ => ComponentContent.opaqueEntry
  unfold Loading.componentContent contentOf
  cases href : node.reference? with
  | some text =>
    have hreference : ∀ role : Role, role.isSlot = true → Follows v c (do
        let _ ← Loading.reference text origin
        return ComponentContent.unresolved) ((Place.mk role name node origin).order v)
        fun _ => ComponentContent.unresolved := fun role hslot =>
      (reference (p := ⟨role, name, node, origin⟩) (by simp [Place.reference?, hslot, href])).map
        fun _ => ComponentContent.unresolved
    cases kind
    case schemas => exact hschema
    all_goals exact hreference _ rfl
  | none =>
    cases kind
    · exact hschema
    · exact (parameter href).map ComponentContent.parameter
    · exact (requestBody href).map ComponentContent.requestBody
    · exact (response href).map ComponentContent.response
    · exact (namedExample href).map ComponentContent.namedExample
    · exact (header href).map ComponentContent.header
    · exact hopaque href
    · exact hopaque href

end Follows

theorem componentsOf_append (v : SpecVersion) (h ps qs : List Place) :
    componentsOf v h (ps ++ qs) =
      componentsOf v h ps ++ componentsOf v (h ++ ps.flatMap (Place.entryOrder v)) qs := by
  induction ps generalizing h with
  | nil => simp [componentsOf]
  | cons p ps ih => simp [componentsOf, ih]

/-- The action `m` reads the component entries `ps`. -/
def ReadsEntries (v : SpecVersion) (m : Loading Unit) (ps : List Place) : Prop :=
  ∀ d h, HasRead v d.components d h →
    Advance v d h (ps.flatMap (Place.entryOrder v))
      (d.components ++ (componentsOf v h ps).toArray) (m.run d).2

namespace ReadsEntries

variable {v : SpecVersion}

theorem nil : ReadsEntries v (pure ()) [] := by
  intro d h hd
  change Advance v d h [] (d.components ++ #[]) d
  simpa using Advance.nil hd

theorem append {m n : Loading Unit} {ps qs : List Place} (hm : ReadsEntries v m ps)
    (hn : ReadsEntries v n qs) : ReadsEntries v (m >>= fun _ => n) (ps ++ qs) := by
  intro d h hd
  have h₁ := hm d h hd
  have hc := h₁.hasRead.components
  have h₂ := hn _ _ (hc ▸ h₁.hasRead)
  rw [hc] at h₂
  rw [List.flatMap_append, componentsOf_append, ← List.append_toArray, ← Array.append_assoc]
  exact h₁.trans h₂

/-- Entries side by side. -/
theorem forM {α : Type} {f : α → Loading Unit} {p : α → List Place} (xs : List α)
    (hf : ∀ x ∈ xs, ReadsEntries v (f x) (p x)) : ReadsEntries v (xs.forM f) (xs.flatMap p) := by
  induction xs with
  | nil => exact nil
  | cons x xs ih =>
    exact append (hf x List.mem_cons_self) (ih fun y hy => hf y (.tail _ hy))

/-- One component entry. -/
theorem component {kind : ComponentKind} {p : Place} (hp : p.role = .component kind) :
    ReadsEntries v (Loading.component kind p.name p.node p.origin) [p] := by
  intro d h hd
  obtain ⟨hval, hadv⟩ := Follows.componentContent hp d h hd
  have hrun : ((Loading.component kind p.name p.node p.origin).run d).2 =
      let r := (Loading.componentContent kind p.name d.components.size p.node p.origin).run d
      { r.2 with components := r.2.components.push { componentOf kind h p with content := r.1 } } :=
    rfl
  rw [hrun]
  generalize (Loading.componentContent kind p.name d.components.size p.node p.origin).run d = r
    at hval hadv
  have hone : componentsOf v h [p] = [componentOf kind h p] := by simp [componentsOf, hp]
  have hentry : [p].flatMap (Place.entryOrder v) = p.held.order v ++ [p] := by
    simp [Place.entryOrder]
  have href : p.reference? = none := by simp [Place.reference?, Role.isSlot, hp]
  rw [hone, hentry]
  refine hadv.trans ⟨⟨hadv.hasRead.version, ?_, ?_⟩, fun s i => ?_, fun a q b he => ?_⟩
  · change r.2.components.push { componentOf kind h p with content := r.1 } = _
    rw [hval, hadv.hasRead.components]
    rfl
  · rw [Outline.after_concat, ← hadv.hasRead.outline, Outline.read, href]
    simp only [Outline.register, Outline.bump, hp, Role.target?, Role.store?]
    refine Outline.ext rfl rfl (funext fun s => ?_)
    cases s <;> simp [outline, arena]
  · cases s <;> intro x hx
    case components =>
      have hi := (Array.getElem?_eq_some_iff.1 hx).1
      exact (Array.getElem?_push_lt hi).trans ((Array.getElem?_eq_getElem hi).symm.trans hx)
    all_goals exact hx
  · obtain ⟨rfl, rfl⟩ := singleton_eq_append_cons he
    intro _ s hs
    obtain rfl : .components = s := by simpa [hp, Role.store?] using hs
    rw [List.append_nil, ← hadv.hasRead.count]
    exact ⟨_, Array.getElem?_push_size, trivial, ⟨hp, rfl, rfl, rfl, rfl⟩, trivial⟩

/-- The components under one field. -/
theorem section_ (kind : ComponentKind) (node : Node) (base : Location) (field : String) :
    ReadsEntries v (Loading.section_ kind node base field)
      (Member.places ⟨field, .entries, .component kind⟩ node base) := by
  unfold Loading.section_ Member.places
  dsimp only
  cases node.get? field with
  | none => exact nil
  | some map =>
    have h := forM (v := v) (f := fun x : String × Node × Node =>
        Loading.component kind x.1 x.2.2 (Origin.ofEntry ((base.field field).key x.1) x.2.1 x.2.2))
      (p := fun x =>
        [⟨.component kind, x.1, x.2.2, Origin.ofEntry ((base.field field).key x.1) x.2.1 x.2.2⟩])
      map.fields fun x _ => component (p := ⟨.component kind, x.1, x.2.2, _⟩) rfl
    rwa [← List.map_eq_flatMap] at h

theorem components (root : Node) :
    ReadsEntries v (Loading.components root) (componentPlaces v root) := by
  intro d h hd
  unfold Loading.components componentPlaces
  rw [StateT.run_bind, show (get : Loading Draft).run d = pure (d, d) from rfl, pure_bind]
  simp only [hd.version]
  split
  · exact forM _ (fun x _ => section_ x.2 root .root x.1) d h hd
  · cases root.get? "components" with
    | none => exact nil d h hd
    | some node => exact forM _ (fun kind _ => section_ kind node _ kind.name) d h hd

end ReadsEntries

/-! ## Operations and path items -/

namespace Place

variable (v : SpecVersion) (c : Array Component) (h : List Place) (p : Place)

/-- The operation that a place becomes, where the components are `c`. -/
def operationOf : Operation :=
  let next := fun h m => h ++ (p.placesOf m).flatMap (order v)
  let h₁ := h ++ [p]
  let h₂ := next h₁ .parameters
  let h₃ := next h₂ .requestBody
  { method := p.name
    origin := p.origin
    operationId := p.node.textAt? "operationId"
    parameters :=
      (moments v h₁ (p.placesOf .parameters)).filterMap fun (h, q) => heldParameter h q
    requestBody :=
      (moments v h₂ (p.placesOf .requestBody)).head?.bind fun (h, q) => heldRequestBody c h q
    responses := heldBy v (heldResponse c) h₃ (p.placesOf .responses) }

/-- The path item that a place becomes. -/
def pathItemOf : PathItem :=
  let h₁ := h ++ [p]
  let h₂ := h₁ ++ (p.placesOf .parameters).flatMap (order v)
  { template := p.name
    origin := p.origin
    parameters :=
      (moments v h₁ (p.placesOf .parameters)).filterMap fun (h, q) => heldParameter h q
    operations := (moments v h₂ p.operations).map fun (h, q) => q.operationOf v c h }

end Place

namespace Follows

variable {v : SpecVersion} {c : Array Component} {α : Type}

/-- Operations and path items leave nothing behind themselves. -/
theorem cons {p : Place} (hrole : p.role = .operation ∨ p.role = .pathItem) {m : Loading α}
    {ps : List Place} {val : List Place → α} (hm : Follows v c m ps val) :
    Follows v c m (p :: ps) fun h => val (h ++ [p]) := by
  have href : p.reference? = none := by
    rcases hrole with hrole | hrole <;> simp [Place.reference?, Role.isSlot, hrole]
  have hread : ∀ o : Outline, o.read p = o := fun o => by
    rcases hrole with hrole | hrole <;>
      simp [Outline.read, href, Outline.register, Outline.bump, hrole, Role.target?, Role.store?]
  have hskip : Follows v c (Pure.pure () : Loading Unit) [p] fun _ => () :=
    single (fun _ => by rcases hrole with hrole | hrole <;> simp [hrole, Role.store?])
      fun d h hd => by rw [hread]; rfl
  exact bind hskip fun _ => hm

theorem parametersList (p : Place) :
    Follows v c (Loading.parametersList p.node p.location)
      ((p.placesOf .parameters).flatMap (Place.order v))
      fun h => (moments v h (p.placesOf .parameters)).filterMap fun (h, q) => heldParameter h q :=
  filterMapM fun x _ => parameterSlot (q := ⟨.parameter, "", x.1, _⟩) rfl

/-- The request body of an operation. -/
def requestBodyOf (p : Place) : Loading (Option RequestBodyId) :=
  match p.node.entry? "requestBody" with
  | some (key, value) =>
    Loading.requestBodySlot value (Origin.ofEntry (p.location.field "requestBody") key value)
  | none => Pure.pure none

theorem operation_eq (p : Place) :
    Loading.operation p.name p.node p.origin = (do
      let parameters ← Loading.parametersList p.node p.location
      let requestBody ← requestBodyOf p
      let responses ← Loading.operationResponses p.node p.location
      return {
        method := p.name
        origin := p.origin
        operationId := p.node.textAt? "operationId"
        parameters, requestBody, responses }) := by
  unfold Loading.operation requestBodyOf
  refine bind_congr fun parameters => ?_
  cases p.node.entry? "requestBody" <;> rfl

theorem operation {p : Place} (hrole : p.role = .operation) :
    Follows v c (Loading.operation p.name p.node p.origin) (p.order v)
      fun h => p.operationOf v c h := by
  have href : p.reference? = none := by simp [Place.reference?, Role.isSlot, hrole]
  have hbody : Follows v c (requestBodyOf p) ((p.placesOf .requestBody).flatMap (Place.order v))
      fun h => (moments v h (p.placesOf .requestBody)).head?.bind
        fun (h, q) => heldRequestBody c h q :=
    value (m := .requestBody) rfl fun q hq => requestBodySlot (role_of_mem_places hq)
  have hresponses : Follows v c (Loading.operationResponses p.node p.location)
      ((p.placesOf .responses).flatMap (Place.order v))
      fun h => heldBy v (heldResponse c) h (p.placesOf .responses) :=
    slotEntries (m := .responses) (f := fun _ => Loading.responseSlot) rfl
      fun q hq => responseSlot (role_of_mem_places hq)
  rw [operation_eq, order_object href (by simp [hrole]),
    own_eq_nil (by simp [hrole]) (by simp [hrole])]
  refine cons (.inl hrole) ((Follows.bind (parametersList p) fun _ => Follows.bind hbody
    fun _ => Follows.bind hresponses fun _ => Follows.pure _).congr ?_ fun h => rfl)
  simp [Place.members, hrole]

theorem pathItem {p : Place} (hrole : p.role = .pathItem) :
    Follows v c (Loading.pathItem p.name p.node p.origin) (p.order v)
      fun h => p.pathItemOf v c h := by
  have href : p.reference? = none := by simp [Place.reference?, Role.isSlot, hrole]
  have horder : p.order v =
      p :: (p.placesOf .parameters ++ p.operations).flatMap (Place.order v) := by
    rw [Place.order_eq, own_eq_nil (by simp [hrole]) (by simp [hrole]), Place.parts]
    simp [href, hrole, Place.members, Place.placesOf]
  have hoperations : Follows v c _ (p.operations.flatMap (Place.order v))
      fun h => (moments v h p.operations).map fun (h, q) => q.operationOf v c h :=
    mapM fun x _ => operation (p := ⟨.operation, x.1, x.2.2, _⟩) rfl
  rw [horder]
  refine cons (.inr hrole) ((Follows.bind (parametersList p) fun _ => Follows.bind hoperations
    fun _ => Follows.pure _).congr ?_ fun h => rfl)
  simp

theorem paths (root : Node) :
    Follows v c (Loading.paths root) ((pathPlaces root).flatMap (Place.order v))
      fun h => (moments v h (pathPlaces root)).map fun (h, q) => q.pathItemOf v c h := by
  unfold Loading.paths pathPlaces Member.places
  dsimp only
  cases root.get? "paths" with
  | none => exact Follows.pure []
  | some map =>
    dsimp only [Option.map_some, Option.getD_some]
    rw [List.filter_map]
    exact mapM fun x _ => pathItem (p := ⟨.pathItem, x.1, x.2.2, _⟩) rfl

end Follows

/-! ## Documents -/

theorem eq_ok_of_toOption {ε α : Type} {e : Except ε α} {a : α} (h : e.toOption = some a) :
    e = .ok a := by
  cases e with
  | error _ => cases h
  | ok b => exact congrArg Except.ok (Option.some.inj h)

namespace Document

/-- The document has been read from its tree up to `draft`. -/
structure Loaded (d : Document) (draft : Draft) : Prop where
  hasRead : HasRead d.specVersion (componentsOf d.specVersion [] (componentPlaces d.specVersion
    d.root)).toArray draft (readingOrder d.specVersion d.root)
  built : ∀ a p b, readingOrder d.specVersion d.root = a ++ p :: b →
    draft.Built d.specVersion a p
  components : d.components = draft.components.map (followed draft.pointers)
  schemas : d.schemas = draft.schemas
  parameters : d.parameters = draft.parameters
  headers : d.headers = draft.headers
  mediaTypes : d.mediaTypes = draft.mediaTypes
  namedExamples : d.namedExamples = draft.namedExamples
  requestBodies : d.requestBodies = draft.requestBodies
  responses : d.responses = draft.responses
  pointers : d.pointers = draft.pointers
  references : d.references.all =
    draft.met.toList.map fun (text, origin) => ⟨text, origin, draft.pointers.resolve text⟩
  paths : d.paths.toList =
    (moments d.specVersion ((componentPlaces d.specVersion d.root).flatMap
      (Place.entryOrder d.specVersion)) (pathPlaces d.root)).map fun (h, q) =>
        q.pathItemOf d.specVersion draft.components h

/-- That a tree loads can be computed. -/
theorem ofNode_of_toOption {α : Type} {root : Node} {f : Document → Option α} {a : α}
    (h : (ofNode root).toOption.bind f = some a) : ∃ d, ofNode root = .ok d ∧ f d = some a := by
  obtain ⟨d, hd, ha⟩ := Option.bind_eq_some_iff.1 h
  exact ⟨d, eq_ok_of_toOption hd, ha⟩

/-- The document of a draft and the path items read with it. -/
def ofDraft (root : Node) (version : String) (paths : List PathItem) (draft : Draft) :
    Document where
  version
  specVersion := SpecVersion.ofText version
  root
  tags := tagNames root
  paths := paths.toArray
  components := draft.components.map (followed draft.pointers)
  schemas := draft.schemas
  parameters := draft.parameters
  headers := draft.headers
  mediaTypes := draft.mediaTypes
  namedExamples := draft.namedExamples
  requestBodies := draft.requestBodies
  responses := draft.responses
  pointers := draft.pointers
  references :=
    ⟨draft.met.toList.map fun (text, origin) => ⟨text, origin, draft.pointers.resolve text⟩⟩

theorem ofNode_eq_ok {root : Node} {d : Document} (h : ofNode root = .ok d) :
    ∃ version, d =
      let d₁ := ((Loading.components root).run { version := SpecVersion.ofText version }).2
      let r := (Loading.paths root).run d₁
      ofDraft root version r.1 r.2 := by
  unfold ofNode at h
  cases hm : root.isMapping with
  | false => simp [hm] at h; cases h
  | true =>
    cases hv : (root.get? "openapi" <|> root.get? "swagger") with
    | none => simp [hm, hv] at h; cases h
    | some n =>
      simp only [hm, hv, ↓reduceIte] at h
      exact ⟨versionText n, (Except.ok.inj h).symm⟩

theorem loaded_of_ofNode {root : Node} {d : Document} (h : ofNode root = .ok d) :
    d.root = root ∧ ∃ draft, d.Loaded draft := by
  obtain ⟨version, hd⟩ := ofNode_eq_ok h
  set v := SpecVersion.ofText version with hversion
  have hstart : HasRead v #[] { version := v } [] :=
    ⟨rfl, rfl, Outline.ext rfl rfl (funext fun s => by cases s <;> rfl)⟩
  have hcomponents := ReadsEntries.components (v := v) root { version := v } [] hstart
  simp only [Array.empty_append] at hcomponents
  dsimp only at hd
  generalize ((Loading.components root).run { version := v }).2 = d₁ at hcomponents hd
  obtain ⟨hval, hpaths⟩ := Follows.paths root _ _ hcomponents.hasRead
  have hadv := hcomponents.trans hpaths
  generalize (Loading.paths root).run d₁ = r at hval hadv hd
  subst hd
  exact ⟨rfl, r.2, {
    hasRead := hadv.hasRead
    built := hadv.built
    components := rfl
    schemas := rfl
    parameters := rfl
    headers := rfl
    mediaTypes := rfl
    namedExamples := rfl
    requestBodies := rfl
    responses := rfl
    pointers := rfl
    references := rfl
    paths := by
      rw [hadv.hasRead.components]
      exact hval }⟩

namespace Loaded

variable {d : Document} {draft : Draft} (hd : d.Loaded draft)
include hd

/-- Pointers lead to what they lead to once all is read. -/
theorem pointers_eq :
    d.pointers = (Outline.after (readingOrder d.specVersion d.root)).pointers := by
  rw [hd.pointers, ← hd.hasRead.outline]
  rfl

/-- The references of a document are those met while it is read. -/
theorem met_eq : draft.met = (Outline.after (readingOrder d.specVersion d.root)).met := by
  rw [← hd.hasRead.outline]
  rfl

end Loaded

end Document

end ApiLint
