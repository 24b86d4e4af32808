import ApiLint.Proofs.Parting
import ApiLint.Proofs.Resolving

/-!
# What reference slots hold

A slot for a parameter, a header or an example that is a reference is followed once, where it is
met, among the places read so far (`heldAs_eq_some`); a slot for a request body or a response is
looked up among the component entries (`heldByComponent_eq_some`). Documents follow references among
all places, so `Document.slots_hold` can say exactly when a slot holds what the document leads to.
-/

set_option autoImplicit false

namespace ApiLint

open Yaml (Node)

/-! ## What slots hold -/

/-- The request body at a place. -/
def Role.requestBody? (count : Store → Nat) : Role → Option RequestBodyId
  | .requestBody => some ⟨count .requestBodies⟩
  | _ => none

/-- The response at a place. -/
def Role.response? (count : Store → Nat) : Role → Option ResponseId
  | .response => some ⟨count .responses⟩
  | _ => none

/-- A slot holds what its reference finds among the places read up to it. -/
theorem heldAs_eq_some {α : Type} {pick : Target → Option α} {make : α → Target}
    (hpick : ∀ t a, pick t = some a ↔ t = make a) {own : Nat → α} {s : Store} {h : List Place}
    {p : Place} {text : String} (href : p.reference? = some text) (a : α) :
    heldAs pick own s h p = some a ↔ Finds Role.target? (h ++ [p]) text (make a) := by
  unfold heldAs
  rw [href]
  simp only [Option.bind_eq_some_iff, hpick, ← Outline.resolve_after, exists_eq_right]

theorem Target.parameter?_eq_some {t : Target} {id : ParameterId} :
    t.parameter? = some id ↔ t = .parameter id := by
  cases t <;> simp [Target.parameter?]

theorem heldParameter_eq_some {h : List Place} {p : Place} {text : String}
    (href : p.reference? = some text) (id : ParameterId) :
    heldParameter h p = some id ↔ Finds Role.target? (h ++ [p]) text (.parameter id) :=
  heldAs_eq_some (fun _ _ => Target.parameter?_eq_some) href id

/-- The first component entry at the pointer defines `a`. -/
def EntryDefines {α : Type} (sort : (Store → Nat) → Role → Option α) (v : SpecVersion)
    (root : Node) (pointer : String) (a : α) : Prop :=
  ∃ ps e qs, componentPlaces v root = ps ++ e :: qs ∧ (∀ q ∈ ps, q.pointer ≠ pointer) ∧
    e.pointer = pointer ∧ definition sort (ps.flatMap (Place.entryOrder v)) e.held = some a

/-- What a component entry defines, the document leads to at once. -/
theorem EntryDefines.leads {α : Type} {sort : (Store → Nat) → Role → Option α} {v : SpecVersion}
    {root : Node} {pointer : String} {a : α} (h : EntryDefines sort v root pointer a) :
    Leads sort (readingOrder v root) [] pointer a := by
  obtain ⟨ps, e, qs, hcut, hps, hp, hdef⟩ := h
  obtain ⟨b, horder⟩ := readAfter_iff.1 (ReadAfter.entry hcut)
  refine .here ⟨_, e.held, b, horder, fun h q b hq hqp => ?_, ?_, hdef⟩
  · -- no other entry, and nothing below one, stands at the pointer
    obtain ⟨f, hf, hqf⟩ := List.mem_flatMap.1 (hq ▸ List.mem_append_cons_self :
      q ∈ ps.flatMap (Place.entryOrder v))
    have hbelow := texts_of_mem_entryOrder hqf
    rw [Location.pointer_eq_iff.1 (hqp.trans hp.symm)] at hbelow
    have hlen := length_texts_of_mem_componentPlaces (hcut ▸ List.mem_append_left _ hf :
      f ∈ componentPlaces v root) (hcut ▸ List.mem_append_cons_self)
    have hfe := Location.pointer_eq_iff.2 (hbelow.eq_of_length hlen)
    exact absurd (hfe.trans hp) (hps f hf)
  · rw [Place.pointer, Place.location_held]
    exact hp

theorem find?_componentsOf {v : SpecVersion} {es : List Place}
    (hes : ∀ e ∈ es, ∃ kind, e.role = .component kind) (h : List Place) (pointer : String)
    (x : Component) :
    (componentsOf v h es).find? (·.origin.location.pointer == pointer) = some x ↔
      ∃ ps e qs kind, es = ps ++ e :: qs ∧ (∀ q ∈ ps, q.pointer ≠ pointer) ∧ e.pointer = pointer ∧
        x = componentOf kind (h ++ ps.flatMap (Place.entryOrder v)) e ∧
          e.role = .component kind := by
  induction es generalizing h with
  | nil => simp [componentsOf]
  | cons e es ih =>
    obtain ⟨kind, hkind⟩ := hes e List.mem_cons_self
    rw [componentsOf, hkind, List.singleton_append, List.find?_cons]
    have hat : (componentOf kind h e).origin.location.pointer = e.pointer := rfl
    rw [hat]
    by_cases hp : e.pointer = pointer
    · simp only [hp, beq_self_eq_true]
      constructor
      · rintro ⟨⟩
        exact ⟨[], e, es, kind, rfl, by simp, hp, by simp, hkind⟩
      · rintro ⟨ps, e', qs, kind', he, hps, -, rfl, hkind'⟩
        cases ps with
        | nil =>
          obtain ⟨rfl, -⟩ := List.cons.inj he
          obtain rfl : kind = kind' := by simpa using hkind.symm.trans hkind'
          simp
        | cons q ps =>
          obtain ⟨rfl, -⟩ := List.cons.inj he
          exact absurd hp (hps _ List.mem_cons_self)
    · have hne : (e.pointer == pointer) = false := by simpa using hp
      simp only [hne]
      rw [ih (fun e' he' => hes e' (.tail _ he'))]
      constructor
      · rintro ⟨ps, e', qs, kind', rfl, hps, hp', rfl, hkind'⟩
        refine ⟨e :: ps, e', qs, kind', rfl, ?_, hp', by simp, hkind'⟩
        simpa using ⟨hp, hps⟩
      · rintro ⟨ps, e', qs, kind', he, hps, hp', rfl, hkind'⟩
        cases ps with
        | nil =>
          obtain ⟨rfl, -⟩ := List.cons.inj he
          exact absurd hp' hp
        | cons q ps =>
          obtain ⟨rfl, rfl⟩ := List.cons.inj he
          exact ⟨ps, e', qs, kind', rfl, fun q' hq' => hps q' (.tail _ hq'), hp', by simp, hkind'⟩

/-- What a component entry is of a sort that references find by component only. -/
structure PicksSort {α : Type} (pick : ComponentContent → Option α)
    (sort : (Store → Nat) → Role → Option α) : Prop where
  content : ∀ {kind : ComponentKind} {p : Place} (h : List Place), p.role = .component kind →
    pick (contentOf h p) = definition sort h p.held

theorem picksSort_requestBody : PicksSort ComponentContent.requestBody? Role.requestBody? where
  content {kind p} h hp := by
    simp only [contentOf, definition, Place.held, Place.reference?, hp]
    cases kind <;> cases p.node.reference? <;> rfl

theorem picksSort_response : PicksSort ComponentContent.response? Role.response? where
  content {kind p} h hp := by
    simp only [contentOf, definition, Place.held, Place.reference?, hp]
    cases kind <;> cases p.node.reference? <;> rfl

/-- A slot for a request body or a response holds what the component entry defines that its
reference points at; no further reference is followed. -/
theorem heldByComponent_eq_some {α : Type} {pick : ComponentContent → Option α}
    {sort : (Store → Nat) → Role → Option α} (hpick : PicksSort pick sort) {own : Nat → α}
    {s : Store} {v : SpecVersion} {root : Node} {h : List Place} {p : Place} {text : String}
    (href : p.reference? = some text) (a : α) :
    heldByComponent pick own s (componentsOf v [] (componentPlaces v root)).toArray h p = some a ↔
      EntryDefines sort v root text a := by
  have hes : ∀ e ∈ componentPlaces v root, ∃ kind, e.role = .component kind :=
    fun e he => ReadAfter.role_of_mem_componentPlaces he
  unfold heldByComponent
  rw [href]
  simp only [List.find?_toArray, Option.bind_eq_some_iff, find?_componentsOf hes,
    List.nil_append]
  constructor
  · rintro ⟨x, ⟨ps, e, qs, kind, hcut, hps, hp, rfl, hkind⟩, hx⟩
    exact ⟨ps, e, qs, hcut, hps, hp, (hpick.content _ hkind).symm.trans hx⟩
  · rintro ⟨ps, e, qs, hcut, hps, hp, hdef⟩
    obtain ⟨kind, hkind⟩ := hes e (hcut ▸ List.mem_append_cons_self)
    exact ⟨_, ⟨ps, e, qs, kind, hcut, hps, hp, rfl, hkind⟩, (hpick.content _ hkind).trans hdef⟩

/-! ## The lists of a document -/

namespace Document

/-- The objects of a sort. -/
def arena (d : Document) : (s : Store) → Array s.Object
  | .schemas => d.schemas
  | .parameters => d.parameters
  | .headers => d.headers
  | .mediaTypes => d.mediaTypes
  | .namedExamples => d.namedExamples
  | .requestBodies => d.requestBodies
  | .responses => d.responses
  | .components => d.components

/-- The component entries of a document before references between them are followed. -/
def entries (d : Document) : Array Component :=
  (componentsOf d.specVersion [] (componentPlaces d.specVersion d.root)).toArray

/-- The lists of a document hold what the slots in them hold where they are read. -/
structure Filled (d : Document) : Prop where
  /-- `Place.pathItemOf` and `Place.operationOf` list what their slots hold. -/
  paths : d.paths.toList =
    (moments d.specVersion ((componentPlaces d.specVersion d.root).flatMap
      (Place.entryOrder d.specVersion)) (pathPlaces d.root)).map fun (h, p) =>
        p.pathItemOf d.specVersion d.entries h
  /-- `Place.Describes` lists what the slots of an object hold, next to its name and origin. -/
  objects : ∀ h p, ReadAfter d.specVersion d.root h p → p.reference? = none →
    ∀ s, p.role.store? = some s →
      ∃ x, (d.arena s)[(Outline.after h).count s]? = some x ∧ p.Describes d.specVersion h s x

/-- Only components change once all is read. -/
theorem Loaded.arena_eq {d : Document} {draft : Draft} (hd : d.Loaded draft) {s : Store}
    (hs : s ≠ .components) : d.arena s = draft.arena s := by
  cases s
  case components => exact absurd rfl hs
  case schemas => exact hd.schemas
  case parameters => exact hd.parameters
  case headers => exact hd.headers
  case mediaTypes => exact hd.mediaTypes
  case namedExamples => exact hd.namedExamples
  case requestBodies => exact hd.requestBodies
  case responses => exact hd.responses

theorem Loaded.filled {d : Document} {draft : Draft} (hd : d.Loaded draft) : d.Filled where
  paths := by
    rw [hd.paths, hd.hasRead.components]
    rfl
  objects h p hp href s hs := by
    obtain ⟨x, hx, hdesc⟩ := hd.object hp href hs
    by_cases hcomponent : s = .components
    · subst hcomponent
      refine ⟨followed draft.pointers x, ?_, trivial⟩
      rw [arena, hd.components, Array.getElem?_map]
      exact congrArg (Option.map _) hx
    · exact ⟨x, by rw [hd.arena_eq hcomponent]; exact hx, hdesc⟩

/-- **What reference slots hold.** The lists of a document hold what `heldParameter` and the like
say (`Filled`), and those find a reference among the places read up to the slot, or of a request body
or response the component entry that it points at; the document follows it among all places. So the
two agree on every reference on whose way nothing is read later than the slot. -/
theorem slots_hold (root : Node) (d : Document) (h : ofNode root = .ok d) :
    d.Filled ∧
    (∀ text t, d.resolve text = some t ↔
      Finds Role.target? (readingOrder d.specVersion root) text t) ∧
    (∀ text, (∀ id, EntryDefines Role.requestBody? d.specVersion root text id →
        Leads Role.requestBody? (readingOrder d.specVersion root) [] text id) ∧
      ∀ id, EntryDefines Role.response? d.specVersion root text id →
        Leads Role.response? (readingOrder d.specVersion root) [] text id) ∧
    (∀ h p text, p.reference? = some text →
      (∀ id, heldParameter h p = some id ↔
        Finds Role.target? (h ++ [p]) text (.parameter id)) ∧
      (∀ id, heldHeader h p = some id ↔ Finds Role.target? (h ++ [p]) text (.header id)) ∧
      (∀ id, heldExample h p = some id ↔
        Finds Role.target? (h ++ [p]) text (.namedExample id)) ∧
      (∀ id, heldRequestBody d.entries h p = some id ↔
        EntryDefines Role.requestBody? d.specVersion root text id) ∧
      ∀ id, heldResponse d.entries h p = some id ↔
        EntryDefines Role.response? d.specVersion root text id) ∧
    ∀ h p b text route t, readingOrder d.specVersion root = (h ++ [p]) ++ b →
      (∀ q ∈ b, q.pointer ∉ text :: route) →
      (Leads Role.target? (readingOrder d.specVersion root) route text t ↔
        Leads Role.target? (h ++ [p]) route text t) := by
  obtain ⟨rfl, draft, hd⟩ := loaded_of_ofNode h
  refine ⟨hd.filled, fun text t => ?_, fun text => ⟨fun id he => he.leads, fun id he => he.leads⟩,
    fun h p text href => ⟨?_, ?_, ?_, ?_, ?_⟩, ?_⟩
  · rw [resolve, hd.pointers_eq, Outline.resolve_after]
  · exact heldParameter_eq_some href
  · exact heldAs_eq_some (fun t _ => by cases t <;> simp [Target.header?, eq_comm]) href
  · exact heldAs_eq_some (fun t _ => by cases t <;> simp [Target.namedExample?, eq_comm]) href
  · exact heldByComponent_eq_some picksSort_requestBody href
  · exact heldByComponent_eq_some picksSort_response href
  · intro h p b text route t hb hoff
    rw [hb]
    exact leads_append hoff

/-- A document with a header that is referred to before it is read, and with a request body that is
referred to by way of another component. -/
def lagging : Node :=
  .table 1 [("openapi", .word "3.1.0" 1),
    ("paths", .table 3 [("/pets", .table 4 [("post", .table 5 [
      ("requestBody", .pointTo 6 "#/components/requestBodies/Alias")])])]),
    ("components", .table 8 [
      ("requestBodies", .table 9 [
        ("Alias", .pointTo 10 "#/components/requestBodies/Pet"), ("Pet", .table 11 [])]),
      ("responses", .table 12 [("Ok", .table 13 [
        ("headers", .table 14 [("Rate", .pointTo 15 "#/components/headers/Rate")])])]),
      ("headers", .table 16 [("Rate", .table 17 [])])])]

theorem slots_hold_lagging : ∃ d, ofNode lagging = .ok d ∧ d.Filled ∧
    Finds Role.target? (readingOrder d.specVersion lagging) "#/components/headers/Rate"
      (.header ⟨0⟩) := by
  have hrun : ((ofNode lagging).toOption.bind fun d => d.resolve "#/components/headers/Rate") =
      some (.header ⟨0⟩) := by decide +kernel
  obtain ⟨d, hd, hresolve⟩ := ofNode_of_toOption hrun
  obtain ⟨hfilled, hfinds, -⟩ := slots_hold lagging d hd
  exact ⟨d, hd, hfilled, (hfinds _ _).1 hresolve⟩

/-- The references of `lagging` lead to its header and its request body, but no slot holds them. -/
theorem exists_slot_lags : ∃ d, ofNode lagging = .ok d ∧
    d.resolve "#/components/headers/Rate" = some (.header ⟨0⟩) ∧
    d.responses.toList.map Response.headers = [[]] ∧
    d.components.toList.map (·.content.requestBody?) = [none, some ⟨0⟩, none, none] ∧
    d.operations.map (·.2.requestBody) = [none] := by
  have hrun : ((ofNode lagging).toOption.bind fun d => some <| decide <|
      d.resolve "#/components/headers/Rate" = some (.header ⟨0⟩) ∧
      d.responses.toList.map Response.headers = [[]] ∧
      d.components.toList.map (·.content.requestBody?) = [none, some ⟨0⟩, none, none] ∧
      d.operations.map (·.2.requestBody) = [none]) = some true := by decide +kernel
  obtain ⟨d, hd, he⟩ := ofNode_of_toOption hrun
  exact ⟨d, hd, of_decide_eq_true (Option.some.inj he)⟩

end Document

end ApiLint
