import ApiLint.Proofs.Slots

/-!
# What the loader builds is held once

A schema is put into one slot, and a media type into one content, of the object that it names as its
owner. This is a matter of accounts, kept for lists of `Holding`:

* `Accounts i m o`: the action `m`, run while `i` is still to be held by someone, leaves `o` of its
  result to be held; all else that it builds is held by then (`Balanced`). An action that builds a
  slot leaves the schema in it to whoever keeps the slot (`BuildsSlots`).
* `Settles m`: nothing is left. An object without an owner settles what its parts have left when it is
  completed with them (`Settles.object`).

In the end nothing is left, so a document holds what it consists of, under the names of the same
owners (`Document.held_perm_owned`).
-/

set_option autoImplicit false

namespace ApiLint

open Yaml (Node)

/-! ## What objects hold and own -/

/-- A schema or media type, and the object that holds it or is named as its owner. -/
inductive Holding where
  | schema (owner : SchemaOwner) (id : SchemaId)
  | mediaType (owner : MediaTypeOwner) (id : MediaTypeId)
  deriving DecidableEq

/-- The schema that stands in a slot itself. -/
def SchemaSlot.inline? (slot : SchemaSlot) : Option SchemaId :=
  match slot.content with
  | .inline id => some id
  | .reference _ => none

def SchemaSlot.heldBy (owner : SchemaOwner) (slot : SchemaSlot) : List Holding :=
  (slot.inline?.map (.schema owner)).toList

/-- What the slots of an object hold. -/
def heldIn (owner : SchemaOwner) (slots : List SchemaSlot) : List Holding :=
  slots.flatMap (SchemaSlot.heldBy owner)

@[simp]
theorem heldIn_nil (owner : SchemaOwner) : heldIn owner [] = [] := rfl

@[simp]
theorem heldIn_append (owner : SchemaOwner) (xs ys : List SchemaSlot) :
    heldIn owner (xs ++ ys) = heldIn owner xs ++ heldIn owner ys := List.flatMap_append

theorem heldIn_map {α : Type} (owner : SchemaOwner) (f : α → SchemaSlot) (xs : List α) :
    heldIn owner (xs.map f) = xs.flatMap fun x => (f x).heldBy owner := List.flatMap_map ..

/-- What the content of an object holds. -/
def contentIn (owner : MediaTypeOwner) (content : List (String × MediaTypeId)) : List Holding :=
  content.map fun (_, id) => .mediaType owner id

/-- The slot of a component that is a schema. -/
def ComponentContent.slots : ComponentContent → List SchemaSlot
  | .schema slot => [slot]
  | .parameter _ | .requestBody _ | .response _ | .namedExample _ | .header _ | .opaqueEntry
  | .unresolved => []

namespace Store

def all : List Store :=
  [schemas, parameters, headers, mediaTypes, namedExamples, requestBodies, responses, components]

/-- What an object holds. -/
def held : (s : Store) → s.Object → List Holding
  | .schemas, x => heldIn (.schema x.id) x.children
  | .parameters, x =>
    heldIn (.parameter x.id) x.schema.toList ++ contentIn (.parameter x.id) x.content
  | .headers, x => heldIn (.header x.id) x.schema.toList ++ contentIn (.header x.id) x.content
  | .mediaTypes, x => heldIn (.mediaType x.id) x.schema.toList
  | .requestBodies, x => contentIn (.requestBody x.id) x.content
  | .responses, x =>
    contentIn (.response x.id) x.content ++ heldIn (.response x.id) x.schema.toList
  | .components, x => heldIn (.component x.name) x.content.slots
  | .namedExamples, _ => []

/-- The object itself, under the name of its owner. -/
def owned : (s : Store) → s.Object → List Holding
  | .schemas, x => [.schema x.owner x.id]
  | .mediaTypes, x => [.mediaType x.owner x.id]
  | .parameters, _ | .headers, _ | .namedExamples, _ | .requestBodies, _ | .responses, _
  | .components, _ => []

end Store

/-- What all objects contribute. -/
def gather {α : Type} (arena : (s : Store) → Array s.Object) (f : (s : Store) → s.Object → List α) :
    List α :=
  Store.all.flatMap fun s => (arena s).toList.flatMap (f s)

/-! ## Accounts -/

namespace Draft

variable (f : (s : Store) → s.Object → List Holding) (x : Holding)

theorem count_gather_withArena (d : Draft) (s : Store) (xs : Array s.Object) :
    (gather (d.withArena s xs).arena f).count x + ((d.arena s).toList.flatMap (f s)).count x =
      (gather d.arena f).count x + (xs.toList.flatMap (f s)).count x := by
  cases s <;>
    simp only [gather, Store.all, List.flatMap_cons, List.flatMap_nil, List.count_append,
      withArena, arena] <;>
    omega

theorem count_gather_grow (d : Draft) (s : Store) (y : s.Object) (pointers : Pointers) :
    (gather (d.grow s y pointers).arena f).count x =
      (gather d.arena f).count x + (f s y).count x := by
  have h := count_gather_withArena f x { d with pointers } s ((d.arena s).push y)
  have harena : gather ({ d with pointers } : Draft).arena f = gather d.arena f := rfl
  have hs : ({ d with pointers } : Draft).arena s = d.arena s := by cases s <;> rfl
  rw [harena, hs, Array.toList_push, List.flatMap_append, List.count_append,
    List.flatMap_singleton] at h
  rw [grow]
  omega

theorem count_flatMap_modify {α : Type} (g : α → List Holding) (change : α → α) {y : α} (xs : List α)
    (n : Nat) (hy : xs[n]? = some y) :
    ((xs.modify n change).flatMap g).count x + (g y).count x =
      (xs.flatMap g).count x + (g (change y)).count x := by
  induction xs generalizing n with
  | nil => simp at hy
  | cons z xs ih =>
    cases n with
    | zero =>
      obtain rfl : z = y := by simpa using hy
      simp only [List.modify_zero_cons, List.flatMap_cons, List.count_append]
      omega
    | succ n =>
      have h := ih n (by simpa using hy)
      simp only [List.modify_succ_cons, List.flatMap_cons, List.count_append]
      omega

theorem count_gather_complete {d : Draft} {s : Store} {n : Nat} {y : s.Object}
    (hy : (d.arena s)[n]? = some y) (change : s.Object → s.Object) :
    (gather (d.complete s n change).arena f).count x + (f s y).count x =
      (gather d.arena f).count x + (f s (change y)).count x := by
  have h := count_gather_withArena f x d s ((d.arena s).modify n change)
  have hmodify := count_flatMap_modify x (f s) change (d.arena s).toList n (by simpa using hy)
  rw [Array.toList_modify] at h
  rw [complete]
  omega

end Draft

open Draft

/-- From `d`, with `i` still to be held, to `d'`, with `o` to be held. -/
structure Balanced (d d' : Draft) (i o : List Holding) : Prop where
  keeps : d.Keeps d'
  count : ∀ x, (gather d'.arena Store.held).count x + o.count x +
      (gather d.arena Store.owned).count x =
    (gather d.arena Store.held).count x + i.count x + (gather d'.arena Store.owned).count x

/-- The action, run while `i` is still to be held, leaves `o` of its result to be held. -/
structure Accounts {α : Type} (i : List Holding) (m : Loading α) (o : α → List Holding) : Prop where
  balanced : ∀ d, Balanced d (m.run d).2 i (o (m.run d).1)

/-- All that the action builds is held. -/
def Settles {α : Type} (m : Loading α) : Prop := Accounts [] m fun _ => []

namespace Accounts

variable {α β : Type} {i : List Holding} {m : Loading α} {f : α → List Holding}

theorem pure {o : α → List Holding} (a : α) : Accounts (o a) (Pure.pure a) o :=
  ⟨fun d => ⟨.refl d, fun _ => rfl⟩⟩

theorem bind {k : α → Loading β} {g : β → List Holding} (hm : Accounts i m f)
    (hk : ∀ a, Accounts (f a) (k a) g) : Accounts i (m >>= k) g := by
  refine ⟨fun d => ?_⟩
  have h := hm.balanced d
  have h' := (hk (m.run d).1).balanced (m.run d).2
  refine ⟨h.keeps.trans h'.keeps, fun x => ?_⟩
  have hx := h.count x
  have hx' := h'.count x
  change (gather ((k (m.run d).1).run (m.run d).2).2.arena Store.held).count x +
    (g ((k (m.run d).1).run (m.run d).2).1).count x + _ = _ +
      (gather ((k (m.run d).1).run (m.run d).2).2.arena Store.owned).count x
  omega

theorem map {k : α → β} {g : β → List Holding} (hm : Accounts i m fun a => g (k a)) :
    Accounts i (k <$> m) g := ⟨hm.balanced⟩

/-- What is to be held elsewhere stays so. -/
theorem carry (j : List Holding) (hm : Accounts [] m f) : Accounts j m fun a => j ++ f a := by
  refine ⟨fun d => ?_⟩
  have h := hm.balanced d
  refine ⟨h.keeps, fun x => ?_⟩
  have hx := h.count x
  rw [List.count_nil] at hx
  rw [List.count_append]
  omega

theorem mapM {k : α → Loading β} {g : β → List Holding} {xs : List α}
    (hk : ∀ y ∈ xs, Accounts [] (k y) g) : Accounts [] (xs.mapM k) fun zs => zs.flatMap g := by
  induction xs with
  | nil => exact pure (o := fun zs => zs.flatMap g) []
  | cons y xs ih =>
    have hxs := ih fun z hz => hk z (.tail _ hz)
    rw [List.mapM_cons]
    exact (hk y List.mem_cons_self).bind fun z => (hxs.carry (g z)).bind fun zs =>
      pure (o := fun zs => zs.flatMap g) (z :: zs)

/-- What only touches pointers and references settles all it builds. -/
theorem of_arena (h : ∀ d s, ((m.run d).2).arena s = d.arena s) : Settles m := by
  refine ⟨fun d => ?_⟩
  have harena : (m.run d).2.arena = d.arena := funext fun s => h d s
  refine ⟨fun s i x hx => ?_, fun x => ?_⟩
  · rw [harena]
    exact hx
  · rw [harena]

/-- An object gets its number, its parts are read, and then it is completed with them. -/
theorem object {s : Store} {o : α → List Holding} (new : Nat → s.Object)
    (fill : β → s.Object → s.Object) (result : Nat → α)
    (hrun : ∀ d, ∃ pointers body,
      let n := d.outline.count s
      Accounts [] body (fun b => s.held (fill b (new n))) ∧
      m.run d = (do
        let b ← body
        modify fun d => d.complete s n (fill b)
        return result n : Loading α).run (d.grow s (new n) pointers))
    (hnew : ∀ n, s.held (new n) = [])
    (howned : ∀ n, s.owned (new n) = o (result n))
    (hfill : ∀ n b, s.owned (fill b (new n)) = o (result n)) : Accounts [] m o := by
  refine ⟨fun d => ?_⟩
  obtain ⟨pointers, body, hbody, hrun⟩ := hrun d
  have hrun' : m.run d = (result (d.outline.count s),
      let r := body.run (d.grow s (new (d.outline.count s)) pointers)
      r.2.complete s (d.outline.count s) (fill r.1)) := hrun
  rw [hrun']
  dsimp only
  have hobject := getElem?_grow d s (new (d.outline.count s)) pointers
  have hkeeps := keeps_grow d s (new (d.outline.count s)) pointers
  have hheld := fun x => count_gather_grow Store.held x d s (new (d.outline.count s)) pointers
  have howner := fun x => count_gather_grow Store.owned x d s (new (d.outline.count s)) pointers
  have hparts := hbody.balanced (d.grow s (new (d.outline.count s)) pointers)
  generalize body.run (d.grow s (new (d.outline.count s)) pointers) = r at hparts
  replace hobject := hparts.keeps _ _ _ hobject
  refine ⟨(hkeeps.trans hparts.keeps).complete s _, fun x => ?_⟩
  have hx := hparts.count x
  have hheld' := count_gather_complete Store.held x hobject (fill r.1)
  have howner' := count_gather_complete Store.owned x hobject (fill r.1)
  rw [hfill] at howner'
  rw [howned] at howner' howner
  rw [hheld, howner] at hx
  simp only [hnew, List.count_nil] at hx hheld' ⊢
  omega

end Accounts

namespace Settles

variable {α β : Type} {m : Loading α}

/-- What is to be held elsewhere stays so. -/
theorem keep (i : List Holding) (hm : Settles m) : Accounts i m fun _ => i := by
  have h := Accounts.carry i hm
  simpa using h

theorem pure (a : α) : Settles (Pure.pure a) := Accounts.pure (o := fun _ => []) a

theorem map {k : α → β} (hm : Settles m) : Settles (k <$> m) := Accounts.map hm

theorem bind {k : α → Loading β} (hm : Settles m) (hk : ∀ a, Settles (k a)) :
    Settles (m >>= k) := Accounts.bind hm hk

theorem filterMapM {k : α → Loading (Option β)} {xs : List α} (hk : ∀ y ∈ xs, Settles (k y)) :
    Settles (xs.filterMapM k) := by
  induction xs with
  | nil => exact pure []
  | cons y xs ih =>
    have hxs := ih fun z hz => hk z (.tail _ hz)
    rw [List.filterMapM_cons]
    refine (hk y List.mem_cons_self).bind fun z => ?_
    cases z with
    | none => exact hxs
    | some z => exact hxs.map

theorem mapM {k : α → Loading β} {xs : List α} (hk : ∀ y ∈ xs, Settles (k y)) :
    Settles (xs.mapM k) := by
  have h := Accounts.mapM (g := fun _ => []) hk
  simp only [flatMap_nil_right] at h
  exact h

theorem forM {k : α → Loading Unit} {xs : List α} (hk : ∀ y ∈ xs, Settles (k y)) :
    Settles (xs.forM k) := by
  induction xs with
  | nil => exact pure ()
  | cons y xs ih =>
    exact (hk y List.mem_cons_self).bind fun _ => ih fun z hz => hk z (.tail _ hz)

theorem get : Settles (MonadState.get : Loading Draft) := Accounts.of_arena fun _ _ => rfl

end Settles

/-! ## Schemas -/

/-- The action builds slots and leaves the schemas in them to the owner given. -/
def BuildsSlots (slotOf : Loading.SlotBuilder) : Prop :=
  ∀ node origin owner name,
    Accounts [] (slotOf node origin owner name) fun slot => slot.heldBy owner

namespace Accounts

variable {slotOf : Loading.SlotBuilder} {node : Node} {location : Location} {origin : Origin}
  {owner : SchemaOwner}

theorem properties (hslot : BuildsSlots slotOf) :
    Accounts [] (Loading.properties slotOf node location owner) fun ps =>
      heldIn owner (ps.map (·.2)) := by
  unfold Loading.properties
  simp only [heldIn_map]
  split
  · exact pure (o := fun ps : List (String × SchemaSlot) => ps.flatMap fun p => p.2.heldBy owner) []
  · exact mapM (g := fun p : String × SchemaSlot => p.2.heldBy owner) fun x _ =>
      map (k := (x.1, ·)) (hslot ..)

theorem subSchema (hslot : BuildsSlots slotOf) (keyword : String) :
    Accounts [] (Loading.subSchema slotOf node location owner keyword) fun x =>
      heldIn owner (SubSchema.slots x) := by
  have hnone : ∀ x, SubSchema.slots x = [] →
      Accounts [] (Pure.pure x) fun x => heldIn owner (SubSchema.slots x) := by
    intro x hx
    have h := pure (o := fun x => heldIn owner (SubSchema.slots x)) x
    rwa [hx] at h
  unfold Loading.subSchema
  split
  · exact hnone _ rfl
  · split
    · refine (hslot _ _ owner none).bind fun slot => ?_
      have h := pure (o := fun x => heldIn owner (SubSchema.slots x)) (some (.slot slot))
      simpa [SubSchema.slots, heldIn] using h
    · exact hnone _ rfl
  · exact hnone _ rfl

/-- An optional slot for a schema. -/
theorem optional {m : Loading SchemaSlot} (hm : Accounts [] m fun slot => slot.heldBy owner) :
    Accounts [] (some <$> m) fun x : Option SchemaSlot => heldIn owner x.toList := by
  refine map (g := fun x : Option SchemaSlot => heldIn owner x.toList) ?_
  simpa [heldIn] using hm

theorem negation (hslot : BuildsSlots slotOf) :
    Accounts [] (Loading.negation slotOf node location owner) fun x : Option SchemaSlot =>
      heldIn owner x.toList := by
  unfold Loading.negation
  split
  · exact optional (hslot ..)
  · exact pure (o := fun x : Option SchemaSlot => heldIn owner x.toList) none

theorem combinator (hslot : BuildsSlots slotOf) (keyword : String) :
    Accounts [] (Loading.combinator slotOf node location owner keyword) (heldIn owner) :=
  mapM fun _ _ => hslot ..

/-- What the sub-schemas leave goes to their owner. -/
theorem subSchemas (hslot : BuildsSlots slotOf) :
    Accounts [] (Loading.subSchemas slotOf node location owner) fun p => heldIn owner p.slots := by
  have hpure := fun p : SubSchemas => pure (o := fun p => heldIn owner p.slots) p
  simp only [SubSchemas.slots, heldIn_append] at hpure ⊢
  exact (properties hslot).bind fun a => ((subSchema hslot _).carry _).bind fun b =>
    ((subSchema hslot _).carry _).bind fun c => ((negation hslot).carry _).bind fun d =>
    ((combinator hslot _).carry _).bind fun e => ((combinator hslot _).carry _).bind fun f =>
    ((combinator hslot _).carry _).bind fun g => hpure ⟨a, b, c, d, e, f, g⟩

/-- A schema is left to its owner. -/
theorem schema (hslot : BuildsSlots slotOf) (name : Option String) (registered : Bool) :
    Accounts [] (Loading.schema slotOf node origin owner name registered) fun id =>
      [.schema owner id] := by
  refine object (s := .schemas) (fun n => Loading.bareSchema ⟨n⟩ node origin owner name)
    (fun p s => s.withSubSchemas p) (fun n => ⟨n⟩) (fun d => ?_) (fun n => rfl) (fun n => rfl)
    fun n p => rfl
  refine ⟨if registered then d.pointers.register origin.location.pointer (.schema ⟨d.schemas.size⟩)
    else d.pointers, Loading.subSchemas slotOf node origin.location (.schema ⟨d.schemas.size⟩),
    ?_, ?_⟩
  · simp only [Store.held, Schema.children_withSubSchemas]
    exact subSchemas hslot
  · cases registered <;> rfl

end Accounts

theorem Settles.reference (text : String) (origin : Origin) :
    Settles (Loading.reference text origin) :=
  Accounts.of_arena fun _ s => by cases s <;> rfl

theorem Settles.register (location : Location) (target : Target) :
    Settles (Loading.register location target) :=
  Accounts.of_arena fun _ s => by cases s <;> rfl

theorem buildsSlots_slotWithin (size : Nat) : BuildsSlots (Loading.slotWithin size) := by
  induction size with
  | zero =>
    exact fun _ origin owner _ =>
      Accounts.pure (o := (SchemaSlot.heldBy owner ·)) ⟨.reference "", origin⟩
  | succ size ih =>
    intro node origin owner name
    unfold Loading.slotWithin
    cases node.reference? with
    | some text =>
      exact Accounts.bind (Settles.reference text origin) fun _ =>
        Accounts.pure (o := (SchemaSlot.heldBy owner ·)) ⟨.reference text, origin⟩
    | none =>
      exact (Accounts.schema ih name true).bind fun id =>
        Accounts.pure (o := (SchemaSlot.heldBy owner ·)) ⟨.inline id, origin⟩

theorem buildsSlots_slot : BuildsSlots Loading.slot := fun node =>
  buildsSlots_slotWithin node.size node

namespace Accounts

variable {node : Node} {location : Location} {origin : Origin} {owner : SchemaOwner}

theorem schemaField (name : Option String) :
    Accounts [] (Loading.schemaField node location owner name) fun x => heldIn owner x.toList := by
  unfold Loading.schemaField
  split
  · exact optional (buildsSlots_slot ..)
  · exact pure (o := fun x : Option SchemaSlot => heldIn owner x.toList) none

theorem selfSchema (name : String) :
    Accounts [] (Loading.selfSchema node origin owner name) fun slot => slot.heldBy owner :=
  (schema (buildsSlots_slotWithin node.size) (some name) false).bind fun id =>
    pure (o := (SchemaSlot.heldBy owner ·)) ⟨.inline id, origin⟩

end Accounts

/-! ## Examples and media types -/

section
variable {node : Node} {origin : Origin} {location : Location} {α β : Type}

/-- A slot builds an object, or follows a reference. -/
theorem Settles.slotAs {m : Loading β} {k : Option Target → Loading (Option β)}
    (hk : ∀ t, Settles (k t)) (hm : Settles m) :
    Settles (match node.reference? with
      | some text => Loading.reference text origin >>= k
      | none => some <$> m) := by
  split
  · exact (reference _ origin).bind hk
  · exact hm.map

/-- A slot builds an object, or looks a reference up among what is there. -/
theorem Settles.slotByComponent {m : Loading β} {k : String → Draft → Loading (Option β)}
    (hk : ∀ text d, Settles (k text d)) (hm : Settles m) :
    Settles (match node.reference? with
      | some text => do
        let _ ← Loading.reference text origin
        k text (← MonadState.get)
      | none => some <$> m) := by
  split
  · exact (reference _ origin).bind fun _ => get.bind fun d => hk _ d
  · exact hm.map

/-- An object without an owner leaves nothing. -/
theorem Settles.object {s : Store} {m : Loading α} (hs : ∀ x : s.Object, s.owned x = [])
    (new : Nat → s.Object) (fill : β → s.Object → s.Object) (result : Nat → α)
    (hrun : ∀ d, ∃ pointers body,
      let n := d.outline.count s
      Accounts [] body (fun b => s.held (fill b (new n))) ∧
      m.run d = (do
        let b ← body
        modify fun d => d.complete s n (fill b)
        return result n : Loading α).run (d.grow s (new n) pointers))
    (hnew : ∀ n, s.held (new n) = []) : Settles m :=
  Accounts.object (o := fun _ => []) new fill result hrun hnew (fun _ => hs _) fun _ _ => hs _

theorem Settles.namedExample (name : String) : Settles (Loading.namedExample name node origin) := by
  refine object (s := .namedExamples) (fun _ => rfl)
    (fun n => {
      id := ⟨n⟩, origin, name
      summary := node.textAt? "summary"
      description := node.textAt? "description"
      value := node.get? "value"
      externalValue := node.textAt? "externalValue" })
    (fun (_ : Unit) x => x) NamedExampleId.mk (fun d => ?_) fun n => rfl
  exact ⟨_, Pure.pure (), pure (), congrArg (Prod.mk _) (complete_id ..).symm⟩

theorem Settles.exampleSlot (name : String) : Settles (Loading.exampleSlot name node origin) :=
  slotAs (fun t => by split <;> exact pure _) (namedExample name)

/-- The slots in the entries of a member. -/
theorem Settles.slotEntries {f : String → Node → Origin → Loading (Option β)} {field : String}
    (hf : ∀ name value origin, Settles (f name value origin)) :
    Settles (match node.get? field with
      | none => Pure.pure []
      | some map => map.fields.filterMapM fun (name, key, value) => do
        return (← f name value (Origin.ofEntry ((location.field field).key name) key value)).map
          (name, ·)) := by
  split
  · exact pure []
  · exact filterMapM fun x _ => (hf x.1 x.2.2 _).map

theorem Settles.namedExamples : Settles (Loading.namedExamples node location) :=
  slotEntries (f := Loading.exampleSlot) fun _ _ _ => exampleSlot _

/-- The schema and the examples of a media type. -/
abbrev MediaTypeParts := Option SchemaSlot × List (String × NamedExampleId)

/-- A media type is left to its owner. -/
theorem Accounts.mediaType (name : String) (owner : MediaTypeOwner) :
    Accounts [] (Loading.mediaType name node origin owner) fun id => [.mediaType owner id] := by
  refine object (s := .mediaTypes)
    (fun n => { id := ⟨n⟩, origin, name, owner, exampleValue := node.get? "example" })
    (fun (b : MediaTypeParts) (m : MediaType) => { m with schema := b.1, namedExamples := b.2 })
    MediaTypeId.mk (fun d => ?_) (fun n => rfl) (fun n => rfl) fun n b => rfl
  refine ⟨_, do
    let schema ← Loading.schemaField node origin.location (.mediaType ⟨d.mediaTypes.size⟩) none
    let namedExamples ← Loading.namedExamples node origin.location
    return (schema, namedExamples), ?_, rfl⟩
  exact (schemaField none).bind fun schema => (Settles.namedExamples.keep _).bind fun examples =>
    pure (o := fun b : MediaTypeParts => heldIn _ b.1.toList) (schema, examples)

/-- The media types of a content are left to its owner. -/
theorem Accounts.content (owner : MediaTypeOwner) :
    Accounts [] (Loading.content node location owner) (contentIn owner) := by
  unfold Loading.content
  split
  · exact pure (o := contentIn owner) []
  · have hcontent : contentIn owner = fun content => content.flatMap fun x =>
        [.mediaType owner x.2] := funext fun content => List.map_eq_flatMap
    rw [hcontent]
    exact mapM fun x _ => map (g := fun y : String × MediaTypeId => [.mediaType owner y.2])
      (k := (x.1, ·)) (mediaType x.1 owner)

/-! ## Parameters and headers -/

/-- The schema, the examples and the content of a parameter or header. -/
abbrev ParameterParts :=
  Option SchemaSlot × List (String × NamedExampleId) × List (String × MediaTypeId)

/-- The parts of a parameter or header leave its schema and its content to it. -/
theorem Accounts.parameterParts (p : Place) (isSchema : Bool) (owner : SchemaOwner)
    (owner' : MediaTypeOwner) (title : String) :
    Accounts [] (Follows.parameterParts p isSchema owner owner' title) fun parts =>
      heldIn owner parts.1.toList ++ contentIn owner' parts.2.2 := by
  have hrest : ∀ schema : Option SchemaSlot, Accounts (heldIn owner schema.toList) (do
      let namedExamples ← Loading.namedExamples p.node p.location
      let content ← Loading.content p.node p.location owner'
      return (schema, namedExamples, content)) fun parts =>
        heldIn owner parts.1.toList ++ contentIn owner' parts.2.2 :=
    fun schema => (Settles.namedExamples.keep _).bind fun examples =>
      ((content owner').carry _).bind fun content => pure (o := fun parts : ParameterParts =>
        heldIn owner parts.1.toList ++ contentIn owner' parts.2.2) (schema, examples, content)
  unfold Follows.parameterParts
  cases isSchema with
  | true => exact (optional (selfSchema title)).bind hrest
  | false => exact (schemaField (some title)).bind hrest

namespace Settles

theorem parameter : Settles (Loading.parameter node origin) := by
  refine object (s := .parameters) (fun _ => rfl) (Follows.bareParameter node origin)
    (fun (parts : ParameterParts) (x : Parameter) => { x with
      schema := parts.1
      namedExamples := parts.2.1
      content := parts.2.2 }) ParameterId.mk (fun d => ?_) fun n => rfl
  set isSchema := d.version == .swagger2 && node.textAt? "in" != some "body" &&
    node.hasKey "type" && !node.hasKey "schema" with hself
  have hbind := Follows.parameterParts_bind hself.symm ⟨.parameter, "", node, origin⟩
    (.parameter ⟨d.parameters.size⟩) (.parameter ⟨d.parameters.size⟩)
    ((node.textAt? "name").getD "") fun schema namedExamples content => do
      modify fun d' => complete d' .parameters d.parameters.size fun x =>
        { x with schema, namedExamples, content }
      return ParameterId.mk d.parameters.size
  set pointers := d.pointers.register origin.location.pointer (.parameter ⟨d.parameters.size⟩)
  refine ⟨pointers, Follows.parameterParts ⟨.parameter, "", node, origin⟩ isSchema
    (.parameter ⟨d.parameters.size⟩) (.parameter ⟨d.parameters.size⟩)
    ((node.textAt? "name").getD ""), Accounts.parameterParts .., ?_⟩
  exact congrArg (·.run
    (d.grow .parameters (Follows.bareParameter node origin d.parameters.size) pointers)) hbind

theorem parameterSlot : Settles (Loading.parameterSlot node origin) :=
  slotAs (fun t => by split <;> exact pure _) parameter

theorem header (name : String) : Settles (Loading.header name node origin) := by
  refine object (s := .headers) (fun _ => rfl) (Follows.bareHeader name node origin)
    (fun (parts : ParameterParts) (x : Header) => { x with
      schema := parts.1
      namedExamples := parts.2.1
      content := parts.2.2 }) HeaderId.mk (fun d => ?_) fun n => rfl
  set isSchema := d.version == .swagger2 && node.hasKey "type" && !node.hasKey "schema" with hself
  have hbind := Follows.parameterParts_bind hself.symm ⟨.header, "", node, origin⟩
    (.header ⟨d.headers.size⟩) (.header ⟨d.headers.size⟩) name
    fun schema namedExamples content => do
      modify fun d' => complete d' .headers d.headers.size fun x =>
        { x with schema, namedExamples, content }
      return HeaderId.mk d.headers.size
  set pointers := d.pointers.register origin.location.pointer (.header ⟨d.headers.size⟩)
  refine ⟨pointers, Follows.parameterParts ⟨.header, "", node, origin⟩ isSchema
    (.header ⟨d.headers.size⟩) (.header ⟨d.headers.size⟩) name, Accounts.parameterParts .., ?_⟩
  exact congrArg (·.run
    (d.grow .headers (Follows.bareHeader name node origin d.headers.size) pointers)) hbind

theorem headerSlot (name : String) : Settles (Loading.headerSlot name node origin) :=
  slotAs (fun t => by split <;> exact pure _) (header name)

/-! ## Request bodies and responses -/

theorem requestBody : Settles (Loading.requestBody node origin) :=
  object (s := .requestBodies) (fun _ => rfl)
    (fun n => {
      id := ⟨n⟩, origin
      description := node.textAt? "description"
      required := (node.flagAt? "required").getD false })
    (fun content (x : RequestBody) => { x with content }) RequestBodyId.mk
    (fun d => ⟨d.pointers, Loading.content node origin.location (.requestBody ⟨d.requestBodies.size⟩),
      Accounts.content _, rfl⟩) fun _ => rfl

theorem requestBodySlot : Settles (Loading.requestBodySlot node origin) :=
  slotByComponent (fun text d => by split <;> exact pure _) requestBody

theorem responseHeaders : Settles (Loading.responseHeaders node location) :=
  slotEntries (f := Loading.headerSlot) fun _ _ _ => headerSlot _

end Settles

/-- The parts of a response leave its content and its schema to it. -/
theorem Accounts.responseParts (p : Place) (r : Response) :
    Accounts [] (Follows.responseParts p r.id.index) fun f => Store.held .responses (f r) := by
  have hschema : ∀ isOld, Accounts [] (Follows.responseSchema p isOld r.id.index) fun x =>
      heldIn (.response r.id) x.toList := by
    intro isOld
    unfold Follows.responseSchema
    cases isOld with
    | true => exact schemaField none
    | false => exact pure (o := fun x : Option SchemaSlot => heldIn _ x.toList) none
  exact bind Settles.responseHeaders fun headers => (content _).bind fun content =>
    (Settles.get.keep _).bind fun d => ((hschema _).carry _).bind fun schema =>
      pure (o := fun f : Response → Response => Store.held .responses (f r))
        fun x => { x with headers, content, schema }

namespace Settles

theorem response : Settles (Loading.response node origin) := by
  set new : Nat → Response := fun n =>
    { id := ⟨n⟩, origin, description := node.textAt? "description" }
  refine object (s := .responses) (fun _ => rfl) new (fun (f : Response → Response) x => f x)
    ResponseId.mk (fun d => ?_) fun _ => rfl
  have hbind := Follows.responseParts_bind ⟨.response, "", node, origin⟩ d.responses.size
    fun headers content schema => do
      modify fun d' => complete d' .responses d.responses.size fun r =>
        { r with headers, content, schema }
      return ResponseId.mk d.responses.size
  refine ⟨d.pointers, Follows.responseParts ⟨.response, "", node, origin⟩ d.responses.size,
    Accounts.responseParts _ (new d.responses.size), ?_⟩
  exact congrArg (·.run (d.grow .responses (new d.responses.size) d.pointers)) hbind

theorem responseSlot : Settles (Loading.responseSlot node origin) :=
  slotByComponent (fun text d => by split <;> exact pure _) response

end Settles

/-! ## Components -/

/-- What a component entry is leaves its schema to the component. -/
theorem Accounts.componentContent (kind : ComponentKind) (name : String) (index : Nat) :
    Accounts [] (Loading.componentContent kind name index node origin) fun content =>
      heldIn (.component name) content.slots := by
  have hother : ∀ {α : Type} {m : Loading α} (k : α → ComponentContent), Settles m →
      (∀ a, (k a).slots = []) → Accounts [] (k <$> m) fun content =>
        heldIn (.component name) content.slots := by
    intro α m k hm hk
    refine map (g := fun content : ComponentContent => heldIn _ content.slots) ?_
    simp only [hk]
    exact hm
  unfold Loading.componentContent
  split
  · refine map (g := fun content : ComponentContent => heldIn _ content.slots) ?_
    simpa [ComponentContent.slots, heldIn] using buildsSlots_slot node origin _ _
  · exact hother (fun _ => .unresolved) (.reference _ origin) fun _ => rfl
  · exact hother _ .parameter fun _ => rfl
  · exact hother _ .requestBody fun _ => rfl
  · exact hother _ .response fun _ => rfl
  · exact hother _ (.namedExample name) fun _ => rfl
  · exact hother _ (.header name) fun _ => rfl
  · exact hother (fun _ => .opaqueEntry) (.register _ _) fun _ => rfl
  · exact hother (fun _ => .opaqueEntry) (.register _ _) fun _ => rfl

/-- A component is added with what it is to hold. -/
theorem Accounts.push (c : Component) :
    Accounts (Store.held .components c)
      (modify fun d => { d with components := d.components.push c }) fun _ => [] := by
  refine ⟨fun d => ⟨keeps_grow d .components c d.pointers, fun x => ?_⟩⟩
  have hheld := count_gather_grow Store.held x d .components c d.pointers
  have howned := count_gather_grow Store.owned x d .components c d.pointers
  change (gather (d.grow .components c d.pointers).arena Store.held).count x + _ + _ =
    _ + _ + (gather (d.grow .components c d.pointers).arena Store.owned).count x
  rw [hheld, howned]
  simp [Store.owned]

namespace Settles

theorem component (kind : ComponentKind) (name : String) :
    Settles (Loading.component kind name node origin) :=
  Accounts.bind get fun d => (Accounts.componentContent kind name d.components.size).bind
    fun content => Accounts.push
      ⟨kind, name, origin, node.textAt? "description", node.reference?, content⟩

theorem section_ (kind : ComponentKind) (base : Location) (field : String) :
    Settles (Loading.section_ kind node base field) := by
  unfold Loading.section_
  split
  · exact pure ()
  · exact forM fun x _ => component kind x.1

theorem components (root : Node) : Settles (Loading.components root) := by
  unfold Loading.components
  refine get.bind fun d => ?_
  split
  · exact forM fun x _ => section_ x.2 .root x.1
  · split
    · exact pure ()
    · exact forM fun kind _ => section_ kind _ kind.name

/-! ## Paths -/

theorem parametersList : Settles (Loading.parametersList node location) :=
  filterMapM fun _ _ => parameterSlot

theorem operationResponses : Settles (Loading.operationResponses node location) :=
  slotEntries (f := fun _ => Loading.responseSlot) fun _ _ _ => responseSlot

theorem operation (p : Place) : Settles (Loading.operation p.name p.node p.origin) := by
  have hbody : Settles (Follows.requestBodyOf p) := by
    unfold Follows.requestBodyOf
    split
    · exact requestBodySlot
    · exact pure none
  rw [Follows.operation_eq]
  exact parametersList.bind fun _ => hbody.bind fun _ => operationResponses.bind fun _ => pure _

theorem pathItem (template : String) : Settles (Loading.pathItem template node origin) :=
  parametersList.bind fun _ =>
    (mapM fun x _ => operation ⟨.operation, x.1, x.2.2, _⟩).bind fun _ => pure _

theorem paths (root : Node) : Settles (Loading.paths root) := by
  unfold Loading.paths
  split
  · exact pure []
  · exact mapM fun x _ => pathItem x.1

end Settles

end

/-! ## Documents -/

namespace Document

/-- Following a component's reference changes nothing that it holds. -/
theorem held_followed (pointers : Pointers) (c : Component) :
    Store.held .components (followed pointers c) = Store.held .components c := by
  obtain ⟨kind, name, origin, description, reference, content⟩ := c
  unfold followed
  cases reference with
  | none => rfl
  | some text =>
    cases content
    case schema => rfl
    all_goals
      simp only [Store.held]
      rcases pointers.resolve text with _ | _ | _ | _ | _ | _ | _ | _ <;> rfl

/-- What all objects contribute, if following a component's reference does not change it. -/
theorem gather_ofDraft {α : Type} {f : (s : Store) → s.Object → List α}
    (hf : ∀ pointers c, f .components (followed pointers c) = f .components c) (root : Node)
    (version : String) (paths : List PathItem) (draft : Draft) :
    gather (ofDraft root version paths draft).arena f = gather draft.arena f := by
  refine List.flatMap_congr fun s _ => ?_
  cases s
  case components =>
    change (draft.components.map (followed draft.pointers)).toList.flatMap _ = _
    rw [Array.toList_map, List.flatMap_map]
    exact List.flatMap_congr fun c _ => hf ..
  all_goals rfl

/-- **Each schema and each media type is held once**, by the object that it names as its owner. -/
theorem held_perm_owned {root : Node} {d : Document} (h : ofNode root = .ok d) :
    (gather d.arena Store.held).Perm (gather d.arena Store.owned) := by
  obtain ⟨version, hd⟩ := ofNode_eq_ok h
  dsimp only at hd
  set d₀ : Draft := { version := SpecVersion.ofText version }
  have hstart : ∀ f : (s : Store) → s.Object → List Holding, gather d₀.arena f = [] := fun f => rfl
  have hbalanced := ((Settles.components root).bind fun _ => Settles.paths root).balanced d₀
  change Balanced d₀ ((Loading.paths root).run ((Loading.components root).run d₀).2).2 [] []
    at hbalanced
  rw [hd, gather_ofDraft held_followed, gather_ofDraft fun _ _ => rfl, List.perm_iff_count]
  intro x
  have hx := hbalanced.count x
  simpa only [hstart, List.count_nil, Nat.add_zero, Nat.zero_add] using hx

end Document

end ApiLint
