import ApiLint.Proofs.BoundedSearch
import ApiLint.Schema.Walk

/-!
# What a walk lists

A walk is a depth-first search that never enters a schema twice and stops a bounded number of
levels below each root. `WalkTrace` is the same search with two more notes: how many levels were
left at each schema when it was met, and which slots were dropped for lack of levels.

* **What is met** (`WalkTrace.met_walk`): the trace is that of a `BoundedSearch` of the schemas by
  name, so `BoundedSearch.mem_run_iff` says what it meets.
* **What is dropped** (`WalkTrace.drops_walk`): the slots of the schemas at which the walk stops.
* **The list** (`Walk.Inv`): of the schemas met, one for each key position is listed.
-/

set_option autoImplicit false

namespace ApiLint

open Yaml (Mark)

/-! ## Routes -/

namespace Document

/-- `s` stands `n` slots of sub-schemas below a root; the schemas on the way to it are `through`. -/
inductive Reaches (d : Document) (through : Schema → Prop) : Nat → Schema → Prop
  | root {slot : SchemaSlot} {s : Schema} :
      slot ∈ d.schemaRoots → d.slotSchema? slot = some s → Reaches d through 0 s
  | child {n : Nat} {s t : Schema} {slot : SchemaSlot} :
      Reaches d through n s → through s → slot ∈ s.children → d.slotSchema? slot = some t →
      Reaches d through (n + 1) t

theorem Reaches.mono {d : Document} {p q : Schema → Prop} {n : Nat} {s : Schema}
    (hpq : ∀ s, p s → q s) (h : d.Reaches p n s) : d.Reaches q n s := by
  induction h with
  | root hm hs => exact .root hm hs
  | child _ hp hm hs ih => exact .child ih (hpq _ hp) hm hs

/-- Every schema is named by its position. -/
def SchemasNamed (d : Document) : Prop :=
  ∀ (i : Nat) (s : Schema), d.schemas[i]? = some s → s.id = ⟨i⟩

theorem SchemasNamed.schema?_id {d : Document} (hd : d.SchemasNamed) {id : SchemaId} {s : Schema}
    (h : d.schema? id = some s) : s.id = id := hd _ _ h

theorem SchemasNamed.schema?_of_slot {d : Document} (hd : d.SchemasNamed) {slot : SchemaSlot}
    {s : Schema} (h : d.slotSchema? slot = some s) : d.schema? s.id = some s := by
  obtain ⟨id, -, hs⟩ := Option.bind_eq_some_iff.1 h
  rw [hd.schema?_id hs, hs]

theorem SchemasNamed.schema?_of_mem {d : Document} (hd : d.SchemasNamed) {s : Schema}
    (h : s ∈ d.schemas) : d.schema? s.id = some s := by
  obtain ⟨i, hi⟩ := Array.mem_iff_getElem?.1 h
  have hs : d.schema? ⟨i⟩ = some s := hi
  rw [hd.schema?_id hs, hs]

theorem SchemasNamed.schema?_of_mem_filterMap {d : Document} (hd : d.SchemasNamed)
    {ids : List SchemaId} {s : Schema} (h : s ∈ ids.filterMap d.schema?) :
    d.schema? s.id = some s := by
  obtain ⟨id, -, hs⟩ := List.mem_filterMap.1 h
  rw [hd.schema?_id hs, hs]

/-! ## Routes by name -/

section
variable (d : Document)

/-- The names of the schemas that the slots hold or lead to. -/
def slotIds (slots : List SchemaSlot) : List SchemaId :=
  slots.flatMap fun slot => ((d.slotSchema? slot).map Schema.id).toList

/-- The names of the children of the schema with a name. -/
def childIds (id : SchemaId) : List SchemaId :=
  (d.schema? id).toList.flatMap fun s => d.slotIds s.children

end

variable {d : Document}

theorem slotIds_singleton (slot : SchemaSlot) :
    d.slotIds [slot] = ((d.slotSchema? slot).map Schema.id).toList := List.flatMap_singleton _ _

theorem slotIds_cons (slot : SchemaSlot) (slots : List SchemaSlot) :
    d.slotIds (slot :: slots) = d.slotIds [slot] ++ d.slotIds slots := by
  rw [slotIds_singleton]
  exact List.flatMap_cons

theorem mem_slotIds {slots : List SchemaSlot} {id : SchemaId} :
    id ∈ d.slotIds slots ↔ ∃ slot ∈ slots, ∃ s, d.slotSchema? slot = some s ∧ s.id = id := by
  simp [slotIds]

theorem childIds_eq {s : Schema} (hs : d.schema? s.id = some s) :
    d.childIds s.id = d.slotIds s.children := by
  simp [childIds, hs]

theorem schema?_of_reaches (hd : d.SchemasNamed) {through : Schema → Prop} {n : Nat} {s : Schema}
    (h : d.Reaches through n s) : d.schema? s.id = some s := by
  cases h with
  | root _ hs => exact hd.schema?_of_slot hs
  | child _ _ _ hs => exact hd.schema?_of_slot hs

/-- Routes between names are routes between schemas. -/
theorem reaches_ids_iff (hd : d.SchemasNamed) {through : SchemaId → Prop} {n : Nat}
    {id : SchemaId} :
    BoundedSearch.Reaches d.childIds through (d.slotIds d.schemaRoots) n id ↔
      ∃ s, s.id = id ∧ d.Reaches (fun u => through u.id) n s := by
  constructor
  · intro h
    induction h with
    | root ha =>
      obtain ⟨slot, hm, s, hs, hid⟩ := mem_slotIds.1 ha
      exact ⟨s, hid, .root hm hs⟩
    | step _ hthrough hb ih =>
      obtain ⟨s, rfl, hreach⟩ := ih
      rw [childIds_eq (schema?_of_reaches hd hreach)] at hb
      obtain ⟨slot, hm, t, ht, hid⟩ := mem_slotIds.1 hb
      exact ⟨t, hid, .child hreach hthrough hm ht⟩
  · rintro ⟨s, rfl, h⟩
    induction h with
    | root hm hs => exact .root (mem_slotIds.2 ⟨_, hm, _, hs, rfl⟩)
    | child hreach hthrough hm ht ih =>
      refine .step ih hthrough ?_
      rw [childIds_eq (schema?_of_reaches hd hreach)]
      exact mem_slotIds.2 ⟨_, hm, _, ht, rfl⟩

end Document

/-! ## The search with notes -/

structure WalkTrace where
  /-- The schemas met and the levels left at each, latest first. -/
  met : List (SchemaId × Nat) := []
  /-- The slots for which no level was left. -/
  dropped : List SchemaSlot := []

namespace WalkTrace

def ids (t : WalkTrace) : List SchemaId := t.met.map (·.1)

def slot (d : Document) : Nat → WalkTrace → SchemaSlot → WalkTrace
  | 0, t, s => { t with dropped := s :: t.dropped }
  | levels + 1, t, s =>
    match d.slotSchema? s with
    | none => t
    | some schema =>
      if t.ids.contains schema.id then t
      else schema.children.foldl (slot d levels) { t with met := (schema.id, levels) :: t.met }

end WalkTrace

/-- The walk of a document with its notes. -/
def Document.walkTrace (d : Document) : WalkTrace :=
  d.schemaRoots.foldl (WalkTrace.slot d (Walk.maxDepth + 1)) {}

namespace WalkTrace

variable {d : Document}

theorem visited_slot (levels : Nat) (s : SchemaSlot) {w : Walk} {t : WalkTrace}
    (h : w.visited = t.ids) : (Walk.slot d levels w s).visited = (slot d levels t s).ids := by
  induction levels generalizing w t s with
  | zero => exact h
  | succ levels ih =>
    unfold Walk.slot slot
    cases d.slotSchema? s with
    | none => exact h
    | some schema =>
      rw [h]
      by_cases hm : t.ids.contains schema.id = true
      · simp only [hm, ↓reduceIte]
        exact h
      · simp only [hm, Bool.false_eq_true, ↓reduceIte]
        refine List.foldl_rel (r := fun (w : Walk) (t : WalkTrace) => w.visited = t.ids) ?_
          fun s _ _ _ h => ih s h
        unfold Walk.visit
        split <;> simp [ids, h]

/-- The trace meets the schemas that the walk visits. -/
theorem visited_walk (d : Document) :
    (d.schemaRoots.foldl (Walk.slot d (Walk.maxDepth + 1)) {}).visited = d.walkTrace.ids :=
  List.foldl_rel (r := fun (w : Walk) (t : WalkTrace) => w.visited = t.ids) rfl
    fun s _ _ _ h => visited_slot _ s h

/-! ## What is met -/

theorem met_foldl {levels : Nat}
    (hslot : ∀ t s, (slot d levels t s).met =
      (d.slotIds [s]).foldl (BoundedSearch.visit d.childIds levels) t.met)
    (t : WalkTrace) (slots : List SchemaSlot) :
    (slots.foldl (slot d levels) t).met =
      (d.slotIds slots).foldl (BoundedSearch.visit d.childIds levels) t.met := by
  induction slots generalizing t with
  | nil => rfl
  | cons s slots ih => rw [List.foldl_cons, ih, hslot, ← List.foldl_append, ← Document.slotIds_cons]

/-- The trace meets the schemas that a bounded search meets. -/
theorem met_slot (hd : d.SchemasNamed) (levels : Nat) (t : WalkTrace) (s : SchemaSlot) :
    (slot d levels t s).met =
      (d.slotIds [s]).foldl (BoundedSearch.visit d.childIds levels) t.met := by
  induction levels generalizing t s with
  | zero =>
    rw [Document.slotIds_singleton]
    cases d.slotSchema? s <;> rfl
  | succ levels ih =>
    rw [Document.slotIds_singleton]
    unfold slot
    cases hs : d.slotSchema? s with
    | none => rfl
    | some schema =>
      have hiff : t.ids.contains schema.id = true ↔ schema.id ∈ t.met.map Prod.fst :=
        List.contains_iff_mem
      simp only [Option.map_some, Option.toList_some, List.foldl_cons, List.foldl_nil]
      unfold BoundedSearch.visit
      by_cases hmet : schema.id ∈ t.met.map Prod.fst
      · rw [if_pos hmet, if_pos (hiff.2 hmet)]
      · rw [if_neg hmet, if_neg (mt hiff.1 hmet), met_foldl ih,
          Document.childIds_eq (hd.schema?_of_slot hs)]

theorem met_walk (hd : d.SchemasNamed) :
    d.walkTrace.met = BoundedSearch.run d.childIds Walk.maxDepth (d.slotIds d.schemaRoots) :=
  met_foldl (met_slot hd _) _ _

/-! ## What is dropped -/

theorem foldl_slot_zero (t : WalkTrace) (slots : List SchemaSlot) :
    slots.foldl (slot d 0) t = { t with dropped := slots.reverse ++ t.dropped } := by
  induction slots generalizing t with
  | nil => rfl
  | cons s slots ih => rw [List.foldl_cons, ih, slot, List.reverse_cons, List.append_assoc]; rfl

/-- The slots of a schema met where no level was left are dropped. -/
def Drops (d : Document) (t : WalkTrace) : Prop :=
  ∀ s, d.schema? s.id = some s → (s.id, 0) ∈ t.met → s.children ⊆ t.dropped

theorem drops_slot (hd : d.SchemasNamed) (levels : Nat) (t : WalkTrace) (s : SchemaSlot)
    (ht : Drops d t) : Drops d (slot d levels t s) := by
  induction levels generalizing t s with
  | zero => exact fun u hu hmet c hc => .tail _ (ht u hu hmet hc)
  | succ levels ih =>
    unfold slot
    cases hs : d.slotSchema? s with
    | none => exact ht
    | some schema =>
      by_cases hmet : t.ids.contains schema.id = true
      · simp only [hmet, ↓reduceIte]
        exact ht
      simp only [hmet, Bool.false_eq_true, ↓reduceIte]
      cases levels with
      | zero =>
        rw [foldl_slot_zero]
        intro u hu hmem
        rcases List.mem_cons.1 hmem with heq | hmem
        · rw [(Prod.mk.inj heq).1, hd.schema?_of_slot hs, Option.some.injEq] at hu
          subst hu
          exact fun c hc => List.mem_append_left _ (List.mem_reverse.2 hc)
        · exact fun c hc => List.mem_append_right _ (ht u hu hmem hc)
      | succ levels =>
        refine List.foldlRecOn (motive := Drops d) _ _ (fun u hu hmem => ?_) fun t h s _ => ih t s h
        exact ht u hu ((List.mem_cons.1 hmem).resolve_left fun heq => by simp at heq)

/-- The walk stops short only where it drops slots. -/
theorem drops_walk (hd : d.SchemasNamed) : Drops d d.walkTrace :=
  List.foldlRecOn (motive := Drops d) _ _ (fun _ _ hmem => absurd hmem List.not_mem_nil)
    fun t h s _ => drops_slot hd _ t s h

end WalkTrace

/-! ## What is listed -/

namespace Walk

variable {d : Document}

/-- A property of walks that is kept where a schema is visited for the first time. -/
theorem slot_keeps (hd : d.SchemasNamed) {P : Walk → Prop}
    (hP : ∀ w s, d.schema? s.id = some s → s.id ∉ w.visited → P w → P (w.visit s))
    (levels : Nat) (w : Walk) (s : SchemaSlot) (h : P w) : P (slot d levels w s) := by
  induction levels generalizing w s with
  | zero => exact h
  | succ levels ih =>
    unfold slot
    cases hs : d.slotSchema? s with
    | none => exact h
    | some schema =>
      by_cases hm : w.visited.contains schema.id = true
      · simp only [hm, ↓reduceIte]
        exact h
      · simp only [hm, Bool.false_eq_true, ↓reduceIte]
        refine List.foldlRecOn (motive := P) _ _ ?_ fun w h s _ => ih w s h
        exact hP w schema (hd.schema?_of_slot hs) (by simpa using hm) h

/-- The schemas listed were visited; they stand at the keys seen, one at each; and a schema
visited stands at a key seen. -/
structure Inv (d : Document) (w : Walk) : Prop where
  nodup : w.visited.Nodup
  listed : w.listed.Sublist w.visited
  known : ∀ id ∈ w.visited, ∃ s, d.schema? id = some s ∧ s.position ∈ w.seen
  seen : w.seen = (w.listed.filterMap d.schema?).map Schema.position
  positions : w.seen.Nodup

theorem Inv.visit {w : Walk} {s : Schema} (h : Inv d w) (hs : d.schema? s.id = some s)
    (hnew : s.id ∉ w.visited) : Inv d (w.visit s) := by
  unfold Walk.visit
  by_cases hseen : w.seen.contains s.position = true
  · simp only [hseen, ↓reduceIte]
    refine ⟨List.nodup_cons.2 ⟨hnew, h.nodup⟩, h.listed.cons _, fun id hid => ?_, h.seen,
      h.positions⟩
    rcases List.mem_cons.1 hid with rfl | hid
    · exact ⟨s, hs, by simpa using hseen⟩
    · exact h.known id hid
  · simp only [hseen, Bool.false_eq_true, ↓reduceIte]
    refine ⟨List.nodup_cons.2 ⟨hnew, h.nodup⟩, h.listed.cons_cons _, fun id hid => ?_, ?_,
      List.nodup_cons.2 ⟨by simpa using hseen, h.positions⟩⟩
    · rcases List.mem_cons.1 hid with rfl | hid
      · exact ⟨s, hs, List.mem_cons_self⟩
      · obtain ⟨t, ht, hpos⟩ := h.known id hid
        exact ⟨t, ht, .tail _ hpos⟩
    · simp [hs, h.seen]

theorem inv_walk (hd : d.SchemasNamed) :
    Inv d (d.schemaRoots.foldl (slot d (maxDepth + 1)) {}) := by
  refine List.foldlRecOn (motive := Inv d) _ _ ⟨List.nodup_nil, .slnil, by simp, rfl, List.nodup_nil⟩
    fun w h s _ => ?_
  exact slot_keeps hd (fun w s hs hnew h => h.visit hs hnew) _ w s h

end Walk

namespace Document

variable {d : Document}

/-- **Every schema met stands at the key of one that is listed**, and only those do. -/
theorem position_walked_iff (hd : d.SchemasNamed) {m : Mark} :
    m ∈ d.walkedSchemas.map Schema.position ↔
      ∃ id ∈ d.walkTrace.ids, ∃ s, d.schema? id = some s ∧ s.position = m := by
  have h := Walk.inv_walk hd
  have hwalk : m ∈ d.walkedSchemas.map Schema.position ↔
      m ∈ (d.schemaRoots.foldl (Walk.slot d (Walk.maxDepth + 1)) {}).seen := by
    rw [h.seen]
    simp [walkedSchemas, walk]
  rw [hwalk, ← WalkTrace.visited_walk]
  constructor
  · intro hm
    rw [h.seen, List.mem_map] at hm
    obtain ⟨s, hs, rfl⟩ := hm
    obtain ⟨id, hid, hs⟩ := List.mem_filterMap.1 hs
    exact ⟨id, h.listed.subset hid, s, hs, rfl⟩
  · rintro ⟨id, hid, s, hs, rfl⟩
    obtain ⟨s', hs', hpos⟩ := h.known id hid
    rw [hs, Option.some.injEq] at hs'
    exact hs' ▸ hpos

theorem walk_nodup (hd : d.SchemasNamed) : d.walk.Nodup := by
  have h := Walk.inv_walk hd
  exact List.nodup_reverse.2 (h.nodup.sublist h.listed)

theorem positions_nodup (hd : d.SchemasNamed) : (d.walkedSchemas.map Schema.position).Nodup := by
  have h := Walk.inv_walk hd
  have hpos := h.positions
  rw [h.seen] at hpos
  simpa [walkedSchemas, walk, List.nodup_reverse] using hpos

/-- A schema listed was met. -/
theorem mem_ids_of_mem_walk (hd : d.SchemasNamed) {id : SchemaId} (h : id ∈ d.walk) :
    id ∈ d.walkTrace.ids := by
  rw [← WalkTrace.visited_walk]
  exact (Walk.inv_walk hd).listed.subset (List.mem_reverse.1 h)

end Document

end ApiLint
