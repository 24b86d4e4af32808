import ApiLint.Example.Cycle
import ApiLint.Proofs.Reaching
import Mathlib.Logic.Relation

/-!
# What a search for loops finds

A loop below a schema is a list of different schemas, each a child of the one before, the last of
which has a child among them (`Document.Loop`). The search finds exactly the loops of at most
`LoopSearch.maxDepth` schemas (`Document.isLooping_iff`).

`Document.loopsWithin` is the search without its notes. The notes change no answer
(`LoopSearch.below_spec`): the schemas cleared are closed under children and none is below itself
(`LoopSearch.Clear`), so none of them leads to the trail or to a loop. A schema is cleared only if
the search below it was not cut.
-/

set_option autoImplicit false

namespace ApiLint

open Relation (TransGen ReflTransGen)

namespace Document

variable (d : Document)

/-- The schemas that the slots of a schema hold or lead to. -/
def childSchemas (s : Schema) : List Schema := s.children.filterMap d.slotSchema?

/-- Different schemas, each a child of the one before, and a child of the last is one of them. -/
structure Loop (path : List Schema) : Prop where
  chain : path.IsChain fun s t => t ∈ d.childSchemas s
  distinct : (path.map Schema.id).Nodup
  closes : ∃ last ∈ path.getLast?, ∃ t ∈ path, t ∈ d.childSchemas last

/-- The search for loops without notes: a child on the trail is found, others are searched. -/
def loopsWithin : Nat → List SchemaId → Schema → Bool
  | 0, _, _ => false
  | levels + 1, trail, s =>
    (d.childSchemas s).any fun t => trail.contains t.id || loopsWithin levels (t.id :: trail) t

/-- The schema named second is a child of the one named first. -/
def Below (a b : SchemaId) : Prop :=
  ∃ s t, d.schema? a = some s ∧ t ∈ d.childSchemas s ∧ t.id = b

variable {d}

theorem SchemasNamed.schema?_of_child (hd : d.SchemasNamed) {s t : Schema}
    (h : t ∈ d.childSchemas s) : d.schema? t.id = some t := by
  obtain ⟨slot, -, hs⟩ := List.mem_filterMap.1 h
  exact hd.schema?_of_slot hs

theorem Below.of_child {s t : Schema} (hs : d.schema? s.id = some s)
    (h : t ∈ d.childSchemas s) : d.Below s.id t.id := ⟨s, t, hs, h, rfl⟩

end Document

namespace LoopSearch

open Document

variable {d : Document}

/-! ## Cleared schemas -/

/-- Below the schemas there are others of them only, and none is below itself. -/
structure Clear (d : Document) (ids : List SchemaId) : Prop where
  closed : ∀ a ∈ ids, ∀ b, d.Below a b → b ∈ ids
  acyclic : ∀ a ∈ ids, ¬TransGen d.Below a a

theorem Clear.mem_of_below {ids : List SchemaId} (h : Clear d ids) {a b : SchemaId} (ha : a ∈ ids)
    (hab : ReflTransGen d.Below a b) : b ∈ ids := by
  induction hab with
  | refl => exact ha
  | tail _ hstep ih => exact h.closed _ ih _ hstep

/-- A schema is clear if all its children are and it is not one of them. -/
theorem Clear.cons {ids : List SchemaId} (h : Clear d ids) {a : SchemaId} (ha : a ∉ ids)
    (hchildren : ∀ b, d.Below a b → b ∈ ids) : Clear d (a :: ids) where
  closed b hb c hbc := by
    rcases List.mem_cons.1 hb with rfl | hb
    · exact .tail _ (hchildren c hbc)
    · exact .tail _ (h.closed b hb c hbc)
  acyclic b hb hloop := by
    rcases List.mem_cons.1 hb with rfl | hb
    · obtain ⟨c, hbc, hcb⟩ := TransGen.head'_iff.1 hloop
      exact ha (h.mem_of_below (hchildren c hbc) hcb)
    · exact h.acyclic b hb hloop

/-- What the search finds below a clear schema is a clear schema of the trail. -/
theorem Clear.exists_mem_trail (hd : d.SchemasNamed) {ids : List SchemaId} (h : Clear d ids)
    {levels : Nat} {trail : List SchemaId} {s : Schema} (hs : d.schema? s.id = some s)
    (hclear : s.id ∈ ids) (hloop : d.loopsWithin levels trail s = true) :
    ∃ a ∈ trail, a ∈ ids ∧ TransGen d.Below s.id a := by
  induction levels generalizing trail s with
  | zero => cases hloop
  | succ levels ih =>
    rw [loopsWithin, List.any_eq_true] at hloop
    obtain ⟨t, ht, hloop⟩ := hloop
    have hstep := Below.of_child hs ht
    have htclear := h.closed _ hclear _ hstep
    rw [Bool.or_eq_true] at hloop
    rcases hloop with htrail | hloop
    · exact ⟨t.id, List.contains_iff_mem.1 htrail, htclear, .single hstep⟩
    · obtain ⟨a, ha, haclear, hta⟩ := ih (hd.schema?_of_child ht) htclear hloop
      rcases List.mem_cons.1 ha with rfl | ha
      · exact absurd hta (h.acyclic _ haclear)
      · exact ⟨a, ha, haclear, .head hstep hta⟩

/-- A clear schema may be passed over. -/
theorem Clear.loopsWithin_eq_false (hd : d.SchemasNamed) {ids trail : List SchemaId}
    (h : Clear d ids) (hdisjoint : ids.Disjoint trail) (levels : Nat) {s : Schema}
    (hs : d.schema? s.id = some s) (hclear : s.id ∈ ids) :
    d.loopsWithin levels (s.id :: trail) s = false := by
  refine Bool.eq_false_iff.2 fun hloop => ?_
  obtain ⟨a, ha, haclear, hsa⟩ := h.exists_mem_trail hd hs hclear hloop
  rcases List.mem_cons.1 ha with rfl | ha
  · exact h.acyclic _ haclear hsa
  · exact hdisjoint haclear ha

/-! ## The notes of a search -/

/-- The notes of a search are right, and no schema of the trail is cleared. -/
structure Sound (d : Document) (trail : List SchemaId) (search : LoopSearch) : Prop where
  clear : Clear d search.cleared
  disjoint : search.cleared.Disjoint trail

/-- Without finding a loop the search went through the schemas `ts`. Unless it was cut, it has
cleared them all. -/
structure Searched (d : Document) (trail : List SchemaId) (search : LoopSearch) (ts : List Schema)
    (after : LoopSearch) : Prop where
  sound : Sound d trail after
  grows : search.cleared ⊆ after.cleared
  whole : after.truncated = false → search.truncated = false ∧ ∀ t ∈ ts, t.id ∈ after.cleared

/-- The search gives the answer that it gives without notes, and keeps its notes right. -/
def Answers (d : Document) (trail : List SchemaId) (search : LoopSearch) (ts : List Schema)
    (plain : Bool) (result : Bool × LoopSearch) : Prop :=
  result.1 = plain ∧ (result.1 = false → Searched d trail search ts result.2)

/-- What is noted after a child has been searched in vain. -/
def noteChild (search : LoopSearch) (child : Schema) (after : LoopSearch) : LoopSearch where
  cleared := if after.truncated then after.cleared else child.id :: after.cleared
  truncated := after.truncated || search.truncated

theorem Searched.sound_noteChild {trail : List SchemaId} {search after : LoopSearch} {s : Schema}
    (hs : d.schema? s.id = some s) (htrail : s.id ∉ trail)
    (h : Searched d (s.id :: trail) { search with truncated := false } (d.childSchemas s) after) :
    Sound d trail (noteChild search s after) := by
  obtain ⟨hfresh, hdisjoint⟩ := List.disjoint_cons_right.1 h.sound.disjoint
  unfold noteChild
  cases htrunc : after.truncated with
  | true => exact ⟨h.sound.clear, hdisjoint⟩
  | false =>
    refine ⟨h.sound.clear.cons hfresh fun b hb => ?_,
      List.disjoint_cons_left.2 ⟨htrail, hdisjoint⟩⟩
    obtain ⟨s', t, hs', ht, rfl⟩ := hb
    obtain rfl := Option.some.inj (hs.symm.trans hs')
    exact (h.whole htrunc).2 t ht

/-- A child cleared before counts as searched. -/
theorem Searched.cons_cleared {trail : List SchemaId} {search after : LoopSearch} {s : Schema}
    {ts : List Schema} (h : Searched d trail search ts after) (hs : s.id ∈ search.cleared) :
    Searched d trail search (s :: ts) after where
  sound := h.sound
  grows := h.grows
  whole htrunc := by
    obtain ⟨hbefore, hcleared⟩ := h.whole htrunc
    refine ⟨hbefore, fun t ht => ?_⟩
    rcases List.mem_cons.1 ht with rfl | ht
    · exact h.grows hs
    · exact hcleared t ht

/-- A child searched in vain, and then those that follow it. -/
theorem Searched.cons {trail : List SchemaId} {search mid after : LoopSearch} {s : Schema}
    {ts : List Schema}
    (hs : Searched d (s.id :: trail) { search with truncated := false } (d.childSchemas s) mid)
    (h : Searched d trail (noteChild search s mid) ts after) :
    Searched d trail search (s :: ts) after where
  sound := h.sound
  grows a ha := by
    refine h.grows ?_
    unfold noteChild
    split
    · exact hs.grows ha
    · exact .tail _ (hs.grows ha)
  whole htrunc := by
    obtain ⟨hcut, hcleared⟩ := h.whole htrunc
    obtain ⟨hmid, hbefore⟩ := Bool.or_eq_false_iff.1 hcut
    refine ⟨hbefore, fun t ht => ?_⟩
    rcases List.mem_cons.1 ht with rfl | ht
    · exact h.grows (by simp [noteChild, hmid])
    · exact hcleared t ht

theorem throughSlots_spec (hd : d.SchemasNamed) {levels : Nat} {trail : List SchemaId}
    (hbelow : ∀ search s, Sound d (s.id :: trail) search →
      Answers d (s.id :: trail) search (d.childSchemas s) (d.loopsWithin levels (s.id :: trail) s)
        (below d levels (s.id :: trail) search s))
    (slots : List SchemaSlot) (search : LoopSearch) (hsearch : Sound d trail search) :
    Answers d trail search (slots.filterMap d.slotSchema?)
      ((slots.filterMap d.slotSchema?).any fun t =>
        trail.contains t.id || d.loopsWithin levels (t.id :: trail) t)
      (throughSlots d (below d levels) trail search slots) := by
  induction slots generalizing search with
  | nil =>
    exact ⟨rfl, fun _ => ⟨hsearch, fun _ h => h, fun htrunc => ⟨htrunc, fun t ht => nomatch ht⟩⟩⟩
  | cons slot slots ih =>
    unfold throughSlots
    cases hslot : d.slotSchema? slot with
    | none => simpa only [List.filterMap_cons, hslot] using ih search hsearch
    | some t =>
      have ht := hd.schema?_of_slot hslot
      simp only [List.filterMap_cons, hslot, List.any_cons]
      by_cases htrail : trail.contains t.id = true
      · simp only [htrail, ↓reduceIte, Bool.true_or]
        exact ⟨rfl, fun h => nomatch h⟩
      by_cases hcleared : search.cleared.contains t.id = true
      · -- the memo: a cleared child would be searched in vain
        have hmem := List.contains_iff_mem.1 hcleared
        have hvain := hsearch.clear.loopsWithin_eq_false hd hsearch.disjoint levels ht hmem
        simp only [htrail, hcleared, Bool.false_eq_true, ↓reduceIte, hvain, Bool.or_self,
          Bool.false_or]
        obtain ⟨hanswer, hrest⟩ := ih search hsearch
        exact ⟨hanswer, fun hnone => (hrest hnone).cons_cleared hmem⟩
      · have hfresh : t.id ∉ search.cleared := fun h => hcleared (List.contains_iff_mem.2 h)
        obtain ⟨hanswer, hvain⟩ := hbelow { search with truncated := false } t
          ⟨hsearch.clear, List.disjoint_cons_right.2 ⟨hfresh, hsearch.disjoint⟩⟩
        simp only [htrail, hcleared, Bool.false_eq_true, ↓reduceIte, Bool.false_or]
        generalize below d levels (t.id :: trail) { search with truncated := false } t = result
          at hanswer hvain
        obtain ⟨looped, mid⟩ := result
        obtain rfl : looped = d.loopsWithin levels (t.id :: trail) t := hanswer
        cases hlooped : d.loopsWithin levels (t.id :: trail) t with
        | true => exact ⟨rfl, fun h => nomatch h⟩
        | false =>
          have hmid := hvain hlooped
          have htrail : t.id ∉ trail := fun h => htrail (List.contains_iff_mem.2 h)
          obtain ⟨hanswer, hrest⟩ := ih (noteChild search t mid) (hmid.sound_noteChild ht htrail)
          simp only [Bool.false_eq_true, ↓reduceIte, Bool.false_or]
          exact ⟨hanswer, fun hnone => hmid.cons (hrest hnone)⟩

/-- **Notes change no answer**, and what is noted of a search is right. -/
theorem below_spec (hd : d.SchemasNamed) (levels : Nat) (trail : List SchemaId)
    (search : LoopSearch) (s : Schema) (hsearch : Sound d trail search) :
    Answers d trail search (d.childSchemas s) (d.loopsWithin levels trail s)
      (below d levels trail search s) := by
  induction levels generalizing trail search s with
  | zero =>
    exact ⟨rfl, fun _ =>
      ⟨⟨hsearch.clear, hsearch.disjoint⟩, fun _ h => h, fun htrunc => nomatch htrunc⟩⟩
  | succ levels ih =>
    exact throughSlots_spec hd (fun search s => ih (s.id :: trail) search s) s.children search
      hsearch

end LoopSearch

/-! ## Loops -/

namespace Document

variable {d : Document}

/-- The search finds the chains of different schemas that come back to the trail or to one of
themselves. -/
theorem loopsWithin_iff {levels : Nat} {trail : List SchemaId} {s : Schema} :
    d.loopsWithin levels trail s = true ↔ ∃ rest : List Schema, rest.length < levels ∧
      (s :: rest).IsChain (fun s t => t ∈ d.childSchemas s) ∧ (rest.map Schema.id).Nodup ∧
      (∀ t ∈ rest, t.id ∉ trail) ∧ ∃ last ∈ (s :: rest).getLast?, ∃ t ∈ d.childSchemas last,
        t.id ∈ trail ∨ t.id ∈ rest.map Schema.id := by
  induction levels generalizing trail s with
  | zero => simp [loopsWithin]
  | succ levels ih =>
    simp only [loopsWithin, List.any_eq_true, Bool.or_eq_true, List.contains_iff_mem]
    constructor
    · rintro ⟨c, hc, hloop⟩
      by_cases htrail : c.id ∈ trail
      · exact ⟨[], Nat.succ_pos _, .singleton s, List.nodup_nil, by simp, s, rfl, c, hc,
          .inl htrail⟩
      · obtain ⟨rest, hlen, hchain, hnodup, hout, last, hlast, t, ht, hback⟩ :=
          ih.1 (hloop.resolve_left htrail)
        refine ⟨c :: rest, Nat.succ_lt_succ hlen, .cons_cons hc hchain, ?_, ?_, last, ?_, t, ht, ?_⟩
        · refine List.nodup_cons.2 ⟨fun hmem => ?_, hnodup⟩
          obtain ⟨t', ht', hid⟩ := List.mem_map.1 hmem
          exact hout t' ht' (hid ▸ List.mem_cons_self)
        · intro t' ht'
          rcases List.mem_cons.1 ht' with rfl | ht'
          · exact htrail
          · exact fun hmem => hout t' ht' (.tail _ hmem)
        · simpa [List.getLast?_cons_cons] using hlast
        · rcases hback with hback | hback
          · rcases List.mem_cons.1 hback with hid | hback
            · exact .inr (hid ▸ List.mem_cons_self)
            · exact .inl hback
          · exact .inr (.tail _ hback)
    · rintro ⟨rest, hlen, hchain, hnodup, hout, last, hlast, t, ht, hback⟩
      cases rest with
      | nil =>
        obtain rfl : s = last := by simpa using hlast
        exact ⟨t, ht, .inl (hback.resolve_right (by simp))⟩
      | cons c rest =>
        obtain ⟨hc, hchain⟩ := List.isChain_cons_cons.1 hchain
        obtain ⟨hfresh, hnodup⟩ := List.nodup_cons.1 hnodup
        refine ⟨c, hc, .inr (ih.2 ⟨rest, Nat.lt_of_succ_lt_succ hlen, hchain, hnodup, ?_, last,
          by simpa [List.getLast?_cons_cons] using hlast, t, ht, ?_⟩)⟩
        · intro t' ht' hmem
          rcases List.mem_cons.1 hmem with hid | hmem
          · exact hfresh (hid ▸ List.mem_map_of_mem ht')
          · exact hout t' (.tail _ ht') hmem
        · rcases hback with hback | hback
          · exact .inl (.tail _ hback)
          · rcases List.mem_cons.1 hback with hid | hback
            · exact .inl (hid ▸ List.mem_cons_self)
            · exact .inr hback

/-- The schemas of a chain are the document's own. -/
theorem schema?_of_chain (hd : d.SchemasNamed) {s : Schema} {rest : List Schema}
    (hs : d.schema? s.id = some s) (h : (s :: rest).IsChain fun s t => t ∈ d.childSchemas s) :
    ∀ t ∈ s :: rest, d.schema? t.id = some t := by
  induction rest generalizing s with
  | nil => simpa using hs
  | cons c rest ih =>
    obtain ⟨hc, hchain⟩ := List.isChain_cons_cons.1 h
    intro t ht
    rcases List.mem_cons.1 ht with rfl | ht
    · exact hs
    · exact ih (hd.schema?_of_child hc) hchain t ht

/-- From a schema on, the search without notes finds the loops of at most so many schemas. -/
theorem loopsWithin_self_iff (hd : d.SchemasNamed) {levels : Nat} {s : Schema}
    (hs : d.schema? s.id = some s) : d.loopsWithin levels [s.id] s = true ↔
      ∃ path, d.Loop path ∧ path.head? = some s ∧ path.length ≤ levels := by
  rw [loopsWithin_iff]
  constructor
  · rintro ⟨rest, hlen, hchain, hnodup, hout, last, hlast, t, ht, hback⟩
    refine ⟨s :: rest, ⟨hchain, ?_, last, hlast, ?_⟩, rfl, hlen⟩
    · refine List.nodup_cons.2 ⟨fun hmem => ?_, hnodup⟩
      obtain ⟨t', ht', hid⟩ := List.mem_map.1 hmem
      exact hout t' ht' (by simp [hid])
    · have hmem : t.id ∈ (s :: rest).map Schema.id := by simpa using hback
      obtain ⟨u, hu, hid⟩ := List.mem_map.1 hmem
      have hu' := schema?_of_chain hd hs hchain u hu
      obtain rfl : u = t := by
        rw [hid, hd.schema?_of_child ht] at hu'
        exact (Option.some.inj hu').symm
      exact ⟨u, hu, ht⟩
  · rintro ⟨path, ⟨hchain, hnodup, last, hlast, t, htpath, ht⟩, hhead, hlen⟩
    obtain ⟨rest, rfl⟩ := List.head?_eq_some_iff.1 hhead
    obtain ⟨hfresh, hnodup⟩ := List.nodup_cons.1 hnodup
    refine ⟨rest, hlen, hchain, hnodup, fun t' ht' hmem => ?_, last, hlast, t, ht, ?_⟩
    · exact hfresh (List.mem_singleton.1 hmem ▸ List.mem_map_of_mem ht')
    · simpa using List.mem_map_of_mem (f := Schema.id) htpath

/-- **A schema loops** if and only if some loop of at most `LoopSearch.maxDepth` schemas starts with
it; and the search answers what it answers without notes. -/
theorem isLooping_iff (root : Yaml.Node) (d : Document) (h : ofNode root = .ok d) (s : Schema)
    (hs : s ∈ d.schemas) :
    (d.isLooping s = true ↔
      ∃ path, d.Loop path ∧ path.head? = some s ∧ path.length ≤ LoopSearch.maxDepth) ∧
    d.isLooping s = d.loopsWithin LoopSearch.maxDepth [s.id] s := by
  obtain ⟨-, draft, hdraft⟩ := loaded_of_ofNode h
  have hd := hdraft.schemasNamed
  obtain ⟨i, hi, hs⟩ := Array.mem_iff_getElem.1 hs
  have hat : d.schema? ⟨i⟩ = some s := hs ▸ Array.getElem?_eq_getElem hi
  have hplain : d.isLooping s = d.loopsWithin LoopSearch.maxDepth [s.id] s :=
    (LoopSearch.below_spec hd _ _ _ s ⟨⟨by simp, by simp⟩, by simp⟩).1
  rw [hplain]
  exact ⟨loopsWithin_self_iff hd (hd.schema?_id hat ▸ hat), rfl⟩

/-- A document with a schema that is composed of another one, of which a property leads back. -/
def ring : Yaml.Node :=
  .table 1 [("openapi", .word "3.1.0" 1), ("components", .table 3 [("schemas", .table 4 [
    ("Outer", .table 5 [("allOf", .sequence [.pointTo 6 "#/components/schemas/Inner"]
      ⟨⟨6, 1⟩, ⟨6, 1⟩⟩)]),
    ("Inner", .table 7 [("not", .table 8 []), ("properties", .table 9 [
      ("back", .pointTo 10 "#/components/schemas/Outer")])])])])]

theorem isLooping_iff_ring : ∃ d, ofNode ring = .ok d ∧ ∃ s ∈ d.schemas, d.isLooping s = true ∧
    ∃ path, d.Loop path ∧ path.head? = some s ∧ path.length ≤ LoopSearch.maxDepth := by
  have hrun : ((ofNode ring).toOption.bind fun d =>
      d.schemas[0]?.bind fun s => some (d.isLooping s)) = some true := by decide +kernel
  obtain ⟨d, hd, he⟩ := ofNode_of_toOption hrun
  obtain ⟨s, hs, he⟩ := Option.bind_eq_some_iff.1 he
  have hmem := Array.mem_of_getElem? hs
  have hloop := Option.some.inj he
  exact ⟨d, hd, s, hmem, hloop, (isLooping_iff ring d hd s hmem).1.1 hloop⟩

end Document

end ApiLint
