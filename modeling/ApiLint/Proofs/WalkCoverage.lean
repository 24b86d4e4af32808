import ApiLint.Proofs.Reaching
import Mathlib.Data.List.Perm.Subperm

/-!
# What a walk misses

Of a loaded document the walk lists each schema once, and all of them if no slot lies too deep
(`Document.walk_enumerates`). A slot that lies too deep can hide schemas that stand near a root:
the walk enters a schema only once, so one first met at the deepest level is never gone below.
`Document.walked_iff` says exactly which schemas it leads to.
-/

set_option autoImplicit false

namespace ApiLint

open Yaml (Node)

namespace WalkTrace

variable {d : Document}

/-- The schema is first met where no level is left. -/
def Deepest (d : Document) (s : Schema) : Prop := (s.id, 0) ∈ d.walkTrace.met

theorem deepest_iff_lowest (hd : d.SchemasNamed) {s : Schema} : Deepest d s ↔
    BoundedSearch.Lowest d.childIds Walk.maxDepth (d.slotIds d.schemaRoots) s.id := by
  rw [Deepest, BoundedSearch.Lowest, met_walk hd]

/-- Whatever hangs under a root is met, unless the walk stops short on the way to it. -/
theorem mem_ids_of_reaches (hd : d.SchemasNamed) {n : Nat} {s : Schema}
    (h : d.Reaches (fun u => ¬Deepest d u) n s) : s.id ∈ d.walkTrace.ids := by
  rw [ids, met_walk hd]
  simp only [deepest_iff_lowest hd] at h
  exact BoundedSearch.mem_run_of_reaches ((Document.reaches_ids_iff hd).2 ⟨s, rfl, h⟩)

/-- A schema met hangs under a root by a route that the walk has taken. -/
theorem reaches_of_mem_ids (hd : d.SchemasNamed) {id : SchemaId} (h : id ∈ d.walkTrace.ids) :
    ∃ s n, d.schema? id = some s ∧ n ≤ Walk.maxDepth ∧
      d.Reaches (fun u => ¬Deepest d u) n s := by
  rw [ids, met_walk hd] at h
  obtain ⟨n, hn, hroute⟩ := BoundedSearch.mem_run_iff.1 h
  obtain ⟨s, rfl, hreach⟩ := (Document.reaches_ids_iff hd).1 hroute
  refine ⟨s, n, Document.schema?_of_reaches hd hreach, hn, ?_⟩
  simpa only [deepest_iff_lowest hd] using hreach

/-- The walk stops short only where it drops slots. -/
theorem reaches_of_dropped_eq_nil (hd : d.SchemasNamed) (hdrop : d.walkTrace.dropped = [])
    {n : Nat} {s : Schema} (h : d.Reaches (fun _ => True) n s) :
    d.Reaches (fun u => ¬Deepest d u) n s := by
  induction h with
  | root hm hs => exact .root hm hs
  | @child n s t slot hreach _ hm ht ih =>
    refine .child ih (fun hdeep => ?_) hm ht
    have hslot := drops_walk hd s (Document.schema?_of_reaches hd hreach) hdeep hm
    rw [hdrop] at hslot
    cases hslot

end WalkTrace

namespace Document

open WalkTrace

theorem mem_walkedSchemas_position {d : Document} (hd : d.SchemasNamed) {s : Schema} :
    (∃ t ∈ d.walkedSchemas, t.position = s.position) ↔
      ∃ id ∈ d.walkTrace.ids, ∃ t, d.schema? id = some t ∧ t.position = s.position := by
  rw [← position_walked_iff hd, List.mem_map]

/-- **What a walk leads to.** A schema stands at the key of one that is listed if and only if it, or
another at its key, hangs at most `Walk.maxDepth` slots under a root by a route on which the walk
does not stop short. -/
theorem walked_iff (root : Node) (d : Document) (h : ofNode root = .ok d) (s : Schema) :
    (∃ t ∈ d.walkedSchemas, t.position = s.position) ↔
      ∃ t n, t.position = s.position ∧ n ≤ Walk.maxDepth ∧
        d.Reaches (fun u => ¬Deepest d u) n t := by
  obtain ⟨-, draft, hdraft⟩ := loaded_of_ofNode h
  have hd := hdraft.schemasNamed
  rw [mem_walkedSchemas_position hd]
  constructor
  · rintro ⟨id, hid, t, ht, hpos⟩
    obtain ⟨t', n, ht', hn, hreach⟩ := reaches_of_mem_ids hd hid
    obtain rfl := Option.some.inj (ht.symm.trans ht')
    exact ⟨t, n, hpos, hn, hreach⟩
  · rintro ⟨t, n, hpos, -, hreach⟩
    exact ⟨t.id, mem_ids_of_reaches hd hreach, t, schema?_of_reaches hd hreach, hpos⟩

/-- A document whose only schema is its own negation. -/
def paradox : Node :=
  .table 1 [("openapi", .word "3.1.0" 1), ("components", .table 3 [("schemas", .table 4 [
    ("Liar", .table 5 [("not", .pointTo 6 "#/components/schemas/Liar")])])])]

theorem paradox_loads : ∃ d, ofNode paradox = .ok d ∧ d.walk = [⟨0⟩] ∧
    d.walkTrace.dropped.length = 0 := by
  have hrun : ((ofNode paradox).toOption.bind fun d =>
      some (d.walk, d.walkTrace.dropped.length)) = some ([⟨0⟩], 0) := by decide +kernel
  obtain ⟨d, hd, he⟩ := ofNode_of_toOption hrun
  exact ⟨d, hd, Prod.mk.inj (Option.some.inj he)⟩

theorem walked_iff_paradox : ∃ d, ofNode paradox = .ok d ∧ ∀ s : Schema,
    (∃ t ∈ d.walkedSchemas, t.position = s.position) ↔
      ∃ t n, t.position = s.position ∧ n ≤ Walk.maxDepth ∧
        d.Reaches (fun u => ¬Deepest d u) n t := by
  obtain ⟨d, hd, -⟩ := paradox_loads
  exact ⟨d, hd, walked_iff paradox d hd⟩

/-- A document with a schema nested as deep as a walk goes, and below it one more, and with a second
component that refers to the former. -/
def buried : Node :=
  let nested := (List.range (Walk.maxDepth + 1)).foldl
    (fun schema i => .table (10 + i) [("not", schema)]) (.table 10 [])
  .table 1 [("openapi", .word "3.1.0" 1), ("components", .table 3 [("schemas", .table 4 [
    ("A", nested),
    ("B", .pointTo 6 ("#/components/schemas/A" ++
      String.join (List.replicate Walk.maxDepth "/not")))])])]

/-- Being near a root is not enough: the schema below the component `B` of `buried` is not listed. -/
theorem exists_near_not_walked : ∃ d s, ofNode buried = .ok d ∧
    d.Reaches (fun _ => True) 1 s ∧ ¬∃ t ∈ d.walkedSchemas, t.position = s.position := by
  have hrun : ((ofNode buried).toOption.bind fun d => do
      let root ← d.schemaRoots[1]?
      let s ← d.slotSchema? root
      let slot ← s.children.head?
      let t ← d.slotSchema? slot
      return d.walkedSchemas.all (·.position != t.position)) = some true := by
    set_option maxRecDepth 10000 in
    decide +kernel
  obtain ⟨d, hd, he⟩ := ofNode_of_toOption hrun
  obtain ⟨root, hroot, he⟩ := Option.bind_eq_some_iff.1 he
  obtain ⟨s, hs, he⟩ := Option.bind_eq_some_iff.1 he
  obtain ⟨slot, hslot, he⟩ := Option.bind_eq_some_iff.1 he
  obtain ⟨t, ht, he⟩ := Option.bind_eq_some_iff.1 he
  refine ⟨d, t, hd, .child (.root (List.mem_of_getElem? hroot) hs) trivial
    (List.mem_of_mem_head? hslot) ht, fun ⟨u, hu, hpos⟩ => ?_⟩
  simpa [hpos] using List.all_eq_true.1 (Option.some.inj he) u hu

/-- **A walk lists each schema once.** The schemas listed have different names and stand at
different keys, and each hangs under a root; where no slot lies too deep, every schema of the
document stands at the key of one that is listed. -/
theorem walk_enumerates (root : Node) (d : Document) (h : ofNode root = .ok d) :
    d.walk.Nodup ∧ (d.walkedSchemas.map Schema.position).Nodup ∧
      d.walk.length ≤ d.schemas.size ∧
      (∀ id ∈ d.walk, ∃ s n, d.schema? id = some s ∧ d.Reaches (fun _ => True) n s) ∧
      (d.walkTrace.dropped = [] →
        ∀ s ∈ d.schemas, ∃ t ∈ d.walkedSchemas, t.position = s.position) := by
  obtain ⟨-, draft, hdraft⟩ := loaded_of_ofNode h
  have hd := hdraft.schemasNamed
  have hreach : ∀ id ∈ d.walk, ∃ s n, d.schema? id = some s ∧ d.Reaches (fun _ => True) n s := by
    intro id hid
    obtain ⟨s, n, hs, -, hreach⟩ := reaches_of_mem_ids hd (mem_ids_of_mem_walk hd hid)
    exact ⟨s, n, hs, hreach.mono fun _ _ => trivial⟩
  refine ⟨walk_nodup hd, positions_nodup hd, ?_, hreach, fun hdrop s hs => ?_⟩
  · have hsub : d.walk.map SchemaId.index ⊆ List.range d.schemas.size := by
      intro i hi
      obtain ⟨id, hid, rfl⟩ := List.mem_map.1 hi
      obtain ⟨s, -, hs, -⟩ := hreach id hid
      exact List.mem_range.2 (Array.getElem?_eq_some_iff.1 hs).1
    have hinj : Function.Injective SchemaId.index := fun a b h => by cases a; cases b; simp_all
    have hle := (List.subperm_of_subset ((walk_nodup hd).map hinj) hsub).length_le
    rwa [List.length_map, List.length_range] at hle
  · obtain ⟨i, hi, hs⟩ := Array.mem_iff_getElem.1 hs
    have hs' : d.schema? ⟨i⟩ = some s := hs ▸ Array.getElem?_eq_getElem hi
    obtain ⟨n, hn⟩ := hdraft.reaches_of_schema hs'
    refine (mem_walkedSchemas_position hd).2 ⟨s.id, ?_, s, schema?_of_reaches hd hn, rfl⟩
    exact mem_ids_of_reaches hd (reaches_of_dropped_eq_nil hd hdrop hn)

theorem walk_enumerates_paradox : ∃ d, ofNode paradox = .ok d ∧ d.walk.length = 1 ∧
    ∀ s ∈ d.schemas, ∃ t ∈ d.walkedSchemas, t.position = s.position := by
  obtain ⟨d, hd, hwalk, hdrop⟩ := paradox_loads
  obtain ⟨-, -, -, -, hall⟩ := walk_enumerates paradox d hd
  exact ⟨d, hd, by rw [hwalk]; rfl, hall (List.length_eq_zero_iff.1 hdrop)⟩

end Document

end ApiLint
