import ApiLint.Check.Keyword
import ApiLint.Proofs.BoundedSearch
import ApiLint.Proofs.Reaching

/-!
# The properties that a schema is composed of

A property counts as defined for a schema if it is declared at most `Pointers.maxHops` branches away
from it, by a route on which the search for properties does not stop short
(`Document.definedProperties_iff`): the search enters a schema only once, so one first met at the
last branch is never gone below, however near it stands. The check of an object reports exactly the
required properties that do not count as defined (`Check.Keyword.mem_ofObject`).
-/

set_option autoImplicit false

namespace ApiLint

open Yaml (Node)

namespace Document

variable (d : Document)

/-- The schemas that a schema is composed of, as far as its slots lead to any. -/
def branchSchemas (s : Schema) : List Schema := s.branches.filterMap d.slotSchema?

/-- The names of the schemas that the schema with a name is composed of. -/
def branchIds (id : SchemaId) : List SchemaId :=
  ((d.schema? id).toList.flatMap d.branchSchemas).map Schema.id

/-- `t` stands `n` branches away from `s`; the schemas on the way to it are `through`. -/
inductive Composes (through : Schema → Prop) (s : Schema) : Nat → Schema → Prop
  | self : Composes through s 0 s
  | branch {n : Nat} {t u : Schema} : Composes through s n t → through t →
      u ∈ d.branchSchemas t → Composes through s (n + 1) u

/-- A property is declared at most `Pointers.maxHops` branches away from a schema. -/
def Declares (through : Schema → Prop) (s : Schema) (name : String) : Prop :=
  ∃ n ≤ Pointers.maxHops, ∃ t, d.Composes through s n t ∧ name ∈ t.properties.map Prod.fst

/-- The search for the properties of `s` meets `t` first where no branch may be followed. -/
def CutOff (s t : Schema) : Prop :=
  BoundedSearch.Lowest d.branchIds Pointers.maxHops [s.id] t.id

variable {d}

theorem branchIds_eq {s : Schema} (hs : d.schema? s.id = some s) :
    d.branchIds s.id = (d.branchSchemas s).map Schema.id := by
  simp [branchIds, hs]

theorem SchemasNamed.schema?_of_branch (hd : d.SchemasNamed) {s t : Schema}
    (h : t ∈ d.branchSchemas s) : d.schema? t.id = some t := by
  obtain ⟨slot, -, ht⟩ := List.mem_filterMap.1 h
  exact hd.schema?_of_slot ht

theorem Composes.mono {p q : Schema → Prop} {s t : Schema} {n : Nat} (hpq : ∀ u, p u → q u)
    (h : d.Composes p s n t) : d.Composes q s n t := by
  induction h with
  | self => exact .self
  | branch _ hp hu ih => exact .branch ih (hpq _ hp) hu

theorem Composes.schema?_eq (hd : d.SchemasNamed) {through : Schema → Prop} {s t : Schema}
    (hs : d.schema? s.id = some s) {n : Nat} (h : d.Composes through s n t) :
    d.schema? t.id = some t := by
  cases h with
  | self => exact hs
  | branch _ _ ht => exact hd.schema?_of_branch ht

/-! ## The search for properties -/

/-- The search for properties meets the schemas that a bounded search meets. -/
theorem visited_collect (hd : d.SchemasNamed) (steps : Nat) {search : PropertySearch}
    {met : List (SchemaId × Nat)} {s : Schema} (hs : d.schema? s.id = some s)
    (h : search.visited = met.map Prod.fst) :
    (PropertySearch.collect d steps search s).visited =
      (BoundedSearch.visit d.branchIds steps met s.id).map Prod.fst := by
  induction steps generalizing search met s with
  | zero => exact h
  | succ steps ih =>
    unfold PropertySearch.collect BoundedSearch.visit
    rw [h]
    by_cases hmet : s.id ∈ met.map Prod.fst
    · rw [if_pos hmet, if_pos (List.contains_iff_mem.2 hmet)]
      exact h
    · rw [if_neg hmet, if_neg (fun hc => hmet (List.contains_iff_mem.1 hc)), branchIds_eq hs,
        List.foldl_map]
      refine List.foldl_rel
        (r := fun (search : PropertySearch) (met : List (SchemaId × Nat)) =>
          search.visited = met.map Prod.fst) ?_
        fun t ht _ _ h => ih (hd.schema?_of_branch ht) h
      simp

/-- The names collected are those that the schemas visited declare. -/
def PropertiesOf (d : Document) (search : PropertySearch) : Prop :=
  ∀ name, name ∈ search.names ↔
    ∃ t, d.schema? t.id = some t ∧ t.id ∈ search.visited ∧ name ∈ t.properties.map Prod.fst

theorem PropertiesOf.visit {search : PropertySearch} (h : d.PropertiesOf search) {s : Schema}
    (hs : d.schema? s.id = some s) :
    d.PropertiesOf { visited := s.id :: search.visited
                     names := search.names ++ s.properties.map (·.1) } := by
  intro name
  rw [List.mem_append, h name]
  constructor
  · rintro (⟨t, ht, hvisited, hname⟩ | hname)
    · exact ⟨t, ht, .tail _ hvisited, hname⟩
    · exact ⟨s, hs, List.mem_cons_self, hname⟩
  · rintro ⟨t, ht, hvisited, hname⟩
    rcases List.mem_cons.1 hvisited with hid | hvisited
    · rw [hid, hs] at ht
      exact .inr (Option.some.inj ht ▸ hname)
    · exact .inl ⟨t, ht, hvisited, hname⟩

theorem propertiesOf_collect (hd : d.SchemasNamed) (steps : Nat) {search : PropertySearch}
    {s : Schema} (hs : d.schema? s.id = some s) (h : d.PropertiesOf search) :
    d.PropertiesOf (PropertySearch.collect d steps search s) := by
  induction steps generalizing search s with
  | zero => exact h
  | succ steps ih =>
    unfold PropertySearch.collect
    split
    · exact h
    · exact List.foldlRecOn (motive := d.PropertiesOf) _ _ (h.visit hs)
        fun search h t ht => ih (hd.schema?_of_branch ht) h

/-- Routes between names are routes between schemas. -/
theorem reaches_iff_composes (hd : d.SchemasNamed) {through : SchemaId → Prop} {s : Schema}
    (hs : d.schema? s.id = some s) {n : Nat} {id : SchemaId} :
    BoundedSearch.Reaches d.branchIds through [s.id] n id ↔
      ∃ t, d.schema? t.id = some t ∧ t.id = id ∧ d.Composes (fun u => through u.id) s n t := by
  constructor
  · intro h
    induction h with
    | root ha => exact ⟨s, hs, (List.mem_singleton.1 ha).symm, .self⟩
    | step _ hthrough hb ih =>
      obtain ⟨t, ht, rfl, hcomposes⟩ := ih
      rw [branchIds_eq ht] at hb
      obtain ⟨u, hu, rfl⟩ := List.mem_map.1 hb
      exact ⟨u, hd.schema?_of_branch hu, rfl, .branch hcomposes hthrough hu⟩
  · rintro ⟨t, ht, rfl, hcomposes⟩
    induction hcomposes with
    | self => exact .root (List.mem_singleton.2 rfl)
    | branch hcomposes hthrough hu ih =>
      have ht := hcomposes.schema?_eq hd hs
      exact .step (ih ht) hthrough (branchIds_eq ht ▸ List.mem_map_of_mem hu)

theorem mem_definedProperties (hd : d.SchemasNamed) {s : Schema} (hs : d.schema? s.id = some s)
    (name : String) :
    name ∈ d.definedProperties s ↔ d.Declares (fun t => ¬d.CutOff s t) s name := by
  have hvisited : (PropertySearch.collect d (Pointers.maxHops + 1) {} s).visited =
      (BoundedSearch.run d.branchIds Pointers.maxHops [s.id]).map Prod.fst := by
    rw [BoundedSearch.run, List.foldl_cons, List.foldl_nil]
    exact visited_collect hd _ hs rfl
  have hstart : d.PropertiesOf {} := fun name => by simp
  rw [definedProperties, propertiesOf_collect hd _ hs hstart name, hvisited]
  simp only [BoundedSearch.mem_run_iff, reaches_iff_composes hd hs]
  constructor
  · rintro ⟨t, ht, ⟨n, hn, t', ht', hid, hcomposes⟩, hname⟩
    obtain rfl := Option.some.inj (ht.symm.trans (hid ▸ ht'))
    exact ⟨n, hn, t, hcomposes, hname⟩
  · rintro ⟨n, hn, t, hcomposes, hname⟩
    have ht := hcomposes.schema?_eq hd hs
    exact ⟨t, ht, ⟨n, hn, t, ht, rfl, hcomposes⟩, hname⟩

end Document

/-! ## The check of an object -/

namespace Check.Keyword

/-- What the check of an object reports about the properties that a schema names, if `defined` are
those that count as defined. -/
inductive PropertyFinding (c : RuleContext) (s : Schema) (defined : String → Prop) : Finding → Prop
  /-- No property is defined at all. -/
  | noProperties : s.required ≠ [] → (∀ name, ¬defined name) →
      PropertyFinding c s defined (report c s "required" requiredWithoutProperties [])
  | required {i : Nat} {name other : String} : s.required[i]? = some name → defined other →
      ¬defined name → PropertyFinding c s defined
        (reportAt c s "required" ((s.origin.location.field "required").index i) requiredUndefined
          [name])
  | dependent {key : String} {names : List String} : (key, names) ∈ s.dependentRequired →
      ¬defined key → PropertyFinding c s defined
        (reportAt c s "dependentRequired" ((s.origin.location.field "dependentRequired").key key)
          dependentUndefined [key])
  | circular {key : String} {names : List String} : (key, names) ∈ s.dependentRequired →
      key ∈ names → PropertyFinding c s defined
        (reportAt c s "dependentRequired" ((s.origin.location.field "dependentRequired").key key)
          dependentCircular [key])
  | dependency {key name : String} {names : List String} : (key, names) ∈ s.dependentRequired →
      name ∈ names → name ≠ key → ¬defined name → PropertyFinding c s defined
        (reportAt c s "dependentRequired" ((s.origin.location.field "dependentRequired").key key)
          dependentUndefined [name])

variable (c : RuleContext) (s : Schema) (defined : List String) (f : Finding)

theorem mem_ofRequired : f ∈ ofRequired c s defined ↔
    (s.required ≠ [] ∧ defined = [] ∧ f = report c s "required" requiredWithoutProperties []) ∨
      defined ≠ [] ∧ ∃ i name, s.required[i]? = some name ∧ name ∉ defined ∧
        f = reportAt c s "required" ((s.origin.location.field "required").index i) requiredUndefined
          [name] := by
  unfold ofRequired
  by_cases hrequired : s.required = []
  · simp [hrequired]
  by_cases hdefined : defined = []
  · simp [hrequired, hdefined]
  · simp only [List.isEmpty_iff, hrequired, hdefined, ↓reduceIte, List.mem_filterMap, Prod.exists,
      List.mem_zipIdx_iff_getElem?, Option.ite_none_left_eq_some, List.contains_iff_mem,
      Option.some.injEq, false_and, and_false, false_or, ne_eq, not_false_eq_true, true_and]
    constructor
    · rintro ⟨name, i, hname, hnot, rfl⟩
      exact ⟨i, name, hname, hnot, rfl⟩
    · rintro ⟨i, name, hname, hnot, rfl⟩
      exact ⟨name, i, hname, hnot, rfl⟩

theorem mem_ofDependentRequired : f ∈ ofDependentRequired c s defined ↔
    ∃ key names, (key, names) ∈ s.dependentRequired ∧
      ∃ template name, f = reportAt c s "dependentRequired"
          ((s.origin.location.field "dependentRequired").key key) template [name] ∧
        (template = dependentUndefined ∧ name = key ∧ key ∉ defined ∨
          template = dependentCircular ∧ name = key ∧ key ∈ names ∨
          template = dependentUndefined ∧ name ∈ names ∧ name ≠ key ∧ name ∉ defined) := by
  unfold ofDependentRequired
  simp only [List.mem_flatMap, Prod.exists, List.mem_append, List.mem_filterMap]
  refine exists_congr fun key => exists_congr fun names => and_congr_right fun _ => ?_
  constructor
  · rintro (hkey | ⟨name, hname, hf⟩)
    · split at hkey
      · cases hkey
      · next hnot => exact ⟨_, _, List.mem_singleton.1 hkey, .inl ⟨rfl, rfl, by simpa using hnot⟩⟩
    · split at hf
      · next heq =>
        obtain rfl : name = key := by simpa using heq
        exact ⟨_, _, (Option.some.inj hf).symm, .inr (.inl ⟨rfl, rfl, hname⟩)⟩
      · next hne =>
        obtain ⟨hnot, hf⟩ := Option.ite_none_left_eq_some.1 hf
        exact ⟨_, _, (Option.some.inj hf).symm,
          .inr (.inr ⟨rfl, hname, by simpa using hne, by simpa using hnot⟩)⟩
  · rintro ⟨_, name, rfl, ⟨rfl, rfl, hnot⟩ | ⟨rfl, rfl, hname⟩ | ⟨rfl, hname, hne, hnot⟩⟩
    · exact .inl (by simp [hnot])
    · exact .inr ⟨name, hname, by simp⟩
    · exact .inr ⟨name, hname, by simp [hne, hnot]⟩

/-- **What the check of an object reports:** bounds that make no sense, and the properties named
that do not count as defined. -/
theorem mem_ofObject (d : Document) : f ∈ ofObject c s d ↔
    (let b := bounds c s "minProperties" s.minProperties "maxProperties" s.maxProperties
     f ∈ b.1 ∨ f ∈ b.2) ∨
      PropertyFinding c s (· ∈ d.definedProperties s) f := by
  unfold ofObject
  simp only [List.mem_append, or_assoc]
  refine or_congr_right (or_congr_right ?_)
  rw [mem_ofRequired, mem_ofDependentRequired]
  constructor
  · rintro ((⟨hrequired, hnone, rfl⟩ | ⟨hsome, i, name, hname, hnot, rfl⟩) |
      ⟨key, names, hmem, _, name, rfl, hcase⟩)
    · exact .noProperties hrequired (by simp [hnone])
    · obtain ⟨other, hother⟩ := List.exists_mem_of_ne_nil _ hsome
      exact .required hname hother hnot
    · rcases hcase with ⟨rfl, rfl, hnot⟩ | ⟨rfl, rfl, hname⟩ | ⟨rfl, hname, hne, hnot⟩
      · exact .dependent hmem hnot
      · exact .circular hmem hname
      · exact .dependency hmem hname hne hnot
  · intro hf
    cases hf with
    | noProperties hrequired hnone =>
      exact .inl (.inl ⟨hrequired, List.eq_nil_iff_forall_not_mem.2 hnone, rfl⟩)
    | required hname hother hnot =>
      exact .inl (.inr ⟨List.ne_nil_of_mem hother, _, _, hname, hnot, rfl⟩)
    | dependent hmem hnot => exact .inr ⟨_, _, hmem, _, _, rfl, .inl ⟨rfl, rfl, hnot⟩⟩
    | circular hmem hname => exact .inr ⟨_, _, hmem, _, _, rfl, .inr (.inl ⟨rfl, rfl, hname⟩)⟩
    | dependency hmem hname hne hnot =>
      exact .inr ⟨_, _, hmem, _, _, rfl, .inr (.inr ⟨rfl, hname, hne, hnot⟩)⟩

end Check.Keyword

namespace Document

/-- **The properties that count as defined** are those that the schemas declare which the search
does not stop short of, and the check of an object goes by them. If what is cut off is not composed
of others, they are all that is declared at most `Pointers.maxHops` branches away. -/
theorem definedProperties_iff (root : Node) (d : Document) (h : ofNode root = .ok d) (s : Schema)
    (hs : s ∈ d.schemas) :
    (∀ name, name ∈ d.definedProperties s ↔ d.Declares (fun t => ¬d.CutOff s t) s name) ∧
    (∀ (c : RuleContext) (f : Finding), f ∈ Check.Keyword.ofObject c s d ↔
      (let b := Check.Keyword.bounds c s "minProperties" s.minProperties "maxProperties"
          s.maxProperties
       f ∈ b.1 ∨ f ∈ b.2) ∨
        Check.Keyword.PropertyFinding c s (d.Declares (fun t => ¬d.CutOff s t) s) f) ∧
    ((∀ t ∈ d.schemas, d.CutOff s t → d.branchSchemas t = []) →
      ∀ name, name ∈ d.definedProperties s ↔ d.Declares (fun _ => True) s name) := by
  obtain ⟨-, draft, hdraft⟩ := loaded_of_ofNode h
  have hd := hdraft.schemasNamed
  obtain ⟨i, hi, hs⟩ := Array.mem_iff_getElem.1 hs
  have hat : d.schema? ⟨i⟩ = some s := hs ▸ Array.getElem?_eq_getElem hi
  have hs := hd.schema?_id hat ▸ hat
  refine ⟨mem_definedProperties hd hs, fun c f => ?_, fun hcut name => ?_⟩
  · have hdefined : (· ∈ d.definedProperties s) = d.Declares (fun t => ¬d.CutOff s t) s :=
      funext fun name => propext (mem_definedProperties hd hs name)
    rw [Check.Keyword.mem_ofObject, hdefined]
  · rw [mem_definedProperties hd hs]
    have hall : ∀ n t, d.Composes (fun _ => True) s n t →
        d.Composes (fun t => ¬d.CutOff s t) s n t := by
      intro n t hcomposes
      induction hcomposes with
      | self => exact .self
      | branch hcomposes _ hu ih =>
        refine .branch ih (fun ht => ?_) hu
        rw [hcut _ (Array.mem_of_getElem? (hcomposes.schema?_eq hd hs)) ht] at hu
        cases hu
    constructor
    · rintro ⟨n, hn, t, hcomposes, hname⟩
      exact ⟨n, hn, t, hcomposes.mono fun _ _ => trivial, hname⟩
    · rintro ⟨n, hn, t, hcomposes, hname⟩
      exact ⟨n, hn, t, hall n t hcomposes, hname⟩

/-- A document with a chain of schemas each composed of the next, where the first is also composed
of the last but one, and the last declares a property. -/
def detour : Node :=
  let branches := fun (line : Nat) (names : List String) => ("allOf", Node.sequence
    (names.map fun name => .pointTo line ("#/components/schemas/" ++ name)) ⟨⟨line, 1⟩, ⟨line, 1⟩⟩)
  let chain := (List.range 9).map fun i =>
    ("Part" ++ toString i, Node.table (20 + i) [branches (20 + i) ["Part" ++ toString (i + 1)]])
  .table 1 [("openapi", .word "3.1.0" 1), ("components", .table 3 [("schemas", .table 4 ([
    ("Whole", .table 5 [("required", .sequence [.word "deep" 6] ⟨⟨6, 1⟩, ⟨6, 1⟩⟩),
      ("properties", .table 7 [("near", .table 8 [])]), branches 9 ["Part0", "Part9"]])] ++ chain ++
    [("Part9", .table 40 [branches 40 ["End"]]),
      ("End", .table 50 [("properties", .table 51 [("deep", .table 52 [])])])]))])]

theorem definedProperties_iff_detour : ∃ d, ofNode detour = .ok d ∧ ∃ s ∈ d.schemas,
    ∀ name, name ∈ d.definedProperties s ↔ d.Declares (fun t => ¬d.CutOff s t) s name := by
  have hrun : ((ofNode detour).toOption.bind fun d => d.schemas[0]?.map fun _ => ()) = some () := by
    decide +kernel
  obtain ⟨d, hd, he⟩ := ofNode_of_toOption hrun
  obtain ⟨s, hs, -⟩ := Option.map_eq_some_iff.1 he
  have hmem := Array.mem_of_getElem? hs
  exact ⟨d, hd, s, hmem, (definedProperties_iff detour d hd s hmem).1⟩

/-- In `detour` a property is declared two branches away from the schema that requires it, and does
not count as defined, and the check reports it. -/
theorem exists_declared_not_defined : ∃ d s, ofNode detour = .ok d ∧ s ∈ d.schemas ∧
    d.Declares (fun _ => True) s "deep" ∧ "deep" ∉ d.definedProperties s ∧
    ∀ c, Check.Keyword.reportAt c s "required" ((s.origin.location.field "required").index 0)
      Check.Keyword.requiredUndefined ["deep"] ∈ Check.Keyword.ofObject c s d := by
  have hrun : ((ofNode detour).toOption.bind fun d => do
      let s ← d.schemas[0]?
      let part ← (d.branchSchemas s)[1]?
      let last ← (d.branchSchemas part).head?
      return decide ("deep" ∈ last.properties.map Prod.fst ∧ s.required[0]? = some "deep" ∧
        "near" ∈ d.definedProperties s ∧ "deep" ∉ d.definedProperties s)) = some true := by
    decide +kernel
  obtain ⟨d, hd, he⟩ := ofNode_of_toOption hrun
  obtain ⟨s, hs, he⟩ := Option.bind_eq_some_iff.1 he
  obtain ⟨part, hpart, he⟩ := Option.bind_eq_some_iff.1 he
  obtain ⟨last, hlast, he⟩ := Option.bind_eq_some_iff.1 he
  obtain ⟨hdeep, hrequired, hnear, hnot⟩ := of_decide_eq_true (Option.some.inj he)
  refine ⟨d, s, hd, Array.mem_of_getElem? hs, ?_, hnot, fun c => ?_⟩
  · exact ⟨2, by decide, last, .branch (.branch .self trivial (List.mem_of_getElem? hpart)) trivial
      (List.mem_of_mem_head? hlast), hdeep⟩
  · exact (Check.Keyword.mem_ofObject c s _ d).2 (.inr (.required hrequired hnear hnot))

end Document

end ApiLint
