import ApiLint.Proofs.Findings

/-!
# Which schemas are reported

`Check.MissingExample` goes through its judgements with the keys that are accounted for. `reported`
lists the judgements that it reports, `accounted` the keys at the end; so a judgement is reported
exactly if its key is not among those that the judgements before it leave (`mem_reported_iff`). Keys
that no reported judgement goes by make no difference (`reported_congr`).

`evaluate_perm` says what the check finds in these terms, and `mem_ofMediaType_iff` what it finds in
a media type, which is the one container that has findings about schemas.
-/

set_option autoImplicit false

namespace ApiLint

theorem RuleContext.taken_of_none {α : Type} (c : RuleContext) {pool : String}
    (h : c.deadlines pool = none) (jobs : List α) : c.taken pool jobs = jobs := by
  rw [taken, h]

/-- The context of a check that is used under its own name and run to its end. -/
def Check.contextOf (check : Check) (d : Document) : RuleContext :=
  .ofRule (some d) d.walk { id := check.name, check := check.name, severity := .warn } check false 0

namespace Check.MissingExample

open Yaml (Mark)

/-- The judgements that are reported: their keys are not accounted for when they are come to. -/
def reported (seen : List Mark) : List (Option Lack) → List Lack
  | [] => []
  | none :: rest => reported seen rest
  | some lack :: rest =>
    if seen.contains lack.key then reported seen rest
    else lack :: reported (lack.outcome.keys ++ lack.key :: seen) rest

/-- The keys that are accounted for after judgements. -/
def accounted (seen : List Mark) : List (Option Lack) → List Mark
  | [] => seen
  | none :: rest => accounted seen rest
  | some lack :: rest =>
    if seen.contains lack.key then accounted seen rest
    else accounted (lack.outcome.keys ++ lack.key :: seen) rest

theorem report_eq_flatMap (seen : List Mark) (js : List (Option Lack)) :
    report seen js = (reported seen js).flatMap (·.outcome.findings) := by
  fun_induction report seen js with
  | case1 => rfl
  | case2 seen rest ih => rwa [reported]
  | case3 seen lack rest hkey ih => rwa [reported, if_pos hkey]
  | case4 seen lack rest hkey ih => rw [reported, if_neg hkey, List.flatMap_cons, ih]

theorem mem_accounted_of_mem {seen : List Mark} {key : Mark} (h : key ∈ seen)
    (js : List (Option Lack)) : key ∈ accounted seen js := by
  fun_induction accounted seen js with
  | case1 => exact h
  | case2 seen rest ih => exact ih h
  | case3 seen lack rest hkey ih => exact ih h
  | case4 seen lack rest hkey ih =>
    exact ih (List.mem_append_right _ (List.mem_cons_of_mem _ h))

theorem mem_reported_iff {seen : List Mark} {js : List (Option Lack)} {lack : Lack} :
    lack ∈ reported seen js ↔
      ∃ n, js[n]? = some (some lack) ∧ lack.key ∉ accounted seen (js.take n) := by
  -- The judgement at the front is either the one in question or comes before it.
  induction js generalizing seen with
  | nil => simp [reported]
  | cons j rest ih =>
    have hsplit : (∃ n, (j :: rest)[n]? = some (some lack) ∧
          lack.key ∉ accounted seen ((j :: rest).take n)) ↔
        (j = some lack ∧ lack.key ∉ seen) ∨ ∃ n, rest[n]? = some (some lack) ∧
          lack.key ∉ accounted seen (j :: rest.take n) := by
      constructor
      · rintro ⟨_ | n, hn, hkey⟩
        · exact .inl ⟨Option.some.inj hn, hkey⟩
        · exact .inr ⟨n, hn, hkey⟩
      · rintro (⟨rfl, hkey⟩ | ⟨n, hn, hkey⟩)
        · exact ⟨0, rfl, hkey⟩
        · exact ⟨n + 1, hn, hkey⟩
    rw [hsplit]
    cases j with
    | none => simp [reported, accounted, ih]
    | some first =>
      simp only [reported, accounted, List.contains_iff_mem, Option.some.injEq]
      by_cases hfirst : first.key ∈ seen
      · simp only [hfirst, if_true, ih]
        exact ⟨.inr, fun h => h.resolve_left fun ⟨he, hkey⟩ => hkey (he ▸ hfirst)⟩
      · simp only [hfirst, if_false, List.mem_cons, ih]
        exact or_congr_left ⟨fun h => ⟨h.symm, h ▸ hfirst⟩, fun h => h.1.symm⟩

theorem reported_prefix (seen : List Mark) {js ks : List (Option Lack)} (h : js <+: ks) :
    reported seen js <+: reported seen ks := by
  obtain ⟨rest, rfl⟩ := h
  fun_induction reported seen js with
  | case1 => exact List.nil_prefix
  | case2 seen js ih => exact ih
  | case3 seen lack js hkey ih => rwa [List.cons_append, reported, if_pos hkey]
  | case4 seen lack js hkey ih =>
    rw [List.cons_append, reported, if_neg hkey]
    exact List.cons_prefix_cons.2 ⟨rfl, ih⟩

/-- Further keys that no reported judgement goes by change nothing. -/
theorem reported_congr {seen seen' further : List Mark} {js : List (Option Lack)}
    (hsub : ∀ key ∈ seen, key ∈ seen') (hfurther : ∀ key ∈ seen', key ∈ seen ∨ key ∈ further)
    (h : ∀ lack ∈ reported seen js, lack.key ∉ further) :
    reported seen' js = reported seen js := by
  fun_induction reported seen js generalizing seen' with
  | case1 => rfl
  | case2 seen rest ih => exact ih hsub hfurther h
  | case3 seen lack rest hkey ih =>
    rw [reported, if_pos (List.contains_iff_mem.2 (hsub _ (List.contains_iff_mem.1 hkey)))]
    exact ih hsub hfurther h
  | case4 seen lack rest hkey ih =>
    obtain ⟨hlack, hrest⟩ := List.forall_mem_cons.1 h
    have hnew : lack.key ∉ seen' := fun hmem =>
      (hfurther _ hmem).elim (mt List.contains_iff_mem.2 hkey) hlack
    rw [reported, if_neg (mt List.contains_iff_mem.1 hnew)]
    refine congrArg (lack :: ·) (ih ?_ ?_ hrest)
    · intro key hmem
      simp only [List.mem_append, List.mem_cons] at hmem ⊢
      exact hmem.imp_right (Or.imp_right (hsub key))
    · intro key hmem
      simp only [List.mem_append, List.mem_cons] at hmem ⊢
      rcases hmem with hmem | hmem | hmem
      · exact .inl (.inl hmem)
      · exact .inl (.inr (.inl hmem))
      · exact (hfurther key hmem).imp_left fun hmem => .inr (.inr hmem)

/-! ## What is found in containers -/

variable {c : RuleContext} {d : Document}

theorem target_of_mem_ofParameter {p : Parameter} {f : Finding}
    (hf : f ∈ (ofParameter c d p).findings) : f.target = .parameter p.id := by
  unfold ofParameter at hf
  dsimp only at hf
  split at hf
  · cases hf
  · rw [List.mem_singleton.1 hf]
    rfl

theorem target_of_mem_ofHeader {x : Header} {f : Finding} (hf : f ∈ (ofHeader c d x).findings) :
    f.target = .header x.id := by
  unfold ofHeader at hf
  split at hf
  · cases hf
  · split at hf
    · cases hf
    · rw [List.mem_singleton.1 hf]
      rfl

/-- A media type has no example, and none can be told from its schema. -/
def IsBare (d : Document) (m : MediaType) : Prop :=
  hasValue m.exampleValue = false ∧ m.namedExamples = [] ∧ d.infersExampleAt m.schema = false

/-- The first uncovered property of the schema of a media type. -/
def IsUncoveredIn (d : Document) (m : MediaType) (name : String) (slot : SchemaSlot) : Prop :=
  ∃ t, m.schema.bind d.slotSchema? = some t ∧ d.firstUncovered? t = some (name, slot)

/-- What is reported about a property of the schema of a media type: of one that leads nowhere,
about the media type. -/
def propertyFinding (c : RuleContext) (d : Document) (m : MediaType) (name : String)
    (slot : SchemaSlot) : Finding :=
  c.finding (c.message mediaTypePropertyMissing [name]) slot.origin
    (match d.slotSchema? slot with
    | some property => .schema property.id
    | none => .mediaType m.id)

theorem target_propertyFinding_of_some {m : MediaType} {name : String} {slot : SchemaSlot}
    {property : Schema} (h : d.slotSchema? slot = some property) :
    (propertyFinding c d m name slot).target = .schema property.id := by
  rw [propertyFinding, h]
  rfl

theorem target_propertyFinding_of_none {m : MediaType} {name : String} {slot : SchemaSlot}
    (h : d.slotSchema? slot = none) :
    (propertyFinding c d m name slot).target = .mediaType m.id := by
  rw [propertyFinding, h]
  rfl

theorem mem_ofMediaType_iff {m : MediaType} {f : Finding} :
    f ∈ (ofMediaType c d m).findings ↔ IsBare d m ∧
      (f = missing c "media type" m.origin (.mediaType m.id) ∨
        ∃ name slot, IsUncoveredIn d m name slot ∧ f = propertyFinding c d m name slot) := by
  have hbare : IsBare d m ↔ ¬(hasValue m.exampleValue || !m.namedExamples.isEmpty ||
      d.infersExampleAt m.schema) = true := by
    simp [IsBare, and_assoc]
  have huncovered : ∀ name slot, IsUncoveredIn d m name slot ↔
      (m.schema.bind d.slotSchema?).bind d.firstUncovered? = some (name, slot) := fun _ _ =>
    Option.bind_eq_some_iff.symm
  simp only [hbare, huncovered]
  unfold ofMediaType
  dsimp only
  split <;> rename_i hcovered
  · simp [hcovered]
  · cases (m.schema.bind d.slotSchema?).bind d.firstUncovered? with
    | none => simp [hcovered]
    | some first =>
      obtain ⟨name, slot⟩ := first
      simp only [List.mem_cons, List.not_mem_nil, or_false, hcovered, Option.some.injEq,
        Prod.mk.injEq, propertyFinding]
      grind

/-! ## What the check finds -/

/-- The keys that the containers note that are judged in time. -/
def containerKeys (c : RuleContext) (d : Document) : List Mark :=
  (c.taken "containers" (containers c d)).flatMap (·.keys)

/-- What is reported about schemas. -/
def reportedLacks (c : RuleContext) (d : Document) : List Lack :=
  reported (containerKeys c d) ((judgements c d).map (·.2))

/-- The schemas that are judged in time. -/
def judged (c : RuleContext) (d : Document) : List Schema :=
  (c.taken "schemas" c.walk).filterMap d.schema?

theorem judgements_map_snd (c : RuleContext) (d : Document) :
    (judgements c d).map (·.2) = (judged c d).map (ofSchema c d) := by
  have hzip : c.taken "schemas" c.walk = (c.taken "schemas" c.walk.zipIdx).map (·.1) := by
    rw [← c.taken_map, List.zipIdx_map_fst]
  rw [judged, hzip, judgements, List.map_filterMap, List.filterMap_map, List.map_filterMap]
  refine List.filterMap_congr ?_
  rintro ⟨id, position⟩ -
  exact Option.map_map ..

/-- **What the check finds**: what it has to say about the containers, and about the schemas that it
reports. -/
theorem evaluate_perm (hdoc : c.document = some d) (hc : c.cancelled = false) :
    (evaluate c).Perm ((c.taken "containers" (containers c d)).flatMap (·.findings) ++
      (reportedLacks c d).flatMap (·.outcome.findings)) := by
  have hperm := outcomes_perm (d := d) hc
  have hkeys : reported ((c.runPool "containers" (containerJobs c d)).flatMap (·.keys))
      ((judgements c d).map (·.2)) = reportedLacks c d :=
    reported_congr (fun key => (hperm.flatMap_right _).mem_iff.2)
      (fun key hkey => .inl ((hperm.flatMap_right _).mem_iff.1 hkey))
      fun lack _ => (List.not_mem_nil : lack.key ∉ [])
  rw [evaluate, hdoc]
  dsimp only [merge]
  rw [inWalkOrder_runPool hc, report_eq_flatMap, hkeys]
  exact (hperm.flatMap_right _).append_right _

theorem mem_evaluate_iff (hdoc : c.document = some d) (hc : c.cancelled = false) {f : Finding} :
    f ∈ evaluate c ↔ (∃ outcome ∈ c.taken "containers" (containers c d), f ∈ outcome.findings) ∨
      ∃ lack ∈ reportedLacks c d, f ∈ lack.outcome.findings := by
  rw [(evaluate_perm hdoc hc).mem_iff, List.mem_append, List.mem_flatMap, List.mem_flatMap]

/-- A schema is reported at its place among the judged ones, if its key is not accounted for
there. -/
theorem mem_reportedLacks_iff {lack : Lack} : lack ∈ reportedLacks c d ↔
    ∃ n s, (judged c d)[n]? = some s ∧ ofSchema c d s = some lack ∧
      lack.key ∉ accounted (containerKeys c d) (((judged c d).take n).map (ofSchema c d)) := by
  rw [reportedLacks, judgements_map_snd, mem_reported_iff]
  simp only [List.getElem?_map, Option.map_eq_some_iff, List.map_take]
  exact ⟨fun ⟨n, ⟨s, hs, hlack⟩, hkey⟩ => ⟨n, s, hs, hlack, hkey⟩,
    fun ⟨n, s, hs, hlack, hkey⟩ => ⟨n, ⟨s, hs, hlack⟩, hkey⟩⟩

/-- What is said about a schema that lacks an example. -/
theorem ofSchema_eq_some {s : Schema} {lack : Lack} (h : ofSchema c d s = some lack) :
    lack.key = schemaKey d s ∧ missing c "schema" s.origin (.schema s.id) ∈ lack.outcome.findings ∧
      ∀ f ∈ lack.outcome.findings, f.target = .schema s.id := by
  unfold ofSchema at h
  split at h
  · cases h
  · dsimp only at h
    split at h <;> obtain rfl := Option.some.inj h
    · exact ⟨rfl, List.mem_singleton_self _, fun f hf => List.mem_singleton.1 hf ▸ rfl⟩
    · refine ⟨rfl, List.mem_cons_of_mem _ (List.mem_singleton_self _), fun f hf => ?_⟩
      rcases List.mem_cons.1 hf with rfl | hf
      · rfl
      · exact List.mem_singleton.1 hf ▸ rfl

end Check.MissingExample

end ApiLint
