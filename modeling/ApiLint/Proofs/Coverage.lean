import ApiLint.Proofs.Ownership
import ApiLint.Proofs.Reporting

/-!
# What the example of a container covers

A parameter, header or media type with an example speaks for its own schema: the container notes its
key, and the schema goes by that key. The schemas inside go by keys of their own. For them the check
looks at the schemas around them, some levels up (`Document.isCoveredFromAbove_iff`), and not at the
container.

`Check.MissingExample.targeted_iff` says which schemas at or inside the schema of such a container
have findings: those that a media type without an example reports as its first uncovered property,
and, below the schema itself, those that lack an example for which no schema around them speaks and
whose keys are not accounted for. So the example of a header does not cover a property of its schema
(`Check.MissingExample.exists_targeted_inside`).
-/

set_option autoImplicit false

namespace ApiLint

open Yaml (Mark Node)

/-! ## Schemas around a schema -/

/-- The schema has an example, or one can be told from its type. -/
def Schema.SpeaksForParts (s : Schema) : Prop :=
  s.hasExample = true ∨ s.isImplicit = true ∨ s.types = []

namespace Document

variable {d : Document}

/-- A schema at most `levels` levels around speaks for its parts. -/
theorem isCoveredFromAbove_iff {levels : Nat} {s : Schema} :
    d.isCoveredFromAbove levels s = true ↔
      ∃ n < levels, ∃ t, d.ancestor? (n + 1) s = some t ∧ t.SpeaksForParts := by
  induction levels generalizing s with
  | zero => simp [isCoveredFromAbove]
  | succ levels ih =>
    rw [isCoveredFromAbove]
    cases hparent : d.enclosingSchema? s with
    | none => simp [ancestor?, hparent]
    | some parent =>
      have hancestor : ∀ n, d.ancestor? (n + 1) s = d.ancestor? n parent := fun n => by
        rw [ancestor?, hparent, Option.bind_some]
      simp only [hancestor, Bool.or_eq_true, List.isEmpty_iff, ih]
      constructor
      · rintro (hspeaks | ⟨n, hn, t, ht, hspeaks⟩)
        · exact ⟨0, by omega, parent, rfl, or_assoc.1 hspeaks⟩
        · exact ⟨n + 1, by omega, t, ht, hspeaks⟩
      · rintro ⟨_ | n, hn, t, ht, hspeaks⟩
        · exact .inl (or_assoc.2 (Option.some.inj ht ▸ hspeaks))
        · exact .inr ⟨n, by omega, t, ht, hspeaks⟩

/-- No example can be told from the schema, and no schema at most eleven levels around it speaks for
its parts. -/
def LacksExample (d : Document) (s : Schema) : Prop :=
  d.infersExample s = false ∧
    ∀ n < Pointers.maxHops + 1, ∀ t, d.ancestor? (n + 1) s = some t → ¬t.SpeaksForParts

end Document

namespace Check.MissingExample

variable {c : RuleContext} {d : Document}

theorem exists_lack_iff {s : Schema} :
    (∃ lack, ofSchema c d s = some lack) ↔ d.LacksExample s := by
  have habove : (d.isCoveredFromAbove (Pointers.maxHops + 1) s = false) ↔
      ∀ n < Pointers.maxHops + 1, ∀ t, d.ancestor? (n + 1) s = some t → ¬t.SpeaksForParts := by
    rw [← Bool.not_eq_true, Document.isCoveredFromAbove_iff]
    simp only [not_exists, not_and]
  rw [Document.LacksExample, ← habove, ofSchema]
  cases d.infersExample s with
  | true => simp
  | false =>
    cases d.isCoveredFromAbove (Pointers.maxHops + 1) s with
    | true => simp
    | false =>
      simp only [Bool.or_self, Bool.false_eq_true, if_false, and_self, iff_true]
      cases d.firstUncovered? s <;> exact ⟨_, rfl⟩

/-! ## Containers -/

/-- The holder has an example. -/
def IsIllustrated (holder : Holder) : Prop :=
  hasValue holder.exampleValue = true ∨ holder.namedExamples ≠ []

theorem mem_flatMap_keys_iff {key : Mark} :
    key ∈ (containers c d).flatMap (·.keys) ↔ (∃ p ∈ d.parameters, key ∈ (ofParameter c d p).keys) ∨
      (∃ x ∈ d.headers, key ∈ (ofHeader c d x).keys) ∨
      ∃ m ∈ d.mediaTypes, key ∈ (ofMediaType c d m).keys := by
  simp [containers]

/-- A container with an example notes its key. -/
theorem keyMark_mem_keys {x : Container} {holder : Holder} (hx : x.holder? d = some holder)
    (hexample : IsIllustrated holder) {s : Schema}
    (hs : holder.schema.bind d.slotSchema? = some s) :
    holder.origin.keyMark ∈ (containers c d).flatMap (·.keys) := by
  have hnamed : holder.namedExamples ≠ [] ↔ (!holder.namedExamples.isEmpty) = true := by simp
  rw [IsIllustrated, hnamed] at hexample
  rw [mem_flatMap_keys_iff]
  cases x with
  | parameter id =>
    obtain ⟨p, hp, rfl⟩ := Option.map_eq_some_iff.1 hx
    refine .inl ⟨p, Array.mem_of_getElem? hp, ?_⟩
    rw [ofParameter]
    dsimp only at hexample ⊢
    rw [if_pos (by simp only [Bool.or_eq_true]; tauto)]
    exact List.mem_singleton_self _
  | header id =>
    obtain ⟨p, hp, rfl⟩ := Option.map_eq_some_iff.1 hx
    refine .inr (.inl ⟨p, Array.mem_of_getElem? hp, ?_⟩)
    rw [ofHeader]
    dsimp only at hexample hs ⊢
    rw [hs]
    dsimp only
    rw [if_pos (by simp only [Bool.or_eq_true]; tauto)]
    exact List.mem_singleton_self _
  | mediaType id =>
    obtain ⟨m, hm, rfl⟩ := Option.map_eq_some_iff.1 hx
    refine .inr (.inr ⟨m, Array.mem_of_getElem? hm, ?_⟩)
    rw [ofMediaType]
    dsimp only at hexample ⊢
    rw [if_pos (by simp only [Bool.or_eq_true]; tauto)]
    exact List.mem_singleton_self _

/-- The schema in a slot belongs to the object with the slot. -/
theorem owner_of_slot (hd : d.IsForest) {owner : SchemaOwner} {slot : SchemaSlot} {s : Schema}
    (hs : s ∈ d.schemas) (hslot : (owner, slot) ∈ d.slots)
    (hcontent : slot.content = .inline s.id) : s.owner = owner := by
  have hmem : owner ∈ [s.owner] := by
    rw [← hd.schemas s hs]
    exact List.mem_map_of_mem (f := Prod.fst) (List.mem_filter.2 ⟨hslot, decide_eq_true hcontent⟩)
  exact (List.mem_singleton.1 hmem).symm

/-- A container, as what a schema can belong to. -/
def ownerOf : Container → SchemaOwner
  | .parameter id => .parameter id
  | .header id => .header id
  | .mediaType id => .mediaType id

theorem mem_slots_of_holder (hd : d.IsForest) {x : Container} {holder : Holder}
    (hx : x.holder? d = some holder) {slot : SchemaSlot} (hslot : holder.schema = some slot) :
    (ownerOf x, slot) ∈ d.slots := by
  cases x with
  | parameter id =>
    obtain ⟨p, hp, rfl⟩ := Option.map_eq_some_iff.1 hx
    have hid : p.id = id := congrArg ParameterId.mk (hd.number .parameters id.index p hp _ rfl)
    have hslot : p.schema = some slot := hslot
    exact mem_gather.2 ⟨.parameters, p, Array.mem_of_getElem? hp,
      by simp [Store.slots, hslot, hid, ownerOf]⟩
  | header id =>
    obtain ⟨p, hp, rfl⟩ := Option.map_eq_some_iff.1 hx
    have hid : p.id = id := congrArg HeaderId.mk (hd.number .headers id.index p hp _ rfl)
    have hslot : p.schema = some slot := hslot
    exact mem_gather.2 ⟨.headers, p, Array.mem_of_getElem? hp,
      by simp [Store.slots, hslot, hid, ownerOf]⟩
  | mediaType id =>
    obtain ⟨m, hm, rfl⟩ := Option.map_eq_some_iff.1 hx
    have hid : m.id = id := congrArg MediaTypeId.mk (hd.number .mediaTypes id.index m hm _ rfl)
    have hslot : m.schema = some slot := hslot
    exact mem_gather.2 ⟨.mediaTypes, m, Array.mem_of_getElem? hm,
      by simp [Store.slots, hslot, hid, ownerOf]⟩

theorem schemaKey_of_owner {x : Container} {holder : Holder} (hx : x.holder? d = some holder)
    {s : Schema} (howner : s.owner = ownerOf x) : schemaKey d s = holder.origin.keyMark := by
  rw [schemaKey, howner]
  cases x <;>
  · obtain ⟨p, hp, rfl⟩ := Option.map_eq_some_iff.1 hx
    simp [ownerOf, hp]

/-- The schema in a container goes by the key of the container. -/
theorem schemaKey_of_holder (hd : d.IsForest) {x : Container} {holder : Holder}
    (hx : x.holder? d = some holder) {slot : SchemaSlot} (hslot : holder.schema = some slot)
    {s : Schema} (hs : s ∈ d.schemas) (hcontent : slot.content = .inline s.id) :
    schemaKey d s = holder.origin.keyMark :=
  schemaKey_of_owner hx (owner_of_slot hd hs (mem_slots_of_holder hd hx hslot) hcontent)

/-! ## Findings about a schema -/

/-- Findings come from containers or from schemas. -/
theorem exists_finding_iff (hdoc : c.document = some d) (hc : c.cancelled = false)
    (hdeadlines : ∀ pool, c.deadlines pool = none) {target : Target} :
    (∃ f ∈ evaluate c, f.target = target) ↔
      (∃ outcome ∈ containers c d, ∃ f ∈ outcome.findings, f.target = target) ∨
        ∃ lack ∈ reportedLacks c d, ∃ f ∈ lack.outcome.findings, f.target = target := by
  simp only [mem_evaluate_iff hdoc hc, c.taken_of_none (hdeadlines _)]
  grind

/-- A media type without an example reports the schema as the first uncovered property of its own
schema. -/
def ReportsProperty (d : Document) (m : MediaType) (s : Schema) : Prop :=
  IsBare d m ∧ ∃ name slot, IsUncoveredIn d m name slot ∧ d.slotSchema? slot = some s

/-- The keys that are accounted for when the check comes to a position of the walk: those that
containers note, and those of the schemas reported before. -/
def accountedBefore (c : RuleContext) (d : Document) (i : Nat) : List Mark :=
  accounted (containerKeys c d) ((d.walkedSchemas.take i).map (ofSchema c d))

/-- The findings about containers that are about schemas are those of media types about
properties. -/
theorem exists_container_finding_iff (hd : d.SchemasNamed) {s : Schema}
    (hs : d.schema? s.id = some s) :
    (∃ outcome ∈ containers c d, ∃ f ∈ outcome.findings, f.target = .schema s.id) ↔
      ∃ m ∈ d.mediaTypes, ReportsProperty d m s := by
  constructor
  · rintro ⟨outcome, houtcome, f, hf, htarget⟩
    simp only [containers, List.mem_append, List.mem_map] at houtcome
    rcases houtcome with (⟨p, -, rfl⟩ | ⟨x, -, rfl⟩) | ⟨m, hm, rfl⟩
    · exact absurd (htarget.symm.trans (target_of_mem_ofParameter hf)) nofun
    · exact absurd (htarget.symm.trans (target_of_mem_ofHeader hf)) nofun
    · obtain ⟨hbare, rfl | ⟨name, slot, huncovered, rfl⟩⟩ := mem_ofMediaType_iff.1 hf
      · exact absurd htarget nofun
      · refine ⟨m, Array.mem_toList_iff.1 hm, hbare, name, slot, huncovered, ?_⟩
        cases hslot : d.slotSchema? slot with
        | none => exact absurd (htarget.symm.trans (target_propertyFinding_of_none hslot)) nofun
        | some property =>
          have hid : s.id = property.id :=
            Target.schema.inj (htarget.symm.trans (target_propertyFinding_of_some hslot))
          rw [← hs, hid, hd.schema?_of_slot hslot]
  · rintro ⟨m, hm, hbare, name, slot, huncovered, hslot⟩
    refine ⟨ofMediaType c d m, ?_, propertyFinding c d m name slot,
      mem_ofMediaType_iff.2 ⟨hbare, .inr ⟨name, slot, huncovered, rfl⟩⟩, ?_⟩
    · simp only [containers, List.mem_append, List.mem_map]
      exact .inr ⟨m, Array.mem_toList_iff.2 hm, rfl⟩
    · exact target_propertyFinding_of_some hslot

/-- A schema is reported at its place in the walk, if it lacks an example and its key is not
accounted for there. -/
theorem exists_lack_finding_iff (hd : d.SchemasNamed) (hwalk : c.walk = d.walk)
    (hdeadlines : ∀ pool, c.deadlines pool = none) {s : Schema} (hs : d.schema? s.id = some s) :
    (∃ lack ∈ reportedLacks c d, ∃ f ∈ lack.outcome.findings, f.target = .schema s.id) ↔
      ∃ i, d.walkedSchemas[i]? = some s ∧ d.LacksExample s ∧
        schemaKey d s ∉ accountedBefore c d i := by
  have hjudged : judged c d = d.walkedSchemas := by
    rw [judged, c.taken_of_none (hdeadlines _), hwalk, Document.walkedSchemas]
  simp only [mem_reportedLacks_iff, hjudged]
  constructor
  · rintro ⟨lack, ⟨i, t, ht, hlack, hnew⟩, f, hf, htarget⟩
    obtain ⟨hkey, -, htargets⟩ := ofSchema_eq_some hlack
    have hid : t.id = s.id := Target.schema.inj ((htargets f hf).symm.trans htarget)
    have hfound := hd.schema?_of_mem_filterMap (List.mem_of_getElem? ht)
    obtain rfl : t = s := by
      rw [hid, hs] at hfound
      exact (Option.some.inj hfound).symm
    exact ⟨i, ht, exists_lack_iff.1 ⟨lack, hlack⟩, hkey ▸ hnew⟩
  · rintro ⟨i, hi, hlacks, hnew⟩
    obtain ⟨lack, hlack⟩ := exists_lack_iff (c := c).2 hlacks
    obtain ⟨hkey, hmissing, -⟩ := ofSchema_eq_some hlack
    exact ⟨lack, ⟨i, s, hi, hlack, hkey ▸ hnew⟩, _, hmissing, rfl⟩

theorem schemaKey_of_ancestor {n : Nat} {s top : Schema}
    (h : d.ancestor? (n + 1) s = some top) : schemaKey d s = s.position := by
  obtain ⟨parent, hparent, -⟩ := Option.bind_eq_some_iff.1 h
  unfold Document.enclosingSchema? at hparent
  split at hparent
  · rename_i howner
    rw [schemaKey, howner]
    rfl
  · cases hparent

/-- **What the example of a container covers.** Of the schemas at and inside the schema of a
container with an example, those have findings that a media type reports as its first uncovered
property, and those inside that lack an example, as far as the schemas around them go, and whose
keys are not accounted for. -/
theorem targeted_iff (root : Node) (d : Document) (h : Document.ofNode root = .ok d)
    (c : RuleContext) (hdoc : c.document = some d) (hwalk : c.walk = d.walk)
    (hc : c.cancelled = false) (hdeadlines : ∀ pool, c.deadlines pool = none)
    (x : Container) (holder : Holder) (hx : x.holder? d = some holder)
    (hexample : IsIllustrated holder) (slot : SchemaSlot) (hslot : holder.schema = some slot)
    (top : Schema) (htop : top ∈ d.schemas) (hcontent : slot.content = .inline top.id)
    (n : Nat) (s : Schema) (hs : s ∈ d.schemas) (hancestor : d.ancestor? n s = some top) :
    (∃ f ∈ evaluate c, f.target = .schema s.id) ↔
      (∃ m ∈ d.mediaTypes, ReportsProperty d m s) ∨
      (0 < n ∧ ∃ i, d.walkedSchemas[i]? = some s ∧ d.LacksExample s ∧
        s.position ∉ accountedBefore c d i) := by
  obtain ⟨-, draft, hdraft⟩ := Document.loaded_of_ofNode h
  have hd := hdraft.schemasNamed
  have hforest := Document.isForest_of_ofNode h
  have hfound := hd.schema?_of_mem hs
  rw [exists_finding_iff hdoc hc hdeadlines, exists_container_finding_iff hd hfound,
    exists_lack_finding_iff hd hwalk hdeadlines hfound]
  refine or_congr_right ?_
  cases n with
  | zero =>
    obtain rfl : s = top := Option.some.inj hancestor
    have htopSlot : holder.schema.bind d.slotSchema? = some s := by
      rw [hslot, Option.bind_some, Document.slotSchema?, Document.slotId?, hcontent]
      exact hfound
    have hkeys : schemaKey d s ∈ containerKeys c d := by
      rw [schemaKey_of_holder hforest hx hslot hs hcontent, containerKeys,
        c.taken_of_none (hdeadlines _)]
      exact keyMark_mem_keys hx hexample htopSlot
    refine iff_of_false ?_ fun h => absurd h.1 (Nat.lt_irrefl 0)
    rintro ⟨i, -, -, hnew⟩
    exact hnew (mem_accounted_of_mem hkeys _)
  | succ n =>
    rw [schemaKey_of_ancestor hancestor]
    simp

/-- A header with an example, around a property that lacks one. -/
def illustrated : Node :=
  .table 1 [("openapi", .word "3.1.0" 1), ("components", .table 3 [("headers", .table 4 [
    ("H", .table 5 [("example", .word "limit" 6), ("schema", .table 7 [("type", .word "object" 8),
      ("properties", .table 9 [("a", .table 10 [("type", .word "object" 11)])])])])])])]

/-- What the header holds, and the schema around its property. -/
theorem holder_illustrated {d : Document} (h : (d.header? ⟨0⟩).map (fun x =>
      (hasValue x.exampleValue, x.schema.map SchemaSlot.content)) =
        some (true, some (.inline ⟨0⟩))) :
    ∃ holder slot, (Container.header ⟨0⟩).holder? d = some holder ∧ IsIllustrated holder ∧
      holder.schema = some slot ∧ slot.content = .inline ⟨0⟩ := by
  obtain ⟨x, hx, he⟩ := Option.map_eq_some_iff.1 h
  obtain ⟨hvalue, hschema⟩ := Prod.mk.inj he
  obtain ⟨slot, hslot, hcontent⟩ := Option.map_eq_some_iff.1 hschema
  exact ⟨_, slot, congrArg (Option.map _) hx, .inl hvalue, hslot, hcontent⟩

theorem targeted_iff_top : ∃ d, Document.ofNode illustrated = .ok d ∧
    (∃ holder, (Container.header ⟨0⟩).holder? d = some holder ∧ IsIllustrated holder) ∧
      ¬∃ f ∈ evaluate (check.contextOf d), f.target = .schema ⟨0⟩ := by
  have hrun : ((Document.ofNode illustrated).toOption.bind fun d => some
      ((d.header? ⟨0⟩).map (fun x => (hasValue x.exampleValue, x.schema.map SchemaSlot.content)),
        d.schemas[0]?.map Schema.id, d.mediaTypes.size)) =
      some (some (true, some (.inline ⟨0⟩)), some ⟨0⟩, 0) := by
    decide +kernel
  obtain ⟨d, hd, he⟩ := Document.ofNode_of_toOption hrun
  obtain ⟨hheader, he⟩ := Prod.mk.inj (Option.some.inj he)
  obtain ⟨hschema, hmedia⟩ := Prod.mk.inj he
  obtain ⟨holder, slot, hholder, hexample, hslot, hcontent⟩ := holder_illustrated hheader
  obtain ⟨top, htop, hid⟩ := Option.map_eq_some_iff.1 hschema
  have hmem := Array.mem_of_getElem? htop
  have hiff := targeted_iff illustrated d hd (check.contextOf d) rfl rfl rfl (fun _ => rfl)
    (.header ⟨0⟩) holder hholder hexample slot hslot top hmem (hid ▸ hcontent) 0 top hmem rfl
  rw [hid] at hiff
  refine ⟨d, hd, ⟨holder, hholder, hexample⟩, fun hf => ?_⟩
  rcases hiff.1 hf with ⟨m, hm, -⟩ | ⟨hlt, -⟩
  · exact absurd hm (by simp [Array.size_eq_zero_iff.1 hmedia])
  · exact absurd hlt (Nat.lt_irrefl 0)

/-- The property is reported, although the example of the header shows it. -/
theorem exists_targeted_inside : ∃ d, Document.ofNode illustrated = .ok d ∧
    ∃ holder slot, (Container.header ⟨0⟩).holder? d = some holder ∧ IsIllustrated holder ∧
      holder.schema = some slot ∧ slot.content = .inline ⟨0⟩ ∧
      (∃ s top, d.schema? ⟨1⟩ = some s ∧ d.enclosingSchema? s = some top ∧ top.id = ⟨0⟩) ∧
      ∃ f ∈ evaluate (check.contextOf d), f.target = .schema ⟨1⟩ := by
  have hrun : ((Document.ofNode illustrated).toOption.bind fun d => some
      ((d.header? ⟨0⟩).map (fun x => (hasValue x.exampleValue, x.schema.map SchemaSlot.content)),
        ((d.schema? ⟨1⟩).bind d.enclosingSchema?).map Schema.id,
        (reportedLacks (check.contextOf d) d).any fun lack =>
          lack.outcome.findings.any (·.target = .schema ⟨1⟩))) =
      some (some (true, some (.inline ⟨0⟩)), some ⟨0⟩, true) := by
    decide +kernel
  obtain ⟨d, hd, he⟩ := Document.ofNode_of_toOption hrun
  obtain ⟨hheader, he⟩ := Prod.mk.inj (Option.some.inj he)
  obtain ⟨haround, hreported⟩ := Prod.mk.inj he
  obtain ⟨holder, slot, hholder, hexample, hslot, hcontent⟩ := holder_illustrated hheader
  obtain ⟨top, htop, hid⟩ := Option.map_eq_some_iff.1 haround
  obtain ⟨s, hs, htop⟩ := Option.bind_eq_some_iff.1 htop
  obtain ⟨lack, hlack, hf⟩ := List.any_eq_true.1 hreported
  obtain ⟨f, hf, htarget⟩ := List.any_eq_true.1 hf
  exact ⟨d, hd, holder, slot, hholder, hexample, hslot, hcontent, ⟨s, top, hs, htop, hid⟩, f,
    (mem_evaluate_iff rfl rfl).2 (.inr ⟨lack, hlack, hf⟩), of_decide_eq_true htarget⟩

end Check.MissingExample

end ApiLint
