import ApiLint.Check.Combinator
import ApiLint.Proofs.FindingSpots

/-!
# Combinators with a single entry

A schema has a slot for each entry of a combinator that is a mapping, and no slot for other entries
(`Place.ReadsBranches`). The check of combinators counts slots. So it reports a combinator exactly if
one of the entries written under it is a mapping, unless fields beside it describe that entry, a
reference, in a document of version 3.0 (`Check.Combinator.reports_single_mapping`). Booleans, which
can be schemas as well, and entries of other sorts are not counted: an `anyOf` with a boolean alone is
passed over, and a `oneOf` with a mapping and a boolean is reported
(`Check.Combinator.exists_boolean_not_counted`).
-/

set_option autoImplicit false

namespace ApiLint

open Yaml (Node)

/-- Names of fields are told apart by the paths to them. -/
theorem Location.path_field_inj {l : Location} {a b : String}
    (h : (l.field a).path = (l.field b).path) : a = b := by
  simp only [path, field, child, List.flatMap_append, List.flatMap_singleton, Segment.path] at h
  have hchars := List.append_cancel_left (List.cons.inj (String.ofList_injective h)).2
  exact String.toList_injective (List.cons.inj hchars).2

namespace Check.Combinator

/-! ## What is written -/

/-- The entries of the sequence written under a keyword. -/
def written (s : Schema) (keyword : String) : List Node := (s.node.itemsAt? keyword).getD []

/-- A field of the schema describes what it holds, or is an extension. -/
def HasSiblings (s : Schema) : Prop :=
  ∃ field ∈ s.node.fields, field.1 ∈ descriptiveSiblings ∨ field.1.startsWith "x-" = true ∨
    field.1.startsWith "X-" = true

/-- A reference in `allOf` with fields beside it, in a document of version 3.0. -/
def IsException (d : Document) (s : Schema) (keyword : String) (only : Node) : Prop :=
  keyword = "allOf" ∧ d.isVersion30 = true ∧ only.reference?.isSome = true ∧ HasSiblings s

/-- One entry alone is a mapping, and there is no need for it. -/
def IsNeedless (d : Document) (s : Schema) (keyword : String) : Prop :=
  ∃ only, (written s keyword).filter Node.isMapping = [only] ∧ ¬IsException d s keyword only

/-- What is reported of a combinator. -/
def report (c : RuleContext) (s : Schema) (keyword : String) : Finding :=
  c.findingAt (c.message template [keyword]) (s.origin.location.field keyword)
    (s.keywordMark keyword) (s.keywordMark keyword) (.schema s.id)

variable {d : Document} {draft : Draft} {s : Schema}

theorem exists_combinator {keyword : String} :
    (∃ slots, (keyword, slots) ∈ s.combinators) ↔ keyword ∈ ["allOf", "anyOf", "oneOf"] := by
  simp [Schema.combinators, exists_or]

theorem isDescribed_iff (hd : d.Loaded draft) (hs : s ∈ d.schemas) :
    isDescribed s = true ↔ HasSiblings s := by
  obtain ⟨hmarks, hextensions⟩ := hd.fields_of_mem_schemas hs
  have hkeyword : ∀ keyword, s.hasKeyword keyword = true ↔
      ∃ field ∈ s.node.fields, field.1 = keyword := by
    intro keyword
    rw [Schema.hasKeyword, hmarks, Keyed.isSome_find?_ofList]
    simp
  have hextended : (!s.extensions.isEmpty) = true ↔
      ∃ field ∈ s.node.fields, field.1.startsWith "x-" = true ∨ field.1.startsWith "X-" = true := by
    simp only [hextensions, List.isEmpty_map, Bool.not_eq_true', List.isEmpty_eq_false_iff_exists_mem,
      List.mem_filter, Bool.or_eq_true]
  simp only [isDescribed, Bool.or_eq_true, List.any_eq_true, hkeyword, hextended, HasSiblings]
  constructor
  · rintro (⟨keyword, hdescriptive, field, hfield, rfl⟩ | ⟨field, hfield, hextension⟩)
    · exact ⟨field, hfield, .inl hdescriptive⟩
    · exact ⟨field, hfield, .inr hextension⟩
  · rintro ⟨field, hfield, hdescriptive | hextension⟩
    · exact .inl ⟨field.1, hdescriptive, field, hfield, rfl⟩
    · exact .inr ⟨field, hfield, hextension⟩

/-- The slots of a combinator are references where the mappings written are. -/
theorem isReference_combinators (hd : d.Loaded draft) (hs : s ∈ d.schemas) {keyword : String}
    {slots : List SchemaSlot} (hslots : (keyword, slots) ∈ s.combinators) :
    slots.map SchemaSlot.isReference =
      ((written s keyword).filter Node.isMapping).map fun n => n.reference?.isSome := by
  obtain ⟨-, p, -, hnode, -, -, hbranches⟩ := hd.exists_place_of_schema hs
  rw [hbranches keyword slots hslots, written, hnode]
  conv_rhs => rw [← List.zipIdx_map_fst 0 ((p.node.itemsAt? keyword).getD []), List.filter_map]
  simp only [Place.placesOf, Member.places, Member.combinator, List.map_map]
  rfl

/-! ## What is reported -/

/-- A combinator is reported if it is needless. -/
theorem ofCombinator_eq_some (hd : d.Loaded draft) (hs : s ∈ d.schemas) {keyword : String}
    {slots : List SchemaSlot} (hslots : (keyword, slots) ∈ s.combinators) {c : RuleContext}
    {f : Finding} :
    ofCombinator c d s keyword slots = some f ↔ f = report c s keyword ∧ IsNeedless d s keyword := by
  have hreferences := isReference_combinators hd hs hslots
  unfold ofCombinator
  split
  · rename_i slot
    obtain ⟨only, honly, hreference⟩ := List.map_eq_singleton_iff.1 hreferences.symm
    have hexcused : isExcused d s keyword slot = true ↔ IsException d s keyword only := by
      simp [isExcused, IsException, ← hreference, isDescribed_iff hd hs, and_assoc]
    have hneedless : IsNeedless d s keyword ↔ ¬IsException d s keyword only := by
      simp [IsNeedless, honly]
    rw [hneedless, ← hexcused]
    split
    · rename_i hskip
      exact iff_of_false nofun fun ⟨_, hnot⟩ => hnot hskip
    · rename_i hnot
      rw [and_iff_left hnot, Option.some.injEq]
      exact eq_comm
  · rename_i hmany
    refine iff_of_false nofun fun ⟨_, only, honly, _⟩ => ?_
    rw [honly] at hreferences
    obtain ⟨slot, rfl, -⟩ := List.map_eq_singleton_iff.1 hreferences
    exact hmany slot rfl

theorem mem_evaluate_iff (hd : d.Loaded draft) {c : RuleContext} (hdoc : c.document = some d)
    {f : Finding} : f ∈ evaluate c ↔ ∃ s ∈ c.schemas d, ∃ keyword ∈ ["allOf", "anyOf", "oneOf"],
      f = report c s keyword ∧ IsNeedless d s keyword := by
  have hcombinators : f ∈ evaluate c ↔ ∃ s ∈ c.schemas d, ∃ keyword slots,
      (keyword, slots) ∈ s.combinators ∧ ofCombinator c d s keyword slots = some f := by
    rw [evaluate, hdoc]
    simp only [List.mem_flatMap, List.mem_filterMap, Prod.exists, Schema.combinators]
  rw [hcombinators]
  refine exists_congr fun s => and_congr_right fun hs => ?_
  have hmem := c.mem_of_mem_schemas hs
  constructor
  · rintro ⟨keyword, slots, hslots, hf⟩
    exact ⟨keyword, exists_combinator.1 ⟨slots, hslots⟩,
      (ofCombinator_eq_some hd hmem hslots).1 hf⟩
  · rintro ⟨keyword, hkeyword, hf⟩
    obtain ⟨slots, hslots⟩ := exists_combinator.2 hkeyword
    exact ⟨keyword, slots, hslots, (ofCombinator_eq_some hd hmem hslots).2 hf⟩

/-- **Mappings are counted.** A combinator of a walked schema is reported exactly if one entry alone
of those written under it is a mapping, unless that is a reference in `allOf` with fields beside it,
in a document of version 3.0. Nothing else is reported. Where all entries are mappings, this is to
say that there is one entry. -/
theorem reports_single_mapping (root : Node) (d : Document) (h : Document.ofNode root = .ok d)
    (c : RuleContext) (hdoc : c.document = some d) :
    (∀ s ∈ c.schemas d, ∃ h p, ReadAfter d.specVersion root h p ∧ s.node = p.node ∧
      s.origin = p.origin) ∧
    (∀ s ∈ c.schemas d, ∀ keyword ∈ ["allOf", "anyOf", "oneOf"],
      (report c s keyword ∈ evaluate c ↔
        ∃ only, (written s keyword).filter Node.isMapping = [only] ∧
          ¬IsException d s keyword only)) ∧
    (∀ s ∈ c.schemas d, ∀ keyword ∈ ["allOf", "anyOf", "oneOf"],
      (∀ entry ∈ written s keyword, entry.isMapping = true) →
      (report c s keyword ∈ evaluate c ↔
        ∃ only, written s keyword = [only] ∧ ¬IsException d s keyword only)) ∧
    ∀ f ∈ evaluate c, ∃ s ∈ c.schemas d, ∃ keyword ∈ ["allOf", "anyOf", "oneOf"],
      f = report c s keyword := by
  obtain ⟨rfl, draft, hd⟩ := Document.loaded_of_ofNode h
  have hreport : ∀ s ∈ c.schemas d, ∀ keyword ∈ ["allOf", "anyOf", "oneOf"],
      (report c s keyword ∈ evaluate c ↔ IsNeedless d s keyword) := by
    intro s hs keyword hkeyword
    refine ⟨fun hf => ?_, fun hneedless => (mem_evaluate_iff hd hdoc).2
      ⟨s, hs, keyword, hkeyword, rfl, hneedless⟩⟩
    obtain ⟨s', hs', keyword', -, he, hneedless⟩ := (mem_evaluate_iff hd hdoc).1 hf
    -- findings of different schemas differ in their targets, those of one schema in their paths
    have hid : s.id = s'.id := Target.schema.inj (congrArg Finding.target he)
    have hsame : s = s' := by
      have hfound := hd.schemasNamed.schema?_of_mem_filterMap hs
      rw [hid, hd.schemasNamed.schema?_of_mem_filterMap hs'] at hfound
      exact (Option.some.inj hfound).symm
    subst hsame
    have hpath := congrArg Finding.path he
    simp only [report, RuleContext.findingAt, RuleContext.located, hdoc, Document.locate] at hpath
    rwa [Location.path_field_inj hpath]
  refine ⟨fun s hs => ?_, hreport, fun s hs keyword hkeyword hmappings => ?_, fun f hf => ?_⟩
  · obtain ⟨h, p, hp, hnode, horigin, -⟩ := hd.exists_place_of_schema (c.mem_of_mem_schemas hs)
    exact ⟨h, p, hp, hnode, horigin⟩
  · rw [hreport s hs keyword hkeyword, IsNeedless, List.filter_eq_self.2 hmappings]
  · obtain ⟨s, hs, keyword, hkeyword, rfl, -⟩ := (mem_evaluate_iff hd hdoc).1 hf
    exact ⟨s, hs, keyword, hkeyword, rfl⟩

/-- A document with a schema that has a mapping and a boolean under one combinator, and a boolean
alone under another. -/
def mixed : Node :=
  .table 1 [("openapi", .word "3.1.0" 1),
    ("components", .table 3 [("schemas", .table 4 [("Name", .table 5 [
      ("oneOf", .sequence [.table 6 [("type", .word "string" 6)],
        .scalar (.bool true) ⟨⟨7, 11⟩, ⟨7, 15⟩⟩] ⟨⟨6, 9⟩, ⟨8, 7⟩⟩),
      ("anyOf", .sequence [.scalar (.bool true) ⟨⟨8, 15⟩, ⟨8, 19⟩⟩] ⟨⟨8, 14⟩, ⟨8, 20⟩⟩)])])])]

/-- The two combinators of the schema, and what is reported. -/
theorem exists_mixed : ∃ d s, Document.ofNode mixed = .ok d ∧ s ∈ (check.contextOf d).schemas d ∧
    (written s "oneOf").length = 2 ∧ ((written s "oneOf").filter Node.isMapping).length = 1 ∧
    (written s "anyOf").length = 1 ∧ (written s "anyOf").filter Node.isMapping = [] ∧
    evaluate (check.contextOf d) = [report (check.contextOf d) s "oneOf"] := by
  have hrun : ((Document.ofNode mixed).toOption.bind fun d =>
      ((check.contextOf d).schemas d).head?.map fun s => decide (
        (written s "oneOf").length = 2 ∧ ((written s "oneOf").filter Node.isMapping).length = 1 ∧
        (written s "anyOf").length = 1 ∧
        ((written s "anyOf").filter Node.isMapping).isEmpty = true ∧
        evaluate (check.contextOf d) = [report (check.contextOf d) s "oneOf"])) = some true := by decide +kernel
  obtain ⟨d, hd, he⟩ := Document.ofNode_of_toOption hrun
  obtain ⟨s, hs, he⟩ := Option.map_eq_some_iff.1 he
  obtain ⟨htwo, hmapping, hone, hnone, hevaluate⟩ := of_decide_eq_true he
  exact ⟨d, s, hd, List.mem_of_head? hs, htwo, hmapping, hone, List.isEmpty_iff.1 hnone, hevaluate⟩

/-- The `oneOf` is reported for its mapping, the `anyOf` is not. -/
theorem reports_single_mapping_mixed : ∃ d s, Document.ofNode mixed = .ok d ∧
    s ∈ (check.contextOf d).schemas d ∧ report (check.contextOf d) s "oneOf" ∈ evaluate (check.contextOf d) ∧
    report (check.contextOf d) s "anyOf" ∉ evaluate (check.contextOf d) := by
  obtain ⟨d, s, hd, hs, -, hmapping, -, hnone, -⟩ := exists_mixed
  obtain ⟨-, hreports, -⟩ := reports_single_mapping mixed d hd (check.contextOf d) rfl
  obtain ⟨only, honly⟩ := List.length_eq_one_iff.1 hmapping
  refine ⟨d, s, hd, hs, (hreports s hs "oneOf" (by decide)).2 ⟨only, honly, ?_⟩, fun hf => ?_⟩
  · rintro ⟨hkeyword, -⟩
    exact absurd hkeyword (by decide)
  · obtain ⟨entry, hentry, -⟩ := (hreports s hs "anyOf" (by decide)).1 hf
    simp [hnone] at hentry

/-- Of two entries and of a single one, the two are reported. -/
theorem exists_boolean_not_counted : ∃ d s, Document.ofNode mixed = .ok d ∧
    s ∈ (check.contextOf d).schemas d ∧ (written s "oneOf").length = 2 ∧ (written s "anyOf").length = 1 ∧
    report (check.contextOf d) s "oneOf" ∈ evaluate (check.contextOf d) ∧
    report (check.contextOf d) s "anyOf" ∉ evaluate (check.contextOf d) := by
  obtain ⟨d, s, hd, hs, htwo, -, hone, -, hevaluate⟩ := exists_mixed
  refine ⟨d, s, hd, hs, htwo, hone, by simp [hevaluate], fun hf => ?_⟩
  rw [hevaluate, List.mem_singleton] at hf
  have hpath := congrArg Finding.path hf
  exact absurd (Location.path_field_inj hpath) (by decide)

end Check.Combinator

end ApiLint
