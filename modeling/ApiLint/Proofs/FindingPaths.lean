import ApiLint.Proofs.FindingSpots

/-!
# Paths identify locations

Plain locations have different paths (`Location.path_inj`), and no other locations come up:

* **The loader** builds plain locations alone (`Document.Loaded.isPlain`): every object stands where
  its place does, and so do slots.
* **The checks** add steps under fixed names to these, or a key or a position
  (`Document.Spot.isPlain`), whatever their pools skip or however they order the jobs.

So the path of a finding is that of one plain location (`paths_identify`).
-/

set_option autoImplicit false

namespace ApiLint

open Yaml (Node Mark)

/-! ## Locations that the loader builds -/

namespace Document

/-- Everything stands at a plain location. -/
structure IsPlain (d : Document) : Prop where
  objects : ∀ s, ∀ x ∈ d.arena s, (s.originOf x).location.isPlain = true
  slots : ∀ owner slot, (owner, slot) ∈ d.slots → slot.origin.location.isPlain = true
  items : ∀ item ∈ d.paths, item.origin.location.isPlain = true
  operations : ∀ item op, (item, op) ∈ d.operations → op.origin.location.isPlain = true
  references : ∀ r ∈ d.references.all, r.origin.location.isPlain = true

/-- **The loader builds plain locations.** -/
theorem Loaded.isPlain {d : Document} {draft : Draft} (hd : d.Loaded draft) : d.IsPlain := by
  have hread : ∀ {h p}, ReadAfter d.specVersion d.root h p → p.location.isPlain = true := by
    intro h p hp
    obtain ⟨b, horder⟩ := readAfter_iff.1 hp
    exact isPlain_of_mem_readingOrder (horder ▸ List.mem_append_cons_self)
  have horigin : ∀ o, d.HasOrigin o → o.location.isPlain = true := by
    intro o ho
    obtain ⟨h, p, hp, rfl⟩ := hd.exists_place_of_origin ho
    exact hread hp
  refine ⟨fun s x hx => horigin _ (.object hx), fun owner slot hslot => horigin _ (.slot hslot),
    fun item hitem => horigin _ (.item hitem), fun item op hop => ?_, fun r hr => ?_⟩
  · obtain ⟨h, p, hp, -, rfl⟩ := hd.exists_place_of_operation hop
    exact hread hp
  · obtain ⟨p, hp, -, hlocation⟩ := hd.place_of_reference hr
    rw [← hlocation]
    exact isPlain_of_mem_readingOrder hp

namespace IsPlain

variable {d : Document} (hd : d.IsPlain)
include hd

theorem origin {o : Origin} (ho : d.HasOrigin o) : o.location.isPlain = true := by
  cases ho with
  | @object s x hx => exact hd.objects s x hx
  | @slot owner slot hslot => exact hd.slots owner slot hslot
  | @item item hitem => exact hd.items item hitem

end IsPlain

end Document

/-! ## Locations that checks build -/

namespace Location

variable {l : Location} (hl : l.isPlain = true)
include hl

theorem isPlain_field {name : String} (hname : (Segment.field name).isPlain = true) :
    (l.field name).isPlain = true := isPlain_child.2 ⟨hl, hname⟩

theorem isPlain_key (name : String) : (l.key name).isPlain = true := isPlain_child.2 ⟨hl, rfl⟩

theorem isPlain_index (i : Nat) : (l.index i).isPlain = true := isPlain_child.2 ⟨hl, rfl⟩

end Location

/-- The spots of a document with plain locations are plain. -/
theorem Document.Spot.isPlain {d : Document} (hd : d.IsPlain) {l : Location} {start stop : Mark}
    (h : d.Spot l start stop) : l.isPlain = true := by
  have hfield : ∀ {o : Origin} {name : String}, d.HasOrigin o →
      (Segment.field name).isPlain = true → (o.location.field name).isPlain = true :=
    fun ho hname => Location.isPlain_field (hd.origin ho) hname
  have hexamples : (Segment.field "examples").isPlain = true := by decide
  cases h with
  | options => rfl
  | whole ho | key ho => exact hd.origin ho
  | keyword hs hkeyword => exact hfield (hasOrigin_schema hs) hkeyword
  | keywordItem i hs hkeyword =>
    exact Location.isPlain_index (hfield (hasOrigin_schema hs) hkeyword) i
  | keywordEntry name hs hkeyword =>
    exact Location.isPlain_key (hfield (hasOrigin_schema hs) hkeyword) name
  | schemaExample hs _ => exact hfield (hasOrigin_schema hs) (by decide)
  | schemaExamples i hs _ =>
    exact Location.isPlain_index (hfield (hasOrigin_schema hs) hexamples) i
  | holderExample hx _ => exact hfield (hasOrigin_holder hx) (by decide)
  | holderNamed name hx _ =>
    exact Location.isPlain_key (hfield (hasOrigin_holder hx) hexamples) name
  | namedValue he _ => exact hfield (hasOrigin_namedExample he) (by decide)

/-- The path of the finding is that of a plain location. -/
def Finding.IsPlain (f : Finding) : Prop := ∃ l : Location, l.isPlain = true ∧ f.path = l.path

/-- **The checks report at plain locations.** -/
theorem RuleContext.isPlain_evaluate {c : RuleContext} {d : Document} (hd : d.IsPlain)
    (hdoc : c.document = some d) {check : Check} (hcheck : check ∈ Catalog.checks) :
    ∀ f ∈ check.evaluate c, f.IsPlain := by
  intro f hf
  obtain ⟨l, hl, hpath⟩ := RuleContext.standsIn_evaluate hdoc hcheck f hf
  exact ⟨l, hl.isPlain hd, hpath⟩

/-- **Paths identify locations.** Plain locations with one path are the same. Everything in a
document that loads stands at a plain location, and what any check reports of it has the path of
exactly one. -/
theorem paths_identify :
    (∀ l m : Location, l.isPlain = true → m.isPlain = true → l.path = m.path → l = m) ∧
    ∀ (root : Node) (d : Document), Document.ofNode root = .ok d →
      d.IsPlain ∧
      ∀ c : RuleContext, c.document = some d → ∀ check ∈ Catalog.checks, ∀ f ∈ check.evaluate c,
        ∃! l : Location, l.isPlain = true ∧ f.path = l.path := by
  have hinj : ∀ l m : Location, l.isPlain = true → m.isPlain = true → l.path = m.path → l = m :=
    fun _ _ hl hm => Location.path_inj hl hm
  refine ⟨hinj, fun root d h => ?_⟩
  obtain ⟨rfl, draft, hd⟩ := Document.loaded_of_ofNode h
  refine ⟨hd.isPlain, fun c hdoc check hcheck f hf => ?_⟩
  obtain ⟨l, hl, hpath⟩ := RuleContext.isPlain_evaluate hd.isPlain hdoc hcheck f hf
  exact ⟨l, ⟨hl, hpath⟩, fun m ⟨hm, hpath'⟩ => hinj m l hm hl (hpath'.symm.trans hpath)⟩

/-- A document with a schema whose name ends in a backslash. -/
def slashed : Node :=
  .table 1 [("openapi", .word "3.1.0" 1),
    ("components", .table 3 [("schemas", .table 4 [("a\\", .table 5 [
      ("properties", .table 6 [("Ab", .table 7 [])])])])])]

/-- The quote behind the backslash ends the name, and cannot be read as a part of it. -/
theorem paths_identify_slashed : ∃ d, Document.ofNode slashed = .ok d ∧
    (∃ f ∈ Check.PropertyCase.check.evaluate (Check.PropertyCase.check.contextOf d),
      f.path = "$.components.schemas[\x27a\\\x27].properties[\x27Ab\x27]" ∧
      ∃! l : Location, l.isPlain = true ∧ f.path = l.path) ∧
    ∀ l : Location, l.isPlain = true → l.path = "$[\x27a\\\x27].b" →
      l = (Location.root.key "a\\").field "b" := by
  have hrun : ((Document.ofNode slashed).toOption.bind fun d => some <|
      (Check.PropertyCase.check.evaluate (Check.PropertyCase.check.contextOf d)).map (·.path)) =
        some ["$.components.schemas[\x27a\\\x27].properties[\x27Ab\x27]"] := by decide +kernel
  obtain ⟨d, hd, he⟩ := Document.ofNode_of_toOption hrun
  obtain ⟨hinj, hload⟩ := paths_identify
  obtain ⟨f, hf, hpath⟩ := List.mem_map.1
    (Option.some.inj he ▸ List.mem_singleton_self _ : _ ∈ List.map Finding.path _)
  have hcheck : Check.PropertyCase.check ∈ Catalog.checks := List.mem_cons_self
  exact ⟨d, hd, ⟨f, hf, hpath, (hload slashed d hd).2 _ rfl _ hcheck f hf⟩,
    fun l hl hpath => hinj l _ hl (by decide) (hpath.trans (by decide))⟩

end ApiLint
