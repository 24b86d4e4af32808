import ApiLint.Check.Catalog
import ApiLint.Proofs.Origins
import ApiLint.Proofs.Reporting

/-!
# Where findings stand

`Document.Spot d l start stop`: something of the document can be reported at the location `l` from
one mark to another. There is a constructor for each way in which the checks pick the three, so
what is to be said of all findings has to be said of the spots only.

The checks report nothing elsewhere (`RuleContext.standsIn_evaluate`), whatever their pools skip or
however they order the jobs. That takes no more of a document than its lists hold, and says nothing
about how it was loaded.
-/

set_option autoImplicit false

namespace ApiLint

open Yaml (Node Mark)

namespace Document

/-- A finding can stand at the location, from one mark to another. -/
inductive Spot (d : Document) : Location → Mark → Mark → Prop
  /-- The document, for options that cannot be read. -/
  | options : Spot d .root ⟨1, 1⟩ ⟨1, 1⟩
  | whole {o : Origin} : d.HasOrigin o → Spot d o.location o.keyMark o.stop
  | key {o : Origin} : d.HasOrigin o → Spot d o.location o.keyMark o.keyMark
  | keyword {s : Schema} {keyword : String} : s ∈ d.schemas →
      (Segment.field keyword).isPlain = true →
      Spot d (s.origin.location.field keyword) (s.keywordMark keyword) (s.keywordMark keyword)
  | keywordItem {s : Schema} {keyword : String} (i : Nat) : s ∈ d.schemas →
      (Segment.field keyword).isPlain = true →
      Spot d ((s.origin.location.field keyword).index i) (s.keywordMark keyword)
        (s.keywordMark keyword)
  | keywordEntry {s : Schema} {keyword : String} (name : String) : s ∈ d.schemas →
      (Segment.field keyword).isPlain = true →
      Spot d ((s.origin.location.field keyword).key name) (s.keywordMark keyword)
        (s.keywordMark keyword)
  /-- The example of a schema, from the keyword to the end of the value. -/
  | schemaExample {s : Schema} {value : Node} : s ∈ d.schemas → s.exampleValue = some value →
      Spot d (s.origin.location.field "example") (s.keywordMark "example") value.stop
  | schemaExamples {s : Schema} {value : Node} (i : Nat) : s ∈ d.schemas →
      value ∈ s.exampleValues.getD [] →
      Spot d ((s.origin.location.field "examples").index i) value.mark value.stop
  | holderExample {x : Container} {holder : Holder} {value : Node} : x.holder? d = some holder →
      holder.exampleValue = some value →
      Spot d (holder.origin.location.field "example") value.mark value.stop
  /-- A named example where its holder has it. -/
  | holderNamed {x : Container} {holder : Holder} {id : NamedExampleId} {e : NamedExample}
      (name : String) : x.holder? d = some holder → d.namedExample? id = some e →
      Spot d ((holder.origin.location.field "examples").key name) e.origin.keyMark e.origin.stop
  | namedValue {id : NamedExampleId} {e : NamedExample} {value : Node} :
      d.namedExample? id = some e → e.value = some value →
      Spot d (e.origin.location.field "value") value.mark value.stop

section
variable {d : Document}

theorem mem_schemas_of_slot {slot : SchemaSlot} {s : Schema} (h : d.slotSchema? slot = some s) :
    s ∈ d.schemas := by
  obtain ⟨id, -, hs⟩ := Option.bind_eq_some_iff.1 h
  exact Array.mem_of_getElem? hs

theorem hasOrigin_holder {x : Container} {holder : Holder} (hx : x.holder? d = some holder) :
    d.HasOrigin holder.origin := by
  cases x <;> obtain ⟨object, hobject, rfl⟩ := Option.map_eq_some_iff.1 hx
  case parameter => exact .object (s := .parameters) (Array.mem_of_getElem? hobject)
  case header => exact .object (s := .headers) (Array.mem_of_getElem? hobject)
  case mediaType => exact .object (s := .mediaTypes) (Array.mem_of_getElem? hobject)

end

end Document

/-- The finding stands at a spot of the document. -/
def Finding.StandsIn (f : Finding) (d : Document) : Prop :=
  ∃ l, d.Spot l f.start f.stop ∧ f.path = l.path

theorem Document.Spot.standsIn {d : Document} {l : Location} {start stop : Mark}
    (h : d.Spot l start stop) {c : RuleContext} {message : String} {target : Target} :
    (c.findingAt message l start stop target).StandsIn d := by
  refine ⟨l, h, ?_⟩
  unfold RuleContext.findingAt RuleContext.located
  cases c.document <;> rfl

theorem Document.HasOrigin.standsIn {d : Document} {o : Origin} (h : d.HasOrigin o)
    {c : RuleContext} {message : String} {target : Target} :
    (c.finding message o target).StandsIn d :=
  (Document.Spot.whole h).standsIn

/-! ## Pools -/

theorem RuleContext.mem_of_mem_schemas {c : RuleContext} {d : Document} {s : Schema}
    (hs : s ∈ c.schemas d) : s ∈ d.schemas := by
  obtain ⟨id, -, hs⟩ := List.mem_filterMap.1 hs
  exact Array.mem_of_getElem? hs

/-- A run hands back what its jobs emit, and no more. -/
theorem Pool.exists_of_mem_run {α : Type} {p : Pool} {expired : Bool} {jobs : List (Job α)} {a : α}
    (h : a ∈ (p.run expired jobs).1) : ∃ job ∈ jobs, a ∈ job.emit () := by
  induction jobs generalizing p with
  | nil => cases h
  | cons job jobs ih =>
    rw [run] at h
    rcases List.mem_append.1 h with h | h
    · refine ⟨job, List.mem_cons_self, ?_⟩
      unfold take at h
      dsimp only at h
      split at h
      · cases h
      · split at h
        · cases h
        · exact h
    · obtain ⟨job, hjob, ha⟩ := ih h
      exact ⟨job, .tail _ hjob, ha⟩

theorem RuleContext.exists_of_mem_runPool {α : Type} {c : RuleContext} {name : String}
    {jobs : List (Job α)} {a : α} (h : a ∈ c.runPool name jobs) :
    ∃ job ∈ jobs, a ∈ job.emit () := by
  obtain ⟨job, hjob, ha⟩ := Pool.exists_of_mem_run h
  have htaken := ((c.orders name).arrange_perm _).mem_iff.1 hjob
  exact ⟨job, (c.taken_sublist name jobs).subset htaken, ha⟩

/-! ## Jobs that validate examples -/

namespace ExampleJob

variable {α β : Type} {P : α → Prop} {Q : β → Prop}

/-- Whatever validator a computation finds, its result has the property. -/
structure Gives (P : α → Prop) (m : StateM ExampleValidator α) : Prop where
  run : ∀ v, P (m.run v).1

theorem Gives.pure {a : α} (h : P a) : Gives P (pure a) := ⟨fun _ => h⟩

theorem Gives.bind {m : StateM ExampleValidator α} {k : α → StateM ExampleValidator β}
    (hm : Gives P m) (hk : ∀ a, P a → Gives Q (k a)) : Gives Q (m >>= k) :=
  ⟨fun v => (hk _ (hm.run v)).run _⟩

/-- All that is in the list which a computation hands back has the property. -/
abbrev GivesAll (P : α → Prop) (m : StateM ExampleValidator (List α)) : Prop :=
  Gives (∀ a ∈ ·, P a) m

theorem GivesAll.mapM {k : β → StateM ExampleValidator α} {xs : List β}
    (h : ∀ x ∈ xs, Gives P (k x)) : GivesAll P (xs.mapM k) := by
  induction xs with
  | nil => exact .pure (by simp)
  | cons x xs ih =>
    obtain ⟨hx, hxs⟩ := List.forall_mem_cons.1 h
    rw [List.mapM_cons]
    exact .bind hx fun a ha => .bind (ih hxs) fun as has =>
      .pure (List.forall_mem_cons.2 ⟨ha, has⟩)

theorem forall_mem_flatten {xss : List (List α)} (h : ∀ xs ∈ xss, ∀ x ∈ xs, P x) :
    ∀ x ∈ xss.flatten, P x := by
  intro x hx
  obtain ⟨xs, hxs, hx⟩ := List.mem_flatten.1 hx
  exact h xs hxs x hx

theorem GivesAll.flatten {k : β → StateM ExampleValidator (List α)} {xs : List β}
    (h : ∀ x ∈ xs, GivesAll P (k x)) : GivesAll P (List.flatten <$> xs.mapM k) :=
  .bind (GivesAll.mapM h) fun _ hbatches => .pure (forall_mem_flatten hbatches)

theorem forall_mem_findings {P : Finding → Prop} {c : RuleContext} {d : Document} {pool : String}
    {jobs : List ExampleJob} (h : ∀ job ∈ jobs, GivesAll P job) :
    ∀ f ∈ findings c d pool jobs, P f := by
  unfold ExampleJob.findings
  split
  · simp
  · refine (GivesAll.flatten (k := id) fun job hjob => h job ?_).run _
    exact (c.taken_sublist pool jobs).subset (((c.orders pool).arrange_perm _).mem_iff.1 hjob)

/-- Findings about a value stand where it is said to stand. -/
theorem standsIn_validate {d : Document} {l : Location} {start stop : Mark}
    (h : d.Spot l start stop) (c : RuleContext) (s : Schema) (value : Node) (name : String)
    (target : Target) :
    GivesAll (Finding.StandsIn · d) (validate c d s value name l start stop target) := by
  refine ⟨fun v f hf => ?_⟩
  obtain ⟨reason, -, rfl⟩ := List.mem_map.1 hf
  exact h.standsIn

end ExampleJob

namespace Check

variable {c : RuleContext} {d : Document}

section
variable (hdoc : c.document = some d)
include hdoc

theorem PropertyCase.standsIn_evaluate : ∀ f ∈ PropertyCase.evaluate c, f.StandsIn d := by
  intro f hf
  rw [PropertyCase.evaluate, hdoc] at hf
  obtain ⟨s, hs, hf⟩ := List.mem_flatMap.1 hf
  obtain ⟨⟨name, slot⟩, hslot, hf⟩ := List.mem_filterMap.1 hf
  dsimp only [PropertyCase.ofProperty] at hf
  split at hf
  · cases hf
  · obtain rfl := Option.some.inj hf
    exact (Document.Spot.key (Document.hasOrigin_property (c.mem_of_mem_schemas hs) hslot)).standsIn

theorem ComponentDescription.standsIn_evaluate :
    ∀ f ∈ ComponentDescription.evaluate c, f.StandsIn d := by
  intro f hf
  rw [ComponentDescription.evaluate, hdoc] at hf
  dsimp only at hf
  split at hf
  · obtain rfl := List.mem_singleton.1 hf
    exact Document.Spot.options.standsIn
  · obtain ⟨⟨component, i⟩, hcomponent, hf⟩ := List.mem_filterMap.1 hf
    obtain ⟨message, -, rfl⟩ := Option.map_eq_some_iff.1 hf
    have hmem : component ∈ d.components :=
      Array.mem_toList_iff.1 (List.fst_mem_of_mem_zipIdx hcomponent)
    exact (Document.HasOrigin.object (s := .components) hmem).standsIn

theorem ParameterDescription.standsIn_evaluate :
    ∀ f ∈ ParameterDescription.evaluate c, f.StandsIn d := by
  intro f hf
  rw [ParameterDescription.evaluate, hdoc] at hf
  obtain ⟨p, hp, hf⟩ := List.mem_filterMap.1 hf
  obtain ⟨id, -, hp⟩ := List.mem_filterMap.1 hp
  unfold ParameterDescription.ofParameter at hf
  split at hf
  · cases hf
  · obtain rfl := Option.some.inj hf
    exact (Document.HasOrigin.object (s := .parameters) (Array.mem_of_getElem? hp)).standsIn

theorem ExternalExample.standsIn_evaluate : ∀ f ∈ ExternalExample.evaluate c, f.StandsIn d := by
  intro f hf
  rw [ExternalExample.evaluate, hdoc] at hf
  obtain ⟨⟨id, text⟩, -, hf⟩ := List.mem_filterMap.1 hf
  obtain ⟨e, he, hf⟩ := Option.bind_eq_some_iff.1 hf
  unfold ExternalExample.ofNamed at hf
  split at hf
  · obtain rfl := Option.some.inj hf
    exact (Document.hasOrigin_namedExample he).standsIn
  · cases hf

theorem AmbiguousPath.standsIn_evaluate : ∀ f ∈ AmbiguousPath.evaluate c, f.StandsIn d := by
  intro f hf
  rw [AmbiguousPath.evaluate, hdoc] at hf
  obtain ⟨⟨earlier, later⟩, -, hf⟩ := List.mem_filterMap.1 hf
  obtain ⟨first, -, hf⟩ := Option.bind_eq_some_iff.1 hf
  obtain ⟨second, hsecond, hf⟩ := Option.bind_eq_some_iff.1 hf
  obtain rfl := Option.some.inj hf
  exact (Document.Spot.key (.item (Array.mem_of_getElem? hsecond))).standsIn

theorem Combinator.standsIn_evaluate : ∀ f ∈ Combinator.evaluate c, f.StandsIn d := by
  intro f hf
  rw [Combinator.evaluate, hdoc] at hf
  obtain ⟨s, hs, hf⟩ := List.mem_flatMap.1 hf
  obtain ⟨⟨keyword, entries⟩, hkeyword, hf⟩ := List.mem_filterMap.1 hf
  have hname : (Segment.field keyword).isPlain = true := by
    simp only [List.mem_cons, Prod.mk.injEq, List.not_mem_nil, or_false] at hkeyword
    rcases hkeyword with ⟨rfl, -⟩ | ⟨rfl, -⟩ | ⟨rfl, -⟩ <;> decide
  have hspot := Document.Spot.keyword (c.mem_of_mem_schemas hs) hname
  dsimp only [Combinator.ofCombinator] at hf
  split at hf
  · split at hf
    · cases hf
    · obtain rfl := Option.some.inj hf
      exact hspot.standsIn
  · cases hf

end

/-! ### Keywords -/

namespace Keyword

section
variable {s : Schema} (hs : s ∈ d.schemas)
include hs

theorem standsIn_reportIf {wrong : Bool} {keyword template : String} {arguments : List String}
    (hkeyword : (Segment.field keyword).isPlain = true) :
    ∀ f ∈ reportIf c s wrong keyword template arguments, f.StandsIn d := by
  intro f hf
  unfold reportIf at hf
  split at hf
  · obtain rfl := List.mem_singleton.1 hf
    exact (Document.Spot.keyword hs hkeyword).standsIn
  · cases hf

theorem standsIn_bounds (low high : String) (hlow : (Segment.field low).isPlain = true)
    (hhigh : (Segment.field high).isPlain = true) (least most : Option Int) :
    (∀ f ∈ (bounds c s low least high most).1, f.StandsIn d) ∧
      ∀ f ∈ (bounds c s low least high most).2, f.StandsIn d :=
  ⟨List.forall_mem_append.2 ⟨standsIn_reportIf hs hlow, standsIn_reportIf hs hhigh⟩,
    standsIn_reportIf hs hhigh⟩

theorem standsIn_ofString : ∀ f ∈ ofString c s, f.StandsIn d := by
  obtain ⟨hsigns, horder⟩ := standsIn_bounds (c := c) hs "minLength" "maxLength"
    (by decide) (by decide) s.minLength s.maxLength
  exact List.forall_mem_append.2 ⟨List.forall_mem_append.2 ⟨hsigns, horder⟩,
    standsIn_reportIf hs (by decide)⟩

theorem standsIn_ofNumber : ∀ f ∈ ofNumber c s, f.StandsIn d :=
  List.forall_mem_append.2 ⟨List.forall_mem_append.2 ⟨standsIn_reportIf hs (by decide),
    standsIn_reportIf hs (by decide)⟩, standsIn_reportIf hs (by decide)⟩

theorem standsIn_ofArray : ∀ f ∈ ofArray c s, f.StandsIn d := by
  obtain ⟨hitemSigns, hitemOrder⟩ := standsIn_bounds (c := c) hs "minItems"
    "maxItems" (by decide) (by decide) s.minItems s.maxItems
  obtain ⟨hcontainsSigns, hcontainsOrder⟩ := standsIn_bounds (c := c) hs
    "minContains" "maxContains" (by decide) (by decide) s.minContains s.maxContains
  exact List.forall_mem_append.2 ⟨List.forall_mem_append.2
    ⟨List.forall_mem_append.2 ⟨hitemSigns, hcontainsSigns⟩, hitemOrder⟩, hcontainsOrder⟩

theorem standsIn_ofRequired (defined : List String) :
    ∀ f ∈ ofRequired c s defined, f.StandsIn d := by
  have hname : (Segment.field "required").isPlain = true := by decide
  intro f hf
  unfold ofRequired at hf
  split at hf
  · cases hf
  · split at hf
    · obtain rfl := List.mem_singleton.1 hf
      exact (Document.Spot.keyword hs hname).standsIn
    · obtain ⟨⟨name, i⟩, -, hf⟩ := List.mem_filterMap.1 hf
      dsimp only at hf
      split at hf
      · cases hf
      · obtain rfl := Option.some.inj hf
        exact (Document.Spot.keywordItem i hs hname).standsIn

theorem standsIn_ofDependentRequired (defined : List String) :
    ∀ f ∈ ofDependentRequired c s defined, f.StandsIn d := by
  have hname : (Segment.field "dependentRequired").isPlain = true := by decide
  intro f hf
  obtain ⟨⟨key, names⟩, -, hf⟩ := List.mem_flatMap.1 hf
  have hat : ∀ template arguments, (reportAt c s "dependentRequired"
      ((s.origin.location.field "dependentRequired").key key) template arguments).StandsIn d :=
    fun _ _ => (Document.Spot.keywordEntry key hs hname).standsIn
  rcases List.mem_append.1 hf with hf | hf
  · split at hf
    · cases hf
    · obtain rfl := List.mem_singleton.1 hf
      exact hat ..
  · obtain ⟨name, -, hf⟩ := List.mem_filterMap.1 hf
    split at hf
    · obtain rfl := Option.some.inj hf
      exact hat ..
    · split at hf
      · cases hf
      · obtain rfl := Option.some.inj hf
        exact hat ..

theorem standsIn_ofType (type : String) : ∀ f ∈ ofType c s d type, f.StandsIn d := by
  unfold ofType
  split
  · exact standsIn_ofString hs
  · exact standsIn_ofNumber hs
  · exact standsIn_ofNumber hs
  · exact standsIn_ofArray hs
  · obtain ⟨hsigns, horder⟩ := standsIn_bounds (c := c) hs "minProperties"
      "maxProperties" (by decide) (by decide) s.minProperties s.maxProperties
    exact List.forall_mem_append.2 ⟨List.forall_mem_append.2
      ⟨List.forall_mem_append.2 ⟨hsigns, horder⟩, standsIn_ofRequired hs _⟩,
        standsIn_ofDependentRequired hs _⟩
  · simp
  · simp
  · split
    · simp
    · exact List.forall_mem_singleton.2
        (Document.Spot.keyword hs (by decide)).standsIn

end

theorem standsIn_evaluate (hdoc : c.document = some d) :
    ∀ f ∈ evaluate c, f.StandsIn d := by
  intro f hf
  rw [evaluate, hdoc] at hf
  obtain ⟨s, hs, hf⟩ := List.mem_flatMap.1 hf
  obtain ⟨type, -, hf⟩ := List.mem_flatMap.1 hf
  exact standsIn_ofType (c.mem_of_mem_schemas hs) type f hf

end Keyword

/-! ### Examples -/

namespace ExampleConformance

open ExampleJob

theorem standsIn_ofSchema {s : Schema} (hs : s ∈ d.schemas) :
    GivesAll (Finding.StandsIn · d) (ofSchema c d s) := by
  have hothers : GivesAll (∀ f ∈ ·, Finding.StandsIn f d)
      ((s.exampleValues.getD []).zipIdx.mapM fun (x : Node × Nat) =>
        validate c d s x.1 (s.name.getD "schema")
          ((s.origin.location.field "examples").index x.2) x.1.mark x.1.stop (.schema s.id)) :=
    .mapM fun x hx => standsIn_validate (.schemaExamples x.2 hs (List.fst_mem_of_mem_zipIdx hx)) ..
  have hrest : ∀ first others : List _, (∀ f ∈ first, Finding.StandsIn f d) →
      (∀ fs ∈ others, ∀ f ∈ fs, Finding.StandsIn f d) →
      ∀ f ∈ first ++ others.flatten, f.StandsIn d :=
    fun _ _ hfirst h => List.forall_mem_append.2 ⟨hfirst, forall_mem_flatten h⟩
  unfold ofSchema
  dsimp only
  split
  · rename_i value hvalue
    exact .bind (standsIn_validate (.schemaExample hs hvalue) ..) fun _ hfirst =>
      .bind hothers fun _ h => .pure (hrest _ _ hfirst h)
  · exact .bind (.pure (List.forall_mem_nil _)) fun _ hfirst =>
      .bind hothers fun _ h => .pure (hrest _ _ hfirst h)

theorem standsIn_ofHolder {x : Container} {holder : Holder} (hx : x.holder? d = some holder) :
    GivesAll (Finding.StandsIn · d) (ofHolder c d holder) := by
  unfold ofHolder
  split
  · exact .pure (by simp)
  · split
    · exact .pure (by simp)
    · split
      · split
        · rename_i value hvalue
          exact standsIn_validate (.holderExample hx hvalue) ..
        · exact .pure (by simp)
      · refine GivesAll.flatten fun (key, id) _ => ?_
        dsimp only
        split
        · rename_i e he
          unfold ofNamed
          split
          · exact standsIn_validate (.holderNamed key hx he) ..
          · exact .pure (by simp)
        · exact .pure (by simp)

theorem standsIn_evaluate (hdoc : c.document = some d) :
    ∀ f ∈ evaluate c, f.StandsIn d := by
  rw [evaluate, hdoc]
  refine ExampleJob.forall_mem_findings fun job hjob => ?_
  rcases List.mem_append.1 hjob with hjob | hjob
  · obtain ⟨s, hs, rfl⟩ := List.mem_map.1 hjob
    exact standsIn_ofSchema (c.mem_of_mem_schemas hs)
  · obtain ⟨holder, hx, rfl⟩ := List.mem_map.1 hjob
    obtain ⟨x, -, hx⟩ := List.mem_filterMap.1 hx
    exact standsIn_ofHolder hx

end ExampleConformance

namespace NamedExample

open ExampleJob

theorem standsIn_ofNamed {schema : Option Schema} {name : String} {id : NamedExampleId}
    {e : ApiLint.NamedExample} (he : d.namedExample? id = some e) :
    GivesAll (Finding.StandsIn · d) (ofNamed c d schema name e) := by
  have horigin := Document.hasOrigin_namedExample he
  have hvalue : ∀ f ∈ valueFindings c name e, f.StandsIn d := by
    unfold valueFindings
    split
    · exact List.forall_mem_singleton.2 horigin.standsIn
    · exact List.forall_mem_singleton.2 horigin.standsIn
    · simp
  have hsummary : ∀ f ∈ summaryFindings c name e, f.StandsIn d := by
    unfold summaryFindings
    split
    · exact List.forall_mem_singleton.2 horigin.standsIn
    · simp
  have hrest : ∀ invalid : List Finding, (∀ f ∈ invalid, f.StandsIn d) →
      GivesAll (Finding.StandsIn · d)
        (pure (valueFindings c name e ++ invalid ++ summaryFindings c name e)) :=
    fun invalid hinvalid => .pure (List.forall_mem_append.2
      ⟨List.forall_mem_append.2 ⟨hvalue, hinvalid⟩, hsummary⟩)
  unfold ofNamed
  split
  · rename_i hgiven
    exact .bind (standsIn_validate (.namedValue he hgiven) ..) hrest
  · exact .bind (.pure (by simp)) hrest

theorem standsIn_evaluate (hdoc : c.document = some d) :
    ∀ f ∈ evaluate c, f.StandsIn d := by
  rw [evaluate, hdoc]
  refine ExampleJob.forall_mem_findings fun job hjob => ?_
  obtain ⟨group, -, rfl⟩ := List.mem_map.1 hjob
  refine GivesAll.flatten (k := id) fun job hjob => ?_
  obtain ⟨x, -, rfl⟩ := List.mem_map.1 hjob
  refine GivesAll.flatten fun (name, id) _ => ?_
  dsimp only
  split
  · rename_i e he
    exact standsIn_ofNamed he
  · exact .pure (by simp)

end NamedExample

/-! ### Missing examples -/

namespace MissingExample

theorem hasOrigin_of_firstUncovered {s : Schema} (hs : s ∈ d.schemas) {name : String}
    {slot : SchemaSlot} (h : d.firstUncovered? s = some (name, slot)) : d.HasOrigin slot.origin :=
  Document.hasOrigin_property hs (List.mem_of_find?_eq_some h)

theorem standsIn_containers {outcome : Outcome} (ho : outcome ∈ containers c d) :
    ∀ f ∈ outcome.findings, f.StandsIn d := by
  simp only [containers, List.mem_append, List.mem_map] at ho
  obtain (⟨p, hp, rfl⟩ | ⟨x, hx, rfl⟩) | ⟨m, hm, rfl⟩ := ho
  · have hp := Document.HasOrigin.object (s := .parameters) (Array.mem_toList_iff.1 hp)
    dsimp only [ofParameter]
    split
    · simp
    · exact List.forall_mem_singleton.2 hp.standsIn
  · have hx := Document.HasOrigin.object (s := .headers) (Array.mem_toList_iff.1 hx)
    unfold ofHeader
    split
    · simp
    · split
      · simp
      · exact List.forall_mem_singleton.2 hx.standsIn
  · have hm := Document.HasOrigin.object (s := .mediaTypes) (Array.mem_toList_iff.1 hm)
    dsimp only [ofMediaType]
    split
    · simp
    · split
      · exact List.forall_mem_singleton.2 hm.standsIn
      · rename_i name slot hslot
        obtain ⟨s, hs, hslot⟩ := Option.bind_eq_some_iff.1 hslot
        obtain ⟨_, -, hs⟩ := Option.bind_eq_some_iff.1 hs
        have hpart := hasOrigin_of_firstUncovered (Document.mem_schemas_of_slot hs) hslot
        exact List.forall_mem_cons.2 ⟨hpart.standsIn, List.forall_mem_singleton.2 hm.standsIn⟩

theorem standsIn_ofSchema {s : Schema} (hs : s ∈ d.schemas) {lack : Lack}
    (hlack : ofSchema c d s = some lack) : ∀ f ∈ lack.outcome.findings, f.StandsIn d := by
  have horigin := Document.hasOrigin_schema hs
  unfold ofSchema at hlack
  split at hlack
  · cases hlack
  · dsimp only at hlack
    split at hlack <;> obtain rfl := Option.some.inj hlack
    · exact List.forall_mem_singleton.2 horigin.standsIn
    · rename_i name slot hslot
      have hpart := hasOrigin_of_firstUncovered hs hslot
      exact List.forall_mem_cons.2 ⟨hpart.standsIn, List.forall_mem_singleton.2 horigin.standsIn⟩

theorem standsIn_evaluate (hdoc : c.document = some d) :
    ∀ f ∈ evaluate c, f.StandsIn d := by
  intro f hf
  rw [evaluate, hdoc] at hf
  dsimp only [merge] at hf
  rcases List.mem_append.1 hf with hf | hf
  · obtain ⟨outcome, ho, hf⟩ := List.mem_flatMap.1 hf
    obtain ⟨job, hjob, ho⟩ := c.exists_of_mem_runPool ho
    obtain ⟨outcome', ho', rfl⟩ := List.mem_map.1 hjob
    obtain rfl := List.mem_singleton.1 ho
    exact standsIn_containers ho' f hf
  · rw [report_eq_flatMap] at hf
    obtain ⟨lack, hlack, hf⟩ := List.mem_flatMap.1 hf
    obtain ⟨n, hlack, -⟩ := mem_reported_iff.1 hlack
    obtain ⟨judgement, hjudgement, he⟩ := List.mem_map.1 (List.mem_of_getElem? hlack)
    obtain ⟨job, hjob, hjudgement⟩ := c.exists_of_mem_runPool (List.mem_mergeSort.1 hjudgement)
    obtain ⟨⟨id, position⟩, -, rfl⟩ := List.mem_map.1 hjob
    obtain ⟨s, hs, rfl⟩ := Option.map_eq_some_iff.1 (Option.mem_toList.1 hjudgement)
    exact standsIn_ofSchema (Array.mem_of_getElem? hs) he f hf

end MissingExample

end Check

/-- **The checks report at the spots of the document.** -/
theorem RuleContext.standsIn_evaluate {c : RuleContext} {d : Document}
    (hdoc : c.document = some d) {check : Check} (hcheck : check ∈ Catalog.checks) :
    ∀ f ∈ check.evaluate c, f.StandsIn d := by
  simp only [Catalog.checks, Catalog.all, List.map_cons, List.map_nil, List.mem_cons,
    List.not_mem_nil, or_false] at hcheck
  rcases hcheck with rfl | rfl | rfl | rfl | rfl | rfl | rfl | rfl | rfl | rfl
  · exact Check.PropertyCase.standsIn_evaluate hdoc
  · exact Check.ComponentDescription.standsIn_evaluate hdoc
  · exact Check.NamedExample.standsIn_evaluate hdoc
  · exact Check.ExternalExample.standsIn_evaluate hdoc
  · exact Check.MissingExample.standsIn_evaluate hdoc
  · exact Check.ExampleConformance.standsIn_evaluate hdoc
  · exact Check.AmbiguousPath.standsIn_evaluate hdoc
  · exact Check.Keyword.standsIn_evaluate hdoc
  · exact Check.ParameterDescription.standsIn_evaluate hdoc
  · exact Check.Combinator.standsIn_evaluate hdoc

end ApiLint
