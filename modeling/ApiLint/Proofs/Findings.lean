import ApiLint.Check.Catalog
import ApiLint.Proofs.Verdicts
import Mathlib.Data.Multiset.Bind

/-!
# Findings in two contexts

What a check finds depends on its rule only through the findings that the context makes of a
template and its arguments. So if the findings made in two contexts of the same document are
related, whatever the template (`RuleContext.Alike`), then all findings of a check are
(`Catalog.related`), in whatever order the jobs of its pools end. The exception is a check with an
option that cannot be read, which has one finding of its own (`Catalog.evaluate_of_unreadable`).

Jobs that end in another order rearrange the batches of a pool. For most checks these are the
findings. `Check.MissingExample` goes on working with what the jobs hand back: the keys of the
containers, of which only the set counts (`MissingExample.related_report`), and the judgements of
the schemas, which are put back in order (`MissingExample.inWalkOrder_eq`).
-/

set_option autoImplicit false

namespace ApiLint

open Yaml (Mark Node)

/-! ## Related lists -/

section Lists

variable {α β γ : Type} {R : α → β → Prop}

theorem forall₂_flatMap {xs : List γ} {f : γ → List α} {g : γ → List β}
    (h : ∀ x ∈ xs, List.Forall₂ R (f x) (g x)) :
    List.Forall₂ R (xs.flatMap f) (xs.flatMap g) := by
  rw [List.flatMap_def, List.flatMap_def]
  refine List.rel_flatten ?_
  rw [List.forall₂_map_left_iff, List.forall₂_map_right_iff, List.forall₂_same]
  exact h

theorem forall₂_toList {x : Option α} {y : Option β} (h : Option.Rel R x y) :
    List.Forall₂ R x.toList y.toList := by
  cases h with
  | none => exact .nil
  | some h => exact .cons h .nil

theorem forall₂_filterMap {xs : List γ} {f : γ → Option α} {g : γ → Option β}
    (h : ∀ x ∈ xs, Option.Rel R (f x) (g x)) :
    List.Forall₂ R (xs.filterMap f) (xs.filterMap g) := by
  rw [List.filterMap_eq_flatMap_toList, List.filterMap_eq_flatMap_toList]
  exact forall₂_flatMap fun x hx => forall₂_toList (h x hx)

theorem forall₂_map {xs : List γ} {f : γ → α} {g : γ → β} (h : ∀ x ∈ xs, R (f x) (g x)) :
    List.Forall₂ R (xs.map f) (xs.map g) := by
  rw [List.forall₂_map_left_iff, List.forall₂_map_right_iff, List.forall₂_same]
  exact h

theorem rel_coe {xs : List α} {ys : List β} (h : List.Forall₂ R xs ys) :
    Multiset.Rel R (xs : Multiset α) (ys : Multiset β) := by
  induction h with
  | nil => exact .zero
  | cons hxy _ ih => exact .cons hxy ih

/-- Lists that are related in some order are related as multisets. -/
theorem rel_of_perm {xs xs' : List α} {ys ys' : List β} (hx : xs'.Perm xs)
    (h : List.Forall₂ R xs ys) (hy : ys'.Perm ys) :
    Multiset.Rel R (xs' : Multiset α) (ys' : Multiset β) := by
  rw [Multiset.coe_eq_coe.2 hx, Multiset.coe_eq_coe.2 hy]
  exact rel_coe h

end Lists

/-! ## Pools -/

/-- A job that neither fails nor cancels the run. -/
structure Job.Quiet {α : Type} (job : Job α) : Prop where
  cancels : job.cancels = false
  fails : job.fails = false

theorem Pool.run_of_quiet {α : Type} {p : Pool} (hp : p.cancelled = false) {jobs : List (Job α)}
    (h : ∀ job ∈ jobs, job.Quiet) : (p.run false jobs).1 = jobs.flatMap (·.emit ()) := by
  induction jobs generalizing p with
  | nil => rfl
  | cons job jobs ih =>
    obtain ⟨⟨hcancels, hfails⟩, hjobs⟩ := List.forall_mem_cons.1 h
    have htake : p.take false job = (job.emit (), ⟨false, { p.counts with
        dispatched := p.counts.dispatched + 1, completed := p.counts.completed + 1 }⟩) := by
      simp [take, hp, hcancels, hfails]
    rw [run, htake, List.flatMap_cons]
    exact congrArg (job.emit () ++ ·) (ih rfl hjobs)

/-- A run hands back the batches of its jobs in some order. -/
theorem Pool.run_arrange_perm {α : Type} (o : JobOrder) {jobs : List (Job α)}
    (h : ∀ job ∈ jobs, job.Quiet) :
    (Pool.run {} false (o.arrange jobs)).1.Perm (jobs.flatMap (·.emit ())) := by
  have hperm := o.arrange_perm jobs
  rw [run_of_quiet rfl fun job hjob => h job (hperm.mem_iff.1 hjob)]
  exact hperm.flatMap_right _

/-! ## Contexts -/

namespace RuleContext

variable {R : Finding → Finding → Prop} {b c : RuleContext}

/-- Contexts of the same document that make related findings. -/
structure Alike (R : Finding → Finding → Prop) (b c : RuleContext) : Prop where
  document : b.document = c.document
  walk : b.walk = c.walk
  options : b.options = c.options
  deadlines : b.deadlines = c.deadlines
  uncancelled : b.cancelled = false ∧ c.cancelled = false
  related : ∀ template arguments l start stop target,
    R (b.findingAt (b.message template arguments) l start stop target)
      (c.findingAt (c.message template arguments) l start stop target)

theorem Alike.refl (hc : c.cancelled = false) : Alike Eq c c :=
  ⟨rfl, rfl, rfl, rfl, ⟨hc, hc⟩, fun _ _ _ _ _ _ => rfl⟩

theorem runPool_perm (hc : c.cancelled = false) (name : String) {α : Type} {jobs : List (Job α)}
    (h : ∀ job ∈ jobs, job.Quiet) :
    (c.runPool name jobs).Perm ((c.taken name jobs).flatMap (·.emit ())) := by
  rw [runPool, hc]
  exact Pool.run_arrange_perm _ fun job hjob => h job ((c.taken_sublist name jobs).subset hjob)

section
variable (h : Alike R b c)
include h

theorem Alike.schemas (d : Document) : b.schemas d = c.schemas d := by
  rw [RuleContext.schemas, RuleContext.schemas, h.walk]

theorem Alike.taken {α : Type} (pool : String) (jobs : List α) :
    b.taken pool jobs = c.taken pool jobs := by
  rw [RuleContext.taken, RuleContext.taken, h.deadlines]

theorem Alike.taken_rel {α β : Type} {S : α → β → Prop} (pool : String) {xs : List α} {ys : List β}
    (hxy : List.Forall₂ S xs ys) : List.Forall₂ S (b.taken pool xs) (c.taken pool ys) := by
  unfold RuleContext.taken
  rw [h.deadlines]
  split
  · exact hxy
  · exact List.forall₂_take _ hxy

theorem Alike.integerOption? (name : String) : b.integerOption? name = c.integerOption? name := by
  rw [RuleContext.integerOption?, RuleContext.integerOption?, option?, option?, h.options]

theorem Alike.finding (template : String) (arguments : List String) (origin : Origin)
    (target : Target) : R (b.finding (b.message template arguments) origin target)
      (c.finding (c.message template arguments) origin target) :=
  h.related ..

end

end RuleContext

open RuleContext (Alike)

namespace Check

variable {R : Finding → Finding → Prop} {b c : RuleContext} (h : Alike R b c)
include h

/-! ## Checks without jobs -/

theorem PropertyCase.related :
    List.Forall₂ R (PropertyCase.evaluate b) (PropertyCase.evaluate c) := by
  unfold PropertyCase.evaluate
  rw [h.document]
  cases c.document with
  | none => exact .nil
  | some d =>
    dsimp only
    rw [h.schemas]
    refine forall₂_flatMap fun s _ => forall₂_filterMap fun (name, slot) _ => ?_
    unfold PropertyCase.ofProperty
    split
    · exact .none
    · exact .some (h.related ..)

theorem ComponentDescription.related {value : Option Int}
    (hvalue : c.integerOption? "minWords" = .ok value) :
    List.Forall₂ R (ComponentDescription.evaluate b) (ComponentDescription.evaluate c) := by
  unfold ComponentDescription.evaluate
  rw [h.document, h.integerOption?, hvalue]
  cases c.document with
  | none => exact .nil
  | some d =>
    refine forall₂_filterMap fun (component, i) _ => ?_
    dsimp only [ComponentDescription.complaint?]
    split
    · exact .none
    · split
      · exact .some (h.finding ..)
      · split
        · exact .some (h.finding ..)
        · exact .none

theorem ParameterDescription.related :
    List.Forall₂ R (ParameterDescription.evaluate b) (ParameterDescription.evaluate c) := by
  unfold ParameterDescription.evaluate
  rw [h.document]
  cases c.document with
  | none => exact .nil
  | some d =>
    refine forall₂_filterMap fun p _ => ?_
    unfold ParameterDescription.ofParameter
    split
    · exact .none
    · exact .some (h.finding ..)

theorem ExternalExample.related :
    List.Forall₂ R (ExternalExample.evaluate b) (ExternalExample.evaluate c) := by
  unfold ExternalExample.evaluate
  rw [h.document]
  cases c.document with
  | none => exact .nil
  | some d =>
    refine forall₂_filterMap fun (id, text) _ => ?_
    dsimp only
    cases d.namedExample? id with
    | none => exact .none
    | some e =>
      rw [Option.bind_some, Option.bind_some, ExternalExample.ofNamed, ExternalExample.ofNamed]
      split
      · exact .some (h.finding ..)
      · exact .none

theorem AmbiguousPath.related :
    List.Forall₂ R (AmbiguousPath.evaluate b) (AmbiguousPath.evaluate c) := by
  unfold AmbiguousPath.evaluate
  rw [h.document]
  cases c.document with
  | none => exact .nil
  | some d =>
    refine forall₂_filterMap fun (earlier, later) _ => ?_
    dsimp only
    unfold AmbiguousPath.ofPair
    cases d.paths[earlier]? with
    | none => exact .none
    | some first =>
      cases d.paths[later]? with
      | none => exact .none
      | some second => exact .some (h.related ..)

theorem Combinator.related : List.Forall₂ R (Combinator.evaluate b) (Combinator.evaluate c) := by
  unfold Combinator.evaluate
  rw [h.document]
  cases c.document with
  | none => exact .nil
  | some d =>
    dsimp only
    rw [h.schemas]
    refine forall₂_flatMap fun s _ => forall₂_filterMap fun (keyword, entries) _ => ?_
    dsimp only
    unfold Combinator.ofCombinator
    split
    · split
      · exact .none
      · exact .some (h.related ..)
    · exact .none

namespace Keyword

variable (s : Schema)

theorem related_reportIf (wrong : Bool) (keyword template : String) (arguments : List String) :
    List.Forall₂ R (reportIf b s wrong keyword template arguments)
      (reportIf c s wrong keyword template arguments) := by
  unfold reportIf
  split
  · exact .cons (h.related ..) .nil
  · exact .nil

theorem related_bounds (low : String) (least : Option Int) (high : String) (most : Option Int) :
    List.Forall₂ R (bounds b s low least high most).1 (bounds c s low least high most).1 ∧
      List.Forall₂ R (bounds b s low least high most).2 (bounds c s low least high most).2 :=
  ⟨List.rel_append (related_reportIf h ..) (related_reportIf h ..), related_reportIf h ..⟩

theorem related_ofString : List.Forall₂ R (ofString b s) (ofString c s) := by
  obtain ⟨hsigns, horder⟩ := related_bounds h s "minLength" s.minLength "maxLength" s.maxLength
  exact List.rel_append (List.rel_append hsigns horder) (related_reportIf h ..)

theorem related_ofNumber : List.Forall₂ R (ofNumber b s) (ofNumber c s) :=
  List.rel_append (List.rel_append (related_reportIf h ..) (related_reportIf h ..))
    (related_reportIf h ..)

theorem related_ofArray : List.Forall₂ R (ofArray b s) (ofArray c s) := by
  obtain ⟨hitems, hitemOrder⟩ := related_bounds h s "minItems" s.minItems "maxItems" s.maxItems
  obtain ⟨hcontains, hcontainsOrder⟩ :=
    related_bounds h s "minContains" s.minContains "maxContains" s.maxContains
  exact List.rel_append (List.rel_append (List.rel_append hitems hcontains) hitemOrder)
    hcontainsOrder

theorem related_ofRequired (defined : List String) :
    List.Forall₂ R (ofRequired b s defined) (ofRequired c s defined) := by
  unfold ofRequired
  split
  · exact .nil
  · split
    · exact .cons (h.related ..) .nil
    · refine forall₂_filterMap fun (name, i) _ => ?_
      dsimp only
      split
      · exact .none
      · exact .some (h.related ..)

theorem related_ofDependentRequired (defined : List String) :
    List.Forall₂ R (ofDependentRequired b s defined) (ofDependentRequired c s defined) := by
  refine forall₂_flatMap fun (key, names) _ => List.rel_append ?_ ?_
  · split
    · exact .nil
    · exact .cons (h.related ..) .nil
  · refine forall₂_filterMap fun name _ => ?_
    dsimp only
    split
    · exact .some (h.related ..)
    · split
      · exact .none
      · exact .some (h.related ..)

theorem related_ofObject (d : Document) : List.Forall₂ R (ofObject b s d) (ofObject c s d) := by
  obtain ⟨hsigns, horder⟩ :=
    related_bounds h s "minProperties" s.minProperties "maxProperties" s.maxProperties
  exact List.rel_append (List.rel_append (List.rel_append hsigns horder)
    (related_ofRequired h s _)) (related_ofDependentRequired h s _)

theorem related_ofType (d : Document) (type : String) :
    List.Forall₂ R (ofType b s d type) (ofType c s d type) := by
  unfold ofType
  split
  · exact related_ofString h s
  · exact related_ofNumber h s
  · exact related_ofNumber h s
  · exact related_ofArray h s
  · exact related_ofObject h s d
  · exact .nil
  · exact .nil
  · split
    · exact .nil
    · exact .cons (h.related ..) .nil

theorem related : List.Forall₂ R (Keyword.evaluate b) (Keyword.evaluate c) := by
  unfold Keyword.evaluate
  rw [h.document]
  cases c.document with
  | none => exact .nil
  | some d =>
    dsimp only
    rw [h.schemas]
    exact forall₂_flatMap fun s _ => forall₂_flatMap fun type _ => related_ofType h s d type

end Keyword

end Check

/-! ## Jobs that validate examples -/

namespace ExampleJob

open ExampleValidator (Agree)

variable {R : Finding → Finding → Prop} {b c : RuleContext} {d : Document}

section
variable (h : Alike R b c)
include h

theorem related_ofVerdict (verdict : Verdict) (name : String) (l : Location) (start stop : Mark)
    (target : Target) : List.Forall₂ R (ofVerdict b verdict name l start stop target)
      (ofVerdict c verdict name l start stop target) :=
  forall₂_map fun _ _ => h.related ..

theorem agree_validate {s : Schema} (hs : d.schema? s.id = some s) (value : Node) (name : String)
    (l : Location) (start stop : Mark) (target : Target) :
    Agree d (List.Forall₂ R) (validate b d s value name l start stop target)
      (validate c d s value name l start stop target) := by
  refine ⟨fun v w hv hw => ?_⟩
  obtain ⟨hverdict, hv⟩ := hv.validate hs value
  obtain ⟨hverdict', hw⟩ := hw.validate hs value
  refine ⟨?_, hv, hw⟩
  show List.Forall₂ R (ofVerdict b (v.validate d s value).1 name l start stop target)
    (ofVerdict c (w.validate d s value).1 name l start stop target)
  rw [hverdict, hverdict']
  exact related_ofVerdict h ..

/-- The examples of a schema that are listed. -/
theorem agree_examples {s : Schema} (hs : d.schema? s.id = some s) (name : String) (base : Location)
    (target : Target) (values : List (Node × Nat)) :
    Agree d (List.Forall₂ (List.Forall₂ R))
      (values.mapM fun (value, i) =>
        validate b d s value name (base.index i) value.mark value.stop target)
      (values.mapM fun (value, i) =>
        validate c d s value name (base.index i) value.mark value.stop target) :=
  .mapM (List.forall₂_same.2 fun _ _ => agree_validate h hs ..)

end

/-- Batches that are collected one after the other. -/
theorem agree_flatten {α : Type} {xs : List α} {f g : α → ExampleJob}
    (hfg : ∀ x ∈ xs, Agree d (List.Forall₂ R) (f x) (g x)) :
    Agree d (List.Forall₂ R) (do return (← xs.mapM f).flatten) (do return (← xs.mapM g).flatten) :=
  (Agree.mapM (List.forall₂_same.2 hfg)).bind fun _ _ hbatches => .pure (List.rel_flatten hbatches)

theorem Steady.of_agree {job : ExampleJob} (h : Agree d (List.Forall₂ Eq) job job) :
    Steady d job := by
  rwa [List.forall₂_eq_eq_eq] at h

/-- Jobs that agree give related findings, in whatever order they end. -/
theorem related_findings (jobs : RuleContext → List ExampleJob) (h : Alike R b c) (pool : String)
    (hagree : ∀ {S b' c'}, Alike S b' c' →
      List.Forall₂ (Agree d (List.Forall₂ S)) (jobs b') (jobs c')) :
    Multiset.Rel R (findings b d pool (jobs b) : Multiset Finding)
      (findings c d pool (jobs c) : Multiset Finding) := by
  have hsteady : ∀ {a : RuleContext}, a.cancelled = false → ∀ job ∈ jobs a, Steady d job :=
    fun ha job hjob => .of_agree (List.forall₂_same.1 (hagree (Alike.refl ha)) job hjob)
  obtain ⟨hb, hc⟩ := h.uncancelled
  rw [findings_eq hb pool (hsteady hb), findings_eq hc pool (hsteady hc)]
  refine rel_of_perm ((JobOrder.arrange_perm _ _).flatMap_right _) ?_
    ((JobOrder.arrange_perm _ _).flatMap_right _)
  refine List.rel_flatMap (h.taken_rel pool (hagree h)) fun job job' hjob => ?_
  exact (hjob.run _ _ (ExampleValidator.faithful_ofDocument d)
    (ExampleValidator.faithful_ofDocument d)).1

end ExampleJob

namespace Check

open ExampleValidator (Agree)

variable {R : Finding → Finding → Prop} {b c : RuleContext} {d : Document}

namespace ExampleConformance

section
variable (h : Alike R b c)
include h

theorem agree_ofSchema {s : Schema} (hs : d.schema? s.id = some s) :
    Agree d (List.Forall₂ R) (ofSchema b d s) (ofSchema c d s) := by
  have hothers := ExampleJob.agree_examples h hs (s.name.getD "schema")
    (s.origin.location.field "examples") (.schema s.id) (s.exampleValues.getD []).zipIdx
  unfold ofSchema
  dsimp only
  split
  · exact (ExampleJob.agree_validate h hs ..).bind fun _ _ hfirst =>
      hothers.bind fun _ _ hrest => .pure (List.rel_append hfirst (List.rel_flatten hrest))
  · exact (Agree.pure .nil).bind fun _ _ hfirst =>
      hothers.bind fun _ _ hrest => .pure (List.rel_append hfirst (List.rel_flatten hrest))

theorem agree_ofNamed {s : Schema} (hs : d.schema? s.id = some s) (base : Location) (key : String)
    (e : NamedExample) :
    Agree d (List.Forall₂ R) (ofNamed b d s base key e) (ofNamed c d s base key e) := by
  unfold ofNamed
  split
  · exact ExampleJob.agree_validate h hs ..
  · exact .pure .nil

theorem agree_ofHolder (hd : d.SchemasNamed) (x : Holder) :
    Agree d (List.Forall₂ R) (ofHolder b d x) (ofHolder c d x) := by
  unfold ofHolder
  split
  · exact .pure .nil
  · split
    · exact .pure .nil
    · next s hslot =>
      obtain ⟨slot, -, hslot⟩ := Option.bind_eq_some_iff.1 hslot
      have hs := hd.schema?_of_slot hslot
      split
      · split
        · exact ExampleJob.agree_validate h hs ..
        · exact .pure .nil
      · refine ExampleJob.agree_flatten fun (key, id) _ => ?_
        dsimp only
        split
        · exact agree_ofNamed h hs ..
        · exact .pure .nil

theorem agree_jobs (hd : d.SchemasNamed) :
    List.Forall₂ (Agree d (List.Forall₂ R)) (jobs b d) (jobs c d) := by
  unfold jobs
  rw [h.schemas]
  refine List.rel_append (forall₂_map fun s hs => ?_) (forall₂_map fun x _ => agree_ofHolder h hd x)
  obtain ⟨id, -, hs⟩ := List.mem_filterMap.1 hs
  exact agree_ofSchema h (by rwa [hd.schema?_id hs])

theorem related (hd : ∀ d ∈ c.document, d.SchemasNamed) :
    Multiset.Rel R (evaluate b : Multiset Finding) (evaluate c : Multiset Finding) := by
  unfold evaluate
  rw [h.document]
  cases hdoc : c.document with
  | none => exact .zero
  | some d => exact ExampleJob.related_findings (jobs · d) h _ fun h => agree_jobs h (hd d hdoc)

end

end ExampleConformance

namespace NamedExample

section
variable (h : Alike R b c)
include h

theorem related_valueFindings (name : String) (e : ApiLint.NamedExample) :
    List.Forall₂ R (valueFindings b name e) (valueFindings c name e) := by
  unfold valueFindings
  split
  · exact .cons (h.finding ..) .nil
  · exact .cons (h.finding ..) .nil
  · exact .nil

theorem related_summaryFindings (name : String) (e : ApiLint.NamedExample) :
    List.Forall₂ R (summaryFindings b name e) (summaryFindings c name e) := by
  unfold summaryFindings
  split
  · exact .cons (h.finding ..) .nil
  · exact .nil

theorem agree_ofNamed {schema : Option Schema} (hs : ∀ s ∈ schema, d.schema? s.id = some s)
    (name : String) (e : ApiLint.NamedExample) :
    Agree d (List.Forall₂ R) (ofNamed b d schema name e) (ofNamed c d schema name e) := by
  have hrest : ∀ found found', List.Forall₂ R found found' → Agree d (List.Forall₂ R)
      (pure (valueFindings b name e ++ found ++ summaryFindings b name e))
      (pure (valueFindings c name e ++ found' ++ summaryFindings c name e)) :=
    fun _ _ hfound => .pure (List.rel_append (List.rel_append (related_valueFindings h name e)
      hfound) (related_summaryFindings h name e))
  unfold ofNamed
  dsimp only
  split
  · next s _ => exact (ExampleJob.agree_validate h (hs s rfl) ..).bind hrest
  · exact (Agree.pure .nil).bind hrest

theorem agree_ofHolder (hd : d.SchemasNamed) (x : Holder) :
    Agree d (List.Forall₂ R) (ofHolder b d x) (ofHolder c d x) := by
  unfold ofHolder
  refine ExampleJob.agree_flatten fun (name, id) _ => ?_
  dsimp only
  split
  · refine agree_ofNamed h (fun s hs => ?_) ..
    split at hs
    · cases hs
    · obtain ⟨slot, -, hslot⟩ := Option.bind_eq_some_iff.1 hs
      exact hd.schema?_of_slot hslot
  · exact .pure .nil

theorem agree_jobs (hd : d.SchemasNamed) :
    List.Forall₂ (Agree d (List.Forall₂ R)) (jobs b d) (jobs c d) := by
  refine forall₂_map fun group _ => ?_
  unfold ExampleJob.runAll
  refine (Agree.mapM ?_).bind fun _ _ hbatches => .pure (List.rel_flatten hbatches)
  exact forall₂_map fun x _ => agree_ofHolder h hd x

theorem related (hd : ∀ d ∈ c.document, d.SchemasNamed) :
    Multiset.Rel R (evaluate b : Multiset Finding) (evaluate c : Multiset Finding) := by
  unfold evaluate
  rw [h.document]
  cases hdoc : c.document with
  | none => exact .zero
  | some d => exact ExampleJob.related_findings (jobs · d) h _ fun h => agree_jobs h (hd d hdoc)

end

end NamedExample

/-! ## Missing examples -/

namespace MissingExample

/-- Outcomes with related findings and the same keys. -/
structure Outcome.Alike (R : Finding → Finding → Prop) (x y : Outcome) : Prop where
  findings : List.Forall₂ R x.findings y.findings
  keys : x.keys = y.keys

/-- Judgements that go by the same key. -/
structure Lack.Alike (R : Finding → Finding → Prop) (x y : Lack) : Prop where
  key : x.key = y.key
  outcome : Outcome.Alike R x.outcome y.outcome

section
variable (h : RuleContext.Alike R b c)
include h

theorem related_ofParameter (p : Parameter) :
    Outcome.Alike R (ofParameter b d p) (ofParameter c d p) := by
  unfold ofParameter
  dsimp only
  split
  · exact ⟨.nil, rfl⟩
  · exact ⟨.cons (h.finding ..) .nil, rfl⟩

theorem related_ofHeader (x : Header) : Outcome.Alike R (ofHeader b d x) (ofHeader c d x) := by
  unfold ofHeader
  split
  · exact ⟨.nil, rfl⟩
  · split
    · exact ⟨.nil, rfl⟩
    · exact ⟨.cons (h.finding ..) .nil, rfl⟩

theorem related_ofMediaType (m : MediaType) :
    Outcome.Alike R (ofMediaType b d m) (ofMediaType c d m) := by
  unfold ofMediaType
  dsimp only
  split
  · exact ⟨.nil, rfl⟩
  · split
    · exact ⟨.cons (h.finding ..) .nil, rfl⟩
    · exact ⟨.cons (h.finding ..) (.cons (h.finding ..) .nil), rfl⟩

theorem related_containers :
    List.Forall₂ (Outcome.Alike R) (containers b d) (containers c d) :=
  List.rel_append (List.rel_append (forall₂_map fun p _ => related_ofParameter h p)
    (forall₂_map fun x _ => related_ofHeader h x)) (forall₂_map fun m _ => related_ofMediaType h m)

theorem related_ofSchema (s : Schema) :
    Option.Rel (Lack.Alike R) (ofSchema b d s) (ofSchema c d s) := by
  unfold ofSchema
  split
  · exact .none
  · dsimp only
    split
    · exact .some ⟨rfl, .cons (h.finding ..) .nil, rfl⟩
    · exact .some ⟨rfl, .cons (h.finding ..) (.cons (h.finding ..) .nil), rfl⟩

end

theorem keys_eq {xs ys : List Outcome} (h : List.Forall₂ (Outcome.Alike R) xs ys) :
    xs.flatMap (·.keys) = ys.flatMap (·.keys) := by
  induction h with
  | nil => rfl
  | cons hxy _ ih => rw [List.flatMap_cons, List.flatMap_cons, hxy.keys, ih]

/-- Of the keys that are accounted for only the set counts. -/
theorem related_report {seen seen' : List Mark} (hseen : ∀ key, key ∈ seen ↔ key ∈ seen')
    {js ks : List (Option Lack)} (h : List.Forall₂ (Option.Rel (Lack.Alike R)) js ks) :
    List.Forall₂ R (report seen js) (report seen' ks) := by
  induction h generalizing seen seen' with
  | nil => exact .nil
  | cons hjk _ ih =>
    cases hjk with
    | none => exact ih hseen
    | @some x y hxy =>
      rw [report, report, ← hxy.key, ← hxy.outcome.keys]
      by_cases hkey : x.key ∈ seen
      · rw [if_pos (List.contains_iff_mem.2 hkey),
          if_pos (List.contains_iff_mem.2 ((hseen _).1 hkey))]
        exact ih hseen
      · rw [if_neg (mt List.contains_iff_mem.1 hkey),
          if_neg (mt List.contains_iff_mem.1 (mt (hseen _).2 hkey))]
        refine List.rel_append hxy.outcome.findings (ih fun key => ?_)
        simp only [List.mem_append, List.mem_cons, hseen key]

/-! ### What the jobs hand back -/

/-- The judgements that are made in time, in the order of the walk. -/
def judgements (c : RuleContext) (d : Document) : List Judgement :=
  (c.taken "schemas" c.walk.zipIdx).filterMap fun (id, position) =>
    (d.schema? id).map fun s => (position, ofSchema c d s)

theorem pairwise_judgements (c : RuleContext) (d : Document) :
    (judgements c d).Pairwise fun x y => x.1 < y.1 := by
  have hpositions : c.walk.zipIdx.Pairwise fun x y => x.2 < y.2 := by
    have h := List.pairwise_lt_range' (s := 0) (n := c.walk.length) 1
    rwa [← List.zipIdx_map_snd, List.pairwise_map] at h
  have hpositions := hpositions.sublist (c.taken_sublist "schemas" c.walk.zipIdx)
  refine List.pairwise_filterMap.2 (hpositions.imp fun hlt x hx y hy => ?_)
  obtain ⟨s, -, rfl⟩ := Option.map_eq_some_iff.1 hx
  obtain ⟨t, -, rfl⟩ := Option.map_eq_some_iff.1 hy
  exact hlt

/-- **Judgements are put back in the order of the walk.** -/
theorem inWalkOrder_eq {js ks : List Judgement} (hperm : js.Perm ks)
    (hks : ks.Pairwise fun x y => x.1 < y.1) : inWalkOrder js = ks.map (·.2) := by
  have hsorted : (js.mergeSort fun x y => x.1 ≤ y.1).Pairwise
      fun x y => decide (x.1 ≤ y.1) = true :=
    List.pairwise_mergeSort (fun x y z hxy hyz => by simp only [decide_eq_true_eq] at *; omega)
      (fun x y => by simp only [Bool.or_eq_true, decide_eq_true_eq]; omega) js
  rw [inWalkOrder, List.Perm.eq_of_pairwise ?_ hsorted (hks.imp fun hlt => ?_)
    ((List.mergeSort_perm js _).trans hperm)]
  · intro x y hx hy hxy hyx
    simp only [decide_eq_true_eq] at hxy hyx
    have hnodup : (ks.map (·.1)).Nodup := List.pairwise_map.2 (hks.imp Nat.ne_of_lt)
    exact List.inj_on_of_nodup_map hnodup (hperm.mem_iff.1 (List.mem_mergeSort.1 hx)) hy
      (Nat.le_antisymm hxy hyx)
  · exact decide_eq_true (Nat.le_of_lt hlt)

theorem quiet_containerJobs (c : RuleContext) (d : Document) :
    ∀ job ∈ containerJobs c d, job.Quiet := by
  intro job hjob
  obtain ⟨outcome, -, rfl⟩ := List.mem_map.1 hjob
  exact ⟨rfl, rfl⟩

theorem quiet_schemaJobs (c : RuleContext) (d : Document) : ∀ job ∈ schemaJobs c d, job.Quiet := by
  intro job hjob
  obtain ⟨x, -, rfl⟩ := List.mem_map.1 hjob
  exact ⟨rfl, rfl⟩

section
variable (hc : c.cancelled = false)
include hc

theorem outcomes_perm : (c.runPool "containers" (containerJobs c d)).Perm
    (c.taken "containers" (containers c d)) := by
  have h := RuleContext.runPool_perm hc "containers" (quiet_containerJobs c d)
  rwa [containerJobs, c.taken_map, List.flatMap_map, List.flatMap_singleton'] at h

theorem inWalkOrder_runPool :
    inWalkOrder (c.runPool "schemas" (schemaJobs c d)) = (judgements c d).map (·.2) := by
  refine inWalkOrder_eq ?_ (pairwise_judgements c d)
  have h := RuleContext.runPool_perm hc "schemas" (quiet_schemaJobs c d)
  rwa [schemaJobs, c.taken_map, List.flatMap_map, ← List.filterMap_eq_flatMap_toList] at h

end

theorem related_judgements (h : RuleContext.Alike R b c) :
    List.Forall₂ (Option.Rel (Lack.Alike R)) ((judgements b d).map (·.2))
      ((judgements c d).map (·.2)) := by
  rw [judgements, judgements, h.walk, h.taken, List.map_filterMap, List.map_filterMap]
  refine forall₂_filterMap fun (id, position) _ => ?_
  dsimp only
  cases d.schema? id with
  | none => exact .none
  | some s => exact .some (related_ofSchema h s)

theorem related (h : RuleContext.Alike R b c) :
    Multiset.Rel R (evaluate b : Multiset Finding) (evaluate c : Multiset Finding) := by
  unfold evaluate
  rw [h.document]
  cases c.document with
  | none => exact .zero
  | some d =>
    obtain ⟨hb, hc⟩ := h.uncancelled
    have hcontainers := h.taken_rel "containers" (related_containers (d := d) h)
    have hkeys := keys_eq hcontainers
    dsimp only [merge]
    rw [inWalkOrder_runPool hb, inWalkOrder_runPool hc, ← Multiset.coe_add, ← Multiset.coe_add]
    refine .add ?_ ?_
    · exact rel_of_perm ((outcomes_perm hb).flatMap_right _)
        (List.rel_flatMap hcontainers fun _ _ houtcome => houtcome.findings)
        ((outcomes_perm hc).flatMap_right _)
    · refine rel_coe (related_report (fun key => ?_) (related_judgements h))
      rw [((outcomes_perm hb).flatMap_right _).mem_iff, hkeys,
        ((outcomes_perm hc).flatMap_right _).mem_iff]

end MissingExample

end Check

/-! ## The catalog -/

/-- An option of the check has a value that cannot be read. -/
def Check.Unreadable (check : Check) (c : RuleContext) : Prop :=
  ∃ o ∈ check.options, ∃ invalid, c.integerOption? o.name = .error invalid

namespace Catalog

open Check

variable {R : Finding → Finding → Prop} {b c : RuleContext}

/-- **Related findings of two contexts.** -/
theorem related {check : Check} (hcheck : check ∈ checks) (h : Alike R b c)
    (hd : ∀ d ∈ c.document, d.SchemasNamed) (hread : ¬check.Unreadable c) :
    Multiset.Rel R (check.evaluate b : Multiset Finding) (check.evaluate c : Multiset Finding) := by
  simp only [checks, all, List.map_cons, List.map_nil, List.mem_cons, List.not_mem_nil,
    or_false] at hcheck
  rcases hcheck with rfl | rfl | rfl | rfl | rfl | rfl | rfl | rfl | rfl | rfl
  · exact rel_coe (PropertyCase.related h)
  · cases hvalue : c.integerOption? "minWords" with
    | error invalid => exact absurd ⟨_, List.mem_singleton_self _, invalid, hvalue⟩ hread
    | ok value => exact rel_coe (ComponentDescription.related h hvalue)
  · exact NamedExample.related h hd
  · exact rel_coe (ExternalExample.related h)
  · exact MissingExample.related h
  · exact ExampleConformance.related h hd
  · exact rel_coe (AmbiguousPath.related h)
  · exact rel_coe (Keyword.related h)
  · exact rel_coe (ParameterDescription.related h)
  · exact rel_coe (Combinator.related h)

/-- A check with an option that cannot be read reports that alone. -/
theorem evaluate_of_unreadable {check : Check} (hcheck : check ∈ checks) {d : Document}
    (hdoc : c.document = some d) (h : check.Unreadable c) :
    check.evaluate c = [c.invalidOptions] := by
  obtain ⟨o, ho, invalid, hinvalid⟩ := h
  simp only [checks, all, List.map_cons, List.map_nil, List.mem_cons, List.not_mem_nil,
    or_false] at hcheck
  rcases hcheck with rfl | rfl | rfl | rfl | rfl | rfl | rfl | rfl | rfl | rfl
  case inr.inl =>
    obtain rfl := List.mem_singleton.1 ho
    show ComponentDescription.evaluate c = _
    rw [ComponentDescription.evaluate, hdoc, hinvalid]
  all_goals exact absurd ho List.not_mem_nil

end Catalog

end ApiLint
