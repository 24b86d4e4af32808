import ApiLint.Proofs.Reaching
import ApiLint.Proofs.Reporting

/-!
# Deadlines

A pool whose deadline passes leaves out the jobs that it has not taken. For the checks that validate
examples this loses the findings of those jobs and nothing else. `Check.MissingExample` runs two
pools one after the other, and what the first has not come to is missing in the second: a container
that is left out does not note its keys, so a schema is reported that the container speaks for.

`Check.stopped_subperm` says when only findings are lost: exactly if no schema that is reported goes
by a key that some container notes (`MissingExample.InTime`). This is so if both pools keep one
deadline, so that no schema is judged once a container has been left out. As each has a deadline of
its own it need not be so (`Check.exists_stopped_not_subperm`).
-/

set_option autoImplicit false

namespace ApiLint

open Yaml (Mark Node)

/-- The context without deadlines. -/
def RuleContext.unhurried (c : RuleContext) : RuleContext := { c with deadlines := fun _ => none }

namespace RuleContext

variable {α : Type} (c : RuleContext) (pool : String)

theorem taken_prefix (jobs : List α) : c.taken pool jobs <+: jobs := by
  unfold taken
  split
  · exact List.prefix_rfl
  · exact List.take_prefix _ jobs

end RuleContext

namespace ExampleJob

variable {c : RuleContext} {d : Document}

/-- Jobs that are left out lose their own findings. -/
theorem findings_subperm (hc : c.cancelled = false) (pool : String) {jobs : List ExampleJob}
    (h : ∀ job ∈ jobs, Steady d job) :
    (findings c d pool jobs).Subperm (findings c.unhurried d pool jobs) := by
  have hstopped := ((c.orders pool).arrange_perm (c.taken pool jobs)).flatMap_right (batch d)
  have hall := ((c.orders pool).arrange_perm jobs).flatMap_right (batch d)
  rw [findings_eq hc pool h, findings_eq (c := c.unhurried) hc pool h]
  exact hstopped.subperm.trans
    ((((c.taken_sublist pool jobs).flatMap (batch d)).subperm).trans hall.symm.subperm)

end ExampleJob

namespace Check

variable {c : RuleContext} {d : Document}

theorem NamedExample.evaluate_subperm (hd : d.SchemasNamed) (hdoc : c.document = some d)
    (hc : c.cancelled = false) : (evaluate c).Subperm (evaluate c.unhurried) := by
  have hunhurried : c.unhurried.document = some d := hdoc
  have hsteady : ∀ job ∈ jobs c d, ExampleJob.Steady d job := fun job hjob =>
    .of_agree (List.forall₂_same.1 (agree_jobs (.refl hc) hd) job hjob)
  rw [evaluate, evaluate, hdoc, hunhurried]
  exact ExampleJob.findings_subperm hc "operations" hsteady

theorem ExampleConformance.evaluate_subperm (hd : d.SchemasNamed) (hdoc : c.document = some d)
    (hc : c.cancelled = false) : (evaluate c).Subperm (evaluate c.unhurried) := by
  have hunhurried : c.unhurried.document = some d := hdoc
  have hsteady : ∀ job ∈ jobs c d, ExampleJob.Steady d job := fun job hjob =>
    .of_agree (List.forall₂_same.1 (agree_jobs (.refl hc) hd) job hjob)
  rw [evaluate, evaluate, hdoc, hunhurried]
  exact ExampleJob.findings_subperm hc "examples" hsteady

/-! ## Missing examples -/

namespace MissingExample

/-- No schema that is reported goes by a key that a container notes, be the container judged in time
or not. -/
def InTime (c : RuleContext) (d : Document) : Prop :=
  ∀ lack ∈ reportedLacks c d, ∀ outcome ∈ containers c d, lack.key ∉ outcome.keys

/-- No schema is judged once a container has been left out. -/
def HasOneDeadline (c : RuleContext) (d : Document) : Prop :=
  c.taken "containers" (containers c d) = containers c d ∨ c.taken "schemas" c.walk = []

theorem containerKeys_unhurried (c : RuleContext) (d : Document) :
    containerKeys c.unhurried d = (containers c d).flatMap (·.keys) := rfl

theorem containerKeys_subset (c : RuleContext) (d : Document) :
    containerKeys c d ⊆ containerKeys c.unhurried d :=
  ((c.taken_sublist "containers" (containers c d)).flatMap (·.keys)).subset

theorem prefix_judged (c : RuleContext) (d : Document) : judged c d <+: judged c.unhurried d :=
  (c.taken_prefix "schemas" c.walk).filterMap d.schema?

theorem ofSchema_unhurried (c : RuleContext) (d : Document) :
    ofSchema c.unhurried d = ofSchema c d := rfl

theorem inTime_iff :
    InTime c d ↔ ∀ lack ∈ reportedLacks c d, lack.key ∉ containerKeys c.unhurried d := by
  simp only [InTime, containerKeys_unhurried, List.mem_flatMap, not_exists, not_and]

/-- The schemas that are reported in time are those that would have been reported. -/
theorem InTime.reportedLacks_prefix (h : InTime c d) :
    reportedLacks c d <+: reportedLacks c.unhurried d := by
  have hkeys : reported (containerKeys c.unhurried d) ((judgements c d).map (·.2)) =
      reportedLacks c d :=
    reported_congr (containerKeys_subset c d) (fun _ hkey => .inr hkey) (inTime_iff.1 h)
  rw [← hkeys, reportedLacks, judgements_map_snd, judgements_map_snd, ofSchema_unhurried]
  exact reported_prefix _ ((prefix_judged c d).map _)

theorem InTime.evaluate_subperm (h : InTime c d) (hdoc : c.document = some d)
    (hc : c.cancelled = false) : (evaluate c).Subperm (evaluate c.unhurried) := by
  have hcontainers := (c.taken_sublist "containers" (containers c d)).flatMap (·.findings)
  have hlacks := h.reportedLacks_prefix.sublist.flatMap (·.outcome.findings)
  refine (evaluate_perm hdoc hc).subperm.trans (.trans ?_
    (evaluate_perm (c := c.unhurried) hdoc hc).symm.subperm)
  exact hcontainers.subperm.append hlacks.subperm

theorem HasOneDeadline.inTime (h : HasOneDeadline c d) : InTime c d := by
  rcases h with h | h
  · -- All containers have been judged, and what is reported is not accounted for by them.
    refine inTime_iff.2 fun lack hlack hkey => ?_
    obtain ⟨n, s, -, -, hnew⟩ := mem_reportedLacks_iff.1 hlack
    refine hnew (mem_accounted_of_mem ?_ _)
    rwa [containerKeys, h]
  · intro lack hlack
    obtain ⟨n, s, hs, -⟩ := mem_reportedLacks_iff.1 hlack
    rw [judged, h] at hs
    cases hs

/-! ### Schemas that would not have been reported -/

theorem head?_render_property (name : String) :
    (Template.render mediaTypePropertyMissing [name]).toList.head? = some 'm' := by
  have hpieces : (Template.pieces mediaTypePropertyMissing.toList).head? =
      some (.literal "media type schema property \x60".toList) := rfl
  obtain ⟨rest, hrest⟩ := List.head?_eq_some_iff.1 hpieces
  rw [Template.render, hrest, String.toList_ofList]
  rfl

theorem message_ne (hmessage : c.rule.message = none) (name : String) :
    c.message mediaTypePropertyMissing [name] ≠ c.message containerMissing ["schema"] := by
  intro h
  rw [RuleContext.message, RuleContext.message, hmessage, Option.getD_none, Option.getD_none] at h
  have hschema : (Template.render containerMissing ["schema"]).toList.head? = some 's' := by
    decide +kernel
  rw [← h, head?_render_property] at hschema
  exact absurd hschema (by decide)

/-- No container gives the finding that a schema lacks an example, as long as messages are told
apart. -/
theorem missing_notMem_containers (hmessage : c.rule.message = none) {outcome : Outcome}
    (houtcome : outcome ∈ containers c d) (origin : Origin) (id : SchemaId) :
    missing c "schema" origin (.schema id) ∉ outcome.findings := by
  intro hf
  simp only [containers, List.mem_append, List.mem_map] at houtcome
  rcases houtcome with (⟨p, -, rfl⟩ | ⟨x, -, rfl⟩) | ⟨m, -, rfl⟩
  · exact absurd (target_of_mem_ofParameter hf) nofun
  · exact absurd (target_of_mem_ofHeader hf) nofun
  · obtain ⟨-, hf | ⟨name, slot, -, hf⟩⟩ := mem_ofMediaType_iff.1 hf
    · exact absurd (congrArg Finding.target hf) nofun
    · exact message_ne hmessage name (congrArg Finding.message hf).symm

/-- If a context has all findings that are made in time, then no schema has been reported that a
container speaks for. -/
theorem inTime_of_subperm (hd : d.SchemasNamed) (hdoc : c.document = some d)
    (hc : c.cancelled = false) (hmessage : c.rule.message = none)
    (h : (evaluate c).Subperm (evaluate c.unhurried)) : InTime c d := by
  refine inTime_iff.2 fun lack hlack hkey => ?_
  obtain ⟨n, s, hs, hsome, -⟩ := mem_reportedLacks_iff.1 hlack
  obtain ⟨-, hmissing, -⟩ := ofSchema_eq_some hsome
  have hmem := h.subset ((mem_evaluate_iff hdoc hc).2 (.inr ⟨lack, hlack, hmissing⟩))
  -- Without deadlines the finding can be that about the same schema alone.
  rcases (mem_evaluate_iff (c := c.unhurried) hdoc hc).1 hmem with ⟨outcome, houtcome, hf⟩ |
    ⟨other, hother, hf⟩
  · exact missing_notMem_containers hmessage houtcome _ _ hf
  · obtain ⟨m, t, ht, hother', hnew⟩ := mem_reportedLacks_iff.1 hother
    obtain ⟨-, -, htarget⟩ := ofSchema_eq_some hother'
    have hid : s.id = t.id := Target.schema.inj (htarget _ hf)
    have hst : s = t := by
      have hs' := hd.schema?_of_mem_filterMap (List.mem_of_getElem? hs)
      rw [hid, hd.schema?_of_mem_filterMap (List.mem_of_getElem? ht)] at hs'
      exact (Option.some.inj hs').symm
    have hlack : other = lack := by
      rw [ofSchema_unhurried, ← hst, hsome] at hother'
      exact (Option.some.inj hother').symm
    exact hnew (mem_accounted_of_mem (hlack ▸ hkey) _)

end MissingExample

/-- **What a deadline loses.** Whatever jobs the deadlines of its pools cut off, a check that
validates examples finds a part of what it finds without them. The check for missing examples does
so if no schema that it reports goes by a key that a container notes, which is so if its two pools
keep one deadline; and only then, unless all its messages are the same. -/
theorem stopped_subperm (root : Node) (d : Document) (h : Document.ofNode root = .ok d)
    (c : RuleContext) (hdoc : c.document = some d) (hc : c.cancelled = false) :
    (NamedExample.evaluate c).Subperm (NamedExample.evaluate c.unhurried) ∧
    (ExampleConformance.evaluate c).Subperm (ExampleConformance.evaluate c.unhurried) ∧
    (MissingExample.InTime c d →
      (MissingExample.evaluate c).Subperm (MissingExample.evaluate c.unhurried)) ∧
    (MissingExample.HasOneDeadline c d → MissingExample.InTime c d) ∧
    (c.rule.message = none →
      (MissingExample.evaluate c).Subperm (MissingExample.evaluate c.unhurried) →
      MissingExample.InTime c d) := by
  obtain ⟨-, draft, hdraft⟩ := Document.loaded_of_ofNode h
  have hd := hdraft.schemasNamed
  exact ⟨NamedExample.evaluate_subperm hd hdoc hc, ExampleConformance.evaluate_subperm hd hdoc hc,
    fun hin => hin.evaluate_subperm hdoc hc, fun hone => hone.inTime,
    fun hmessage => MissingExample.inTime_of_subperm hd hdoc hc hmessage⟩

/-- Two schemas that lack examples, and a header with an example. -/
def lacking : Node :=
  .table 1 [("openapi", .word "3.1.0" 1), ("components", .table 3 [
    ("schemas", .table 4 [("A", .table 5 [("type", .word "object" 6)]),
      ("B", .table 7 [("type", .word "object" 8)])]),
    ("headers", .table 9 [("H", .table 10 [("schema", .table 11 [("type", .word "object" 12)]),
      ("example", .word "limit" 13)])])])]

/-- The check for missing examples, with one pool that takes so many jobs. -/
def hurried (d : Document) (pool : String) (jobs : Nat) : RuleContext :=
  { MissingExample.check.contextOf d with
    deadlines := fun name => if name = pool then some jobs else none }

/-- How many findings there are about containers and about schemas. -/
def findingCounts (c : RuleContext) (d : Document) : Nat × Nat :=
  (((c.taken "containers" (MissingExample.containers c d)).flatMap (·.findings)).length,
    ((MissingExample.reportedLacks c d).flatMap (·.outcome.findings)).length)

theorem length_evaluate {m n : Nat} (hdoc : c.document = some d) (hc : c.cancelled = false)
    (h : findingCounts c d = (m, n)) : (MissingExample.evaluate c).length = m + n := by
  obtain ⟨rfl, rfl⟩ := Prod.mk.inj h
  rw [(MissingExample.evaluate_perm hdoc hc).length_eq, List.length_append]

theorem stopped_subperm_early : ∃ d, Document.ofNode lacking = .ok d ∧
    let c := hurried d "schemas" 1
    MissingExample.HasOneDeadline c d ∧
      (MissingExample.evaluate c).length = 1 ∧ (MissingExample.evaluate c.unhurried).length = 2 ∧
      (MissingExample.evaluate c).Subperm (MissingExample.evaluate c.unhurried) := by
  have hrun : ((Document.ofNode lacking).toOption.bind fun d =>
      some (findingCounts (hurried d "schemas" 1) d,
        findingCounts (hurried d "schemas" 1).unhurried d)) = some ((0, 1), (0, 2)) := by
    decide +kernel
  obtain ⟨d, hd, hcounts⟩ := Document.ofNode_of_toOption hrun
  obtain ⟨hstopped, hall⟩ := Prod.mk.inj (Option.some.inj hcounts)
  obtain ⟨-, -, hin, hone, -⟩ := stopped_subperm lacking d hd (hurried d "schemas" 1) rfl rfl
  exact ⟨d, hd, .inl rfl, length_evaluate rfl rfl hstopped, length_evaluate rfl rfl hall,
    hin (hone (.inl rfl))⟩

/-- A deadline of the first pool alone adds a finding: the header with the example is left out, so
its schema is reported. -/
theorem exists_stopped_not_subperm : ∃ d, Document.ofNode lacking = .ok d ∧
    let c := hurried d "containers" 0
    (MissingExample.evaluate c).length = 3 ∧ (MissingExample.evaluate c.unhurried).length = 2 ∧
      ¬(MissingExample.evaluate c).Subperm (MissingExample.evaluate c.unhurried) := by
  have hrun : ((Document.ofNode lacking).toOption.bind fun d =>
      some (findingCounts (hurried d "containers" 0) d,
        findingCounts (hurried d "containers" 0).unhurried d)) = some ((0, 3), (0, 2)) := by
    decide +kernel
  obtain ⟨d, hd, hcounts⟩ := Document.ofNode_of_toOption hrun
  obtain ⟨hstopped, hall⟩ := Prod.mk.inj (Option.some.inj hcounts)
  have hthree := length_evaluate (c := hurried d "containers" 0) rfl rfl hstopped
  have htwo := length_evaluate (c := (hurried d "containers" 0).unhurried) rfl rfl hall
  refine ⟨d, hd, hthree, htwo, fun h => ?_⟩
  have hle := h.length_le
  omega

end Check

end ApiLint
