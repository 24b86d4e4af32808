import ApiLint.Lint.Host
import ApiLint.Proofs.Findings
import ApiLint.Proofs.Reaching
import ApiLint.Proofs.Reports

/-!
# Runs of the linter

A run that is not cancelled reports what its rules find, each by itself, in some order
(`Linter.lint_perm`). If the rules of two runs find the same up to a relation, so do the runs
(`Linter.rel_lint`), and this has two uses:

* `Catalog.lint_schedule`: the order in which the jobs of a run end shows nowhere in the report.
* `Catalog.lint_configured`: the severity and the message of a rule, and options that its check does
  not know, are written on findings but do not change where there are any.
-/

set_option autoImplicit false

namespace ApiLint

open Yaml (Mark Node)
open RuleContext (Alike)

namespace Finding

/-- All of a finding but its time. -/
def untimed (f : Finding) : Finding := { f with timestamp := 0 }

/-- The rule of a finding and the place that it is about. -/
def site (f : Finding) : String × String × Option (List String) × Mark × Mark × Target :=
  (f.ruleId, f.path, f.paths, f.start, f.stop, f.target)

/-- A property of findings is a relation that looks at one side only. -/
theorem forall_of_rel {P : Finding → Prop} {found found' : List Finding}
    (h : Multiset.Rel (fun f _ => P f) (found : Multiset Finding) (found' : Multiset Finding)) :
    ∀ f ∈ found, P f := by
  intro f hf
  obtain ⟨_, -, hP⟩ := Multiset.exists_mem_of_rel_of_mem h hf
  exact hP

/-- Findings that are related by a view of them look the same as a whole. -/
theorem map_perm_of_rel {α : Type} {view : Finding → α} {found found' : List Finding}
    (h : Multiset.Rel (fun f g => view f = view g) (found : Multiset Finding) found') :
    (found.map view).Perm (found'.map view) := by
  rw [← Multiset.coe_eq_coe, ← Multiset.map_coe, ← Multiset.map_coe, ← Multiset.rel_eq,
    Multiset.rel_map]
  exact h

end Finding

/-! ## What a run reports -/

namespace Linter

variable {l l' : Linter} {d : Document}

/-- What the rule at a position finds. -/
def found (l : Linter) (document : Option Document) (rule : Rule) (position : Nat) :
    List Finding :=
  match l.checks.find? (·.name == rule.check) with
  | none => []
  | some check => check.evaluate (l.context document rule position check)

theorem quiet_jobs (l : Linter) (document : Option Document) :
    ∀ job ∈ l.jobs document, job.Quiet := by
  intro job hjob
  obtain ⟨x, -, hx⟩ := List.mem_filterMap.1 hjob
  obtain ⟨check, -, rfl⟩ := Option.map_eq_some_iff.1 hx
  exact ⟨rfl, rfl⟩

theorem flatMap_jobs (l : Linter) (document : Option Document) :
    (l.jobs document).flatMap (·.emit ()) =
      l.rules.zipIdx.flatMap fun x => l.found document x.1 x.2 := by
  rw [jobs, List.filterMap_eq_flatMap_toList, List.flatMap_assoc]
  refine List.flatMap_congr fun (rule, position) _ => ?_
  dsimp only [found]
  cases l.checks.find? (·.name == rule.check) with
  | none => rfl
  | some check => exact List.flatMap_singleton ..

/-- **A run reports what its rules find**, in some order. -/
theorem lint_perm (hl : l.cancelled = false) (d : Document) :
    (l.lint d).findings.Perm (l.rules.zipIdx.flatMap fun x => l.found (some d) x.1 x.2) := by
  refine (LintReport.findings_perm _ _).trans ?_
  rw [hl, ← flatMap_jobs]
  exact Pool.run_arrange_perm _ (l.quiet_jobs (some d))

/-- Runs are related as their rules are. -/
theorem rel_lint {R : Finding → Finding → Prop} {S : Rule → Rule → Prop}
    (hl : l.cancelled = false) (hl' : l'.cancelled = false)
    (hrules : List.Forall₂ S l.rules l'.rules)
    (h : ∀ rule rule' i j, S rule rule' → Multiset.Rel R
      (l.found (some d) rule i : Multiset Finding) (l'.found (some d) rule' j)) :
    Multiset.Rel R ((l.lint d).findings : Multiset Finding) (l'.lint d).findings := by
  rw [Multiset.coe_eq_coe.2 (lint_perm hl d), Multiset.coe_eq_coe.2 (lint_perm hl' d),
    ← Multiset.coe_bind, ← Multiset.coe_bind]
  -- The positions say which orders the pools of a rule have, and do not matter.
  have hzip : List.Forall₂ (fun x y : Rule × Nat => S x.1 y.1) l.rules.zipIdx l'.rules.zipIdx := by
    rw [← l.rules.zipIdx_map_fst 0, ← l'.rules.zipIdx_map_fst 0, List.forall₂_map_left_iff,
      List.forall₂_map_right_iff] at hrules
    exact hrules
  exact Multiset.rel_bind (fun x y hxy => h x.1 y.1 x.2 y.2 hxy) (rel_coe hzip)

end Linter

namespace Catalog

variable {R : Finding → Finding → Prop} {d : Document} {rule rule' : Rule}

/-- Runs rules of the catalog's checks. -/
def linter (rules : List Rule) (schedule : Schedule) (now : Nat) : Linter where
  checks := checks
  rules := rules
  schedule := schedule
  now := now

/-- The check that a rule uses. -/
def checkOf (rule : Rule) : Option Check := checks.find? (·.name == rule.check)

theorem rel_evaluate {b c : RuleContext} {check : Check} (hcheck : check ∈ checks)
    (h : Alike R b c) (hinvalid : R b.invalidOptions c.invalidOptions)
    (hdoc : c.document = some d) (hd : d.SchemasNamed) :
    Multiset.Rel R (check.evaluate b : Multiset Finding) (check.evaluate c : Multiset Finding) := by
  by_cases hread : check.Unreadable c
  · have hb : check.Unreadable b := by
      obtain ⟨o, ho, invalid, hvalue⟩ := hread
      exact ⟨o, ho, invalid, (h.integerOption? o.name).trans hvalue⟩
    rw [evaluate_of_unreadable hcheck hdoc hread,
      evaluate_of_unreadable hcheck (h.document.trans hdoc) hb]
    exact rel_coe (.cons hinvalid .nil)
  · refine related hcheck h (fun e he => ?_) hread
    rw [hdoc] at he
    exact Option.some.inj he ▸ hd

/-- Rules find the same, up to what findings in their contexts have in common, if they use the same
check. -/
theorem rel_found (hd : d.SchemasNamed) {l l' : Linter} {i j : Nat} (hl : l.checks = checks)
    (hl' : l'.checks = checks) (hcheck : rule.check = rule'.check)
    (h : ∀ check ∈ checkOf rule, Alike R (l.context (some d) rule i check)
      (l'.context (some d) rule' j check) ∧
      R (l.context (some d) rule i check).invalidOptions
        (l'.context (some d) rule' j check).invalidOptions) :
    Multiset.Rel R (l.found (some d) rule i : Multiset Finding) (l'.found (some d) rule' j) := by
  unfold Linter.found
  rw [hl, hl', ← hcheck, ← checkOf]
  cases hfind : checkOf rule with
  | none => exact .zero
  | some check =>
    obtain ⟨halike, hinvalid⟩ := h check hfind
    exact rel_evaluate (List.mem_of_find?_eq_some hfind) halike hinvalid rfl hd

/-! ## Schedules -/

/-- The order of jobs and the time change nothing but the times of findings. -/
theorem rel_untimed (hd : d.SchemasNamed) (rules : List Rule) (schedule schedule' : Schedule)
    (now now' : Nat) :
    Multiset.Rel (fun f g : Finding => f.untimed = g.untimed)
      (((linter rules schedule now).lint d).findings : Multiset Finding)
      ((linter rules schedule' now').lint d).findings := by
  have hrules : List.Forall₂ Eq rules rules := List.forall₂_same.2 fun rule _ => rfl
  refine Linter.rel_lint rfl rfl hrules fun rule rule' i j hrule => ?_
  subst hrule
  refine rel_found hd rfl rfl rfl fun check _ => ⟨⟨rfl, rfl, rfl, rfl, ⟨rfl, rfl⟩, ?_⟩, rfl⟩
  intro template arguments l start stop target
  rfl

/-- **The schedule does not show in a report.** Whatever the order in which the jobs of the run and
those in the pools of its rules end, the report has the same findings, up to their times, and lists
the same keys; the findings attached to an object are those about it, and each one is attached
once. -/
theorem lint_schedule (root : Node) (d : Document) (h : Document.ofNode root = .ok d)
    (rules : List Rule) (schedule schedule' : Schedule) (now now' : Nat) :
    let report := (linter rules schedule now).lint d
    let other := (linter rules schedule' now').lint d
    (report.findings.map Finding.untimed).Perm (other.findings.map Finding.untimed) ∧
      report.findings.map Finding.sortKey = other.findings.map Finding.sortKey ∧
      (∀ target, report.findingsFor target = report.findings.filter fun f => f.target = target) ∧
      (report.attached.flatMap (·.2)).Perm (List.range report.findings.length) := by
  obtain ⟨-, draft, hdraft⟩ := Document.loaded_of_ofNode h
  have hperm := Finding.map_perm_of_rel
    (rel_untimed hdraft.schemasNamed rules schedule schedule' now now')
  have hkeys := hperm.map Finding.sortKey
  rw [List.map_map, List.map_map] at hkeys
  refine ⟨hperm, ?_, LintReport.findingsFor_ofFindings _ _, LintReport.attached_perm _ _⟩
  refine LintReport.sortKeys_eq _ _ ?_
  exact ((LintReport.findings_perm _ _).map _).symm.trans
    (hkeys.trans ((LintReport.findings_perm _ _).map _))

/-- Two schemas without a description. -/
def terse : Node :=
  .table 1 [("openapi", .word "3.1.0" 1), ("components", .table 3 [("schemas", .table 4 [
    ("A", .table 5 [("type", .word "string" 6)]), ("B", .table 8 [("type", .word "string" 9)])])])]

def calm : Rule where
  id := "described"
  check := "oasComponentDescriptions"
  severity := .hint

/-- Jobs end in the opposite order. -/
def backwards : JobOrder := ⟨fun jobs => (List.range jobs).reverse, fun _ => List.reverse_perm _⟩

theorem lint_schedule_backwards : ∃ d, Document.ofNode terse = .ok d ∧
    let report := (linter (calm :: rules) {} 0).lint d
    let other := (linter (calm :: rules) ⟨backwards, fun _ _ => backwards⟩ 1).lint d
    report.findings ≠ [] ∧
      (report.findings.map Finding.untimed).Perm (other.findings.map Finding.untimed) ∧
      report.findings.map Finding.sortKey = other.findings.map Finding.sortKey := by
  have hrun : ((Document.ofNode terse).toOption.bind fun d =>
      some ((linter (calm :: rules) {} 0).found (some d) calm 0).length) = some 2 := by
    decide +kernel
  obtain ⟨d, hd, hlength⟩ := Document.ofNode_of_toOption hrun
  obtain ⟨hfindings, hkeys, -, -⟩ := lint_schedule terse d hd (calm :: rules) {}
    ⟨backwards, fun _ _ => backwards⟩ 0 1
  refine ⟨d, hd, ?_, hfindings, hkeys⟩
  intro hnil
  have hperm := Linter.lint_perm (l := linter (calm :: rules) {} 0) rfl d
  have hfound : (linter (calm :: rules) {} 0).found (some d) calm 0 = [] := by
    rw [hnil] at hperm
    exact List.flatMap_eq_nil_iff.1 hperm.nil_eq.symm (calm, 0) List.mem_cons_self
  simp [hfound] at hlength

/-! ## Configurations -/

/-- The options of a rule that a check knows. -/
def knownOptions (rule : Rule) (check : Check) : List (String × String) :=
  rule.options.filter fun (name, _) => check.options.any (·.name == name)

/-- Rules that use the same check in the same way. They may differ in their descriptions, severities
and messages, and in options that the check does not know. -/
structure SameUse (rule rule' : Rule) : Prop where
  id : rule.id = rule'.id
  check : rule.check = rule'.check
  options : ∀ check ∈ checkOf rule, knownOptions rule check = knownOptions rule' check

/-- Rules used in the same way find the same places. -/
theorem rel_site (hd : d.SchemasNamed) {rules rules' : List Rule}
    (hrules : List.Forall₂ SameUse rules rules') (schedule schedule' : Schedule) (now now' : Nat) :
    Multiset.Rel (fun f g : Finding => f.site = g.site)
      (((linter rules schedule now).lint d).findings : Multiset Finding)
      ((linter rules' schedule' now').lint d).findings := by
  refine Linter.rel_lint rfl rfl hrules fun rule rule' i j huse => ?_
  refine rel_found hd rfl rfl huse.check fun check hcheck => ?_
  have hsite : ∀ message message' l start stop target,
      (((linter rules schedule now).context (some d) rule i check).findingAt message l start stop
        target).site =
      (((linter rules' schedule' now').context (some d) rule' j check).findingAt message' l start
        stop target).site := by
    intro message message' l start stop target
    exact Prod.ext huse.id rfl
  exact ⟨⟨rfl, rfl, huse.options check hcheck, rfl, ⟨rfl, rfl⟩, fun _ _ => hsite _ _⟩,
    hsite _ _ .root ⟨1, 1⟩ ⟨1, 1⟩ .document⟩

/-- What a rule finds when it is run by itself. -/
def alone (d : Document) (now : Nat) (rule : Rule) : List Finding :=
  ((linter [rule] {} now).lint d).findings

/-- The context of a rule that is run by itself. -/
def contextOf (d : Document) (now : Nat) (rule : Rule) (check : Check) : RuleContext :=
  (linter [rule] {} now).context (some d) rule 0 check

theorem alone_perm (d : Document) (now : Nat) (rule : Rule) :
    (alone d now rule).Perm (match checkOf rule with
      | none => []
      | some check => check.evaluate (contextOf d now rule check)) := by
  have h := Linter.lint_perm (l := linter [rule] {} now) rfl d
  have hrules : (linter [rule] {} now).rules.zipIdx = [(rule, 0)] := rfl
  rw [hrules, List.flatMap_singleton] at h
  exact h

/-- **Rules do not get in each other's way**: a run reports what each of them finds by itself. -/
theorem lint_perm_alone (hd : d.SchemasNamed) (rules : List Rule) (schedule : Schedule)
    (now : Nat) :
    ((linter rules schedule now).lint d).findings.Perm (rules.flatMap (alone d now)) := by
  have hzip : rules.flatMap (alone d now) = rules.zipIdx.flatMap fun x => alone d now x.1 := by
    rw [← List.flatMap_map Prod.fst, List.zipIdx_map_fst]
  rw [hzip]
  refine (Linter.lint_perm rfl d).trans (List.Perm.flatMap_left _ fun (rule, i) _ => ?_)
  refine .trans ?_ (alone_perm d now rule).symm
  have hrel : Multiset.Rel Eq
      ((linter rules schedule now).found (some d) rule i : Multiset Finding)
      ((linter [rule] {} now).found (some d) rule 0) := by
    refine rel_found hd rfl rfl rfl fun check _ => ⟨⟨rfl, rfl, rfl, rfl, ⟨rfl, rfl⟩, ?_⟩, rfl⟩
    intro template arguments l start stop target
    rfl
  exact Multiset.coe_eq_coe.1 (Multiset.rel_eq.1 hrel)

/-- What the configuration of a rule writes on its findings: its id and its severity, and its
message if it has one. A check with an option that cannot be read has one finding, with a message of
its own. -/
structure Marks (d : Document) (now : Nat) (rule : Rule) (found : List Finding) : Prop where
  labels : ∀ f ∈ found, f.ruleId = rule.id ∧ f.severity = rule.severity
  message : ∀ check ∈ checkOf rule, ¬check.Unreadable (contextOf d now rule check) →
    ∀ message ∈ rule.message, ∀ f ∈ found, f.message = message
  invalid : ∀ check ∈ checkOf rule, check.Unreadable (contextOf d now rule check) →
    ∃ f, found = [f] ∧ f.message = check.errorMessage

theorem alone_perm_evaluate {now : Nat} {check : Check} (hcheck : checkOf rule = some check) :
    (alone d now rule).Perm (check.evaluate (contextOf d now rule check)) := by
  have h := alone_perm d now rule
  rw [hcheck] at h
  exact h

theorem labels_alone (hd : d.SchemasNamed) (now : Nat) (rule : Rule) :
    ∀ f ∈ alone d now rule, f.ruleId = rule.id ∧ f.severity = rule.severity := by
  intro f hf
  cases hcheck : checkOf rule with
  | none =>
    have hperm := alone_perm d now rule
    rw [hcheck] at hperm
    exact absurd (hperm.mem_iff.1 hf) List.not_mem_nil
  | some check =>
    have hrel : Multiset.Rel
        (fun f (_ : Finding) => f.ruleId = rule.id ∧ f.severity = rule.severity)
        (check.evaluate (contextOf d now rule check) : Multiset Finding)
        (check.evaluate (contextOf d now rule check)) := by
      refine rel_evaluate (List.mem_of_find?_eq_some hcheck)
        ⟨rfl, rfl, rfl, rfl, ⟨rfl, rfl⟩, ?_⟩ ⟨rfl, rfl⟩ rfl hd
      intro template arguments l start stop target
      exact ⟨rfl, rfl⟩
    exact Finding.forall_of_rel hrel f ((alone_perm_evaluate hcheck).mem_iff.1 hf)

theorem message_alone (hd : d.SchemasNamed) {now : Nat} {check : Check}
    (hcheck : checkOf rule = some check)
    (hread : ¬check.Unreadable (contextOf d now rule check)) {message : String}
    (hmessage : rule.message = some message) : ∀ f ∈ alone d now rule, f.message = message := by
  intro f hf
  have hrel : Multiset.Rel (fun f (_ : Finding) => f.message = message)
      (check.evaluate (contextOf d now rule check) : Multiset Finding)
      (check.evaluate (contextOf d now rule check)) := by
    refine related (List.mem_of_find?_eq_some hcheck) ⟨rfl, rfl, rfl, rfl, ⟨rfl, rfl⟩, ?_⟩
      (fun e he => Option.some.inj he ▸ hd) hread
    intro template arguments l start stop target
    show rule.message.getD (Template.render template arguments) = message
    rw [hmessage, Option.getD_some]
  exact Finding.forall_of_rel hrel f ((alone_perm_evaluate hcheck).mem_iff.1 hf)

theorem marks_alone (hd : d.SchemasNamed) (now : Nat) (rule : Rule) :
    Marks d now rule (alone d now rule) where
  labels := labels_alone hd now rule
  message check hcheck hread message hmessage := message_alone hd hcheck hread hmessage
  invalid check hcheck hread := by
    have hperm : (alone d now rule).Perm _ := alone_perm_evaluate hcheck
    rw [evaluate_of_unreadable (List.mem_of_find?_eq_some hcheck) rfl hread,
      List.perm_singleton] at hperm
    exact ⟨_, hperm, rfl⟩

/-- **Configuration is written on findings and finds nothing.** Two lists of rules that use the same
checks in the same way find the same places. Each rule has its part of the report, with the marks of
its own configuration. -/
theorem lint_configured (root : Node) (d : Document) (h : Document.ofNode root = .ok d)
    (rules rules' : List Rule) (hrules : List.Forall₂ SameUse rules rules')
    (schedule schedule' : Schedule) (now now' : Nat) :
    let report := (linter rules schedule now).lint d
    let other := (linter rules' schedule' now').lint d
    (report.findings.map Finding.site).Perm (other.findings.map Finding.site) ∧
      report.findings.Perm (rules.flatMap (alone d now)) ∧
      ∀ rule ∈ rules, Marks d now rule (alone d now rule) := by
  obtain ⟨-, draft, hdraft⟩ := Document.loaded_of_ofNode h
  have hd := hdraft.schemasNamed
  exact ⟨Finding.map_perm_of_rel (rel_site hd hrules schedule schedule' now now'),
    lint_perm_alone hd rules schedule now, fun rule _ => marks_alone hd now rule⟩

/-- The rule `calm` with another severity, a message and an option that its check does not know. -/
def loud : Rule where
  id := "described"
  check := "oasComponentDescriptions"
  severity := .error
  message := some "DESCRIBE THIS"
  options := [("colour", "red")]

theorem lint_configured_loud : ∃ d, Document.ofNode terse = .ok d ∧
    List.Forall₂ SameUse [loud] [calm] ∧
    let report := (linter [loud] {} 0).lint d
    let other := (linter [calm] {} 0).lint d
    report.findings.length = 2 ∧
      (report.findings.map Finding.site).Perm (other.findings.map Finding.site) ∧
      ∀ f ∈ report.findings, f.severity = .error ∧ f.message = "DESCRIBE THIS" := by
  have hrun : ((Document.ofNode terse).toOption.bind fun d =>
      some ((linter [loud] {} 0).found (some d) loud 0).length) = some 2 := by decide +kernel
  obtain ⟨d, hd, hlength⟩ := Document.ofNode_of_toOption hrun
  have hcheck : checkOf loud = some Check.ComponentDescription.check := rfl
  have hsame : List.Forall₂ SameUse [loud] [calm] := by
    refine .cons ⟨rfl, rfl, fun check h => ?_⟩ .nil
    obtain rfl := Option.some.inj (hcheck.symm.trans h)
    rfl
  obtain ⟨hsites, -, hmarks⟩ := lint_configured terse d hd [loud] [calm] hsame {} {} 0 0
  have hmarks := hmarks loud (List.mem_singleton_self loud)
  have hread : ¬Check.ComponentDescription.check.Unreadable
      (contextOf d 0 loud Check.ComponentDescription.check) := by
    rintro ⟨o, ho, invalid, hvalue⟩
    obtain rfl := List.mem_singleton.1 ho
    cases hvalue
  refine ⟨d, hd, hsame, ?_, hsites, fun f hf => ⟨(hmarks.labels f hf).2, ?_⟩⟩
  · have hperm := (Linter.lint_perm (l := linter [loud] {} 0) rfl d).length_eq
    exact hperm.trans ((congrArg List.length (List.append_nil _)).trans (Option.some.inj hlength))
  · exact hmarks.message _ hcheck hread _ rfl f hf

end Catalog

end ApiLint
