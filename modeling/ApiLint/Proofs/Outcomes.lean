import ApiLint.CommandLine.Run
import ApiLint.Proofs.Runs

/-!
# When a lint command fails

A lint command comes to a fault before it writes anything, or to the report of a run
(`LintCommand.run_execute`). The report has the same faults and, in some order, the same severities
at all times (`LintCommand.report_cases`, `LintCommand.severities_perm`), and whether errors alone
are listed has no part in it.

It has a part in whether the command fails: what is not listed does not count.
`LintCommand.errorsOnly_outcome` says when that makes a difference, and
`LintCommand.exists_errorsOnly_clean` that it can.
-/

set_option autoImplicit false

namespace ApiLint

open Yaml (Node)

/-- The name of a file beside another one ends in its own name. -/
theorem FileName.exists_append_of_beside? {name file x : String} (h : beside? name file = some x) :
    ∃ front, x = front ++ file := by
  unfold beside? at h
  split at h
  · cases h
  · cases h
  · exact ⟨"", (Option.some.inj h).symm.trans String.empty_append.symm⟩
  · split at h
    · exact ⟨_, (Option.some.inj h).symm⟩
    · exact ⟨_, (Option.some.inj h).symm⟩

/-- A text that a document is read from has a tree. -/
theorem Document.exists_node_of_ofSource {source : String} {d : Document}
    (h : Document.ofSource source = .ok d) : ∃ root, Document.ofNode root = .ok d := by
  unfold Document.ofSource at h
  cases hroot : Node.ofSource source with
  | error fault =>
    rw [hroot] at h
    cases h
  | ok root =>
    rw [hroot] at h
    exact ⟨root, h⟩

theorem schemasNamed_of_readDocument {read : FileReader} {name : String} {d : Document}
    (h : readDocument read name = .ok d) : d.SchemasNamed := by
  unfold readDocument at h
  split at h
  · obtain ⟨root, hroot⟩ := Document.exists_node_of_ofSource h
    obtain ⟨-, draft, hdraft⟩ := Document.loaded_of_ofNode hroot
    exact hdraft.schemasNamed
  · cases h

theorem Severity.atLeast_of_error {s : Severity} (h : s = .error) (t : Severity) :
    s.atLeast t = true := by
  subst h
  cases t <;> rfl

theorem Listing.shouldFail_iff (findings : List Finding) (threshold : Option Severity) :
    shouldFail findings threshold = true ↔
      ∃ t, threshold = some t ∧ ∃ f ∈ findings, f.severity.atLeast t = true := by
  cases threshold with
  | none => simp [shouldFail]
  | some t => simp [shouldFail]

namespace LintCommand

variable (c : LintCommand) (read : FileReader)

/-- All that a lint command writes it writes when it has its report. -/
theorem run_execute (now : Nat) (out : String) : (c.execute read now).run.run out =
    match c.report read now with
    | .ok report =>
      (.ok (Listing.shouldFail (c.listed report.findings) c.failSeverity),
        out ++ Listing.render c.format (c.listed report.findings))
    | .error fault => (.error fault, out) := by
  unfold execute
  cases c.report read now <;> rfl

theorem run_eq (now : Nat) : (Command.lint c).run read now =
    (c.report read now).map fun report =>
      ⟨Listing.render c.format (c.listed report.findings),
        Listing.shouldFail (c.listed report.findings) c.failSeverity⟩ := by
  show (c.execute read now).outcome = _
  rw [Writing.outcome, run_execute]
  cases c.report read now with
  | error fault => rfl
  | ok report => simp [Except.map]

/-- A fault comes at all times or never; else the rules are run over the document. -/
theorem report_cases : (∃ fault, ∀ now, c.report read now = .error fault) ∨
    ∃ rules d, d.SchemasNamed ∧
      ∀ now, c.report read now = .ok ((Catalog.linter rules {} now).lint d) := by
  cases hrules : c.selectedRules read with
  | error fault =>
    refine .inl ⟨fault, fun now => ?_⟩
    rw [report, hrules]
    rfl
  | ok rules =>
    cases hd : readDocument read c.document with
    | error fault =>
      refine .inl ⟨.document c.document fault, fun now => ?_⟩
      rw [report, hrules, hd]
      rfl
    | ok d =>
      refine .inr ⟨rules, d, schemasNamed_of_readDocument hd, fun now => ?_⟩
      rw [report, hrules, hd]
      rfl

/-- The severities of a report do not depend on its time. -/
theorem severities_perm {d : Document} (hd : d.SchemasNamed) (rules : List Rule) (now now' : Nat) :
    (((Catalog.linter rules {} now).lint d).findings.map (·.severity)).Perm
      (((Catalog.linter rules {} now').lint d).findings.map (·.severity)) := by
  have h := Finding.map_perm_of_rel (Catalog.rel_untimed hd rules {} {} now now')
  have h := h.map (·.severity)
  rwa [List.map_map, List.map_map] at h

/-- When errors alone are listed, errors alone make the command fail. -/
theorem shouldFail_errors (findings : List Finding) (threshold : Option Severity) :
    Listing.shouldFail (findings.filter (·.severity == .error)) threshold = true ↔
      threshold.isSome = true ∧ ∃ f ∈ findings, f.severity = .error := by
  rw [Listing.shouldFail_iff]
  constructor
  · intro ⟨t, ht, f, hf, _⟩
    obtain ⟨hmem, herror⟩ := List.mem_filter.1 hf
    exact ⟨by rw [ht]; rfl, f, hmem, by simpa using herror⟩
  · intro ⟨hsome, f, hf, herror⟩
    obtain ⟨t, ht⟩ := Option.isSome_iff_exists.1 hsome
    exact ⟨t, ht, f, List.mem_filter.2 ⟨hf, by simpa using herror⟩,
      Severity.atLeast_of_error herror t⟩

theorem shouldFail_errors_congr {findings findings' : List Finding} (threshold : Option Severity)
    (h : (findings.map (·.severity)).Perm (findings'.map (·.severity))) :
    Listing.shouldFail (findings.filter (·.severity == .error)) threshold =
      Listing.shouldFail (findings'.filter (·.severity == .error)) threshold := by
  have hmem : ∀ fs : List Finding,
      (∃ f ∈ fs, f.severity = .error) ↔ Severity.error ∈ fs.map (·.severity) := by
    intro fs
    simp only [List.mem_map]
  rw [Bool.eq_iff_iff, shouldFail_errors, shouldFail_errors, hmem, hmem, h.mem_iff]

/-- It makes no difference if nothing counts, or if an error does. -/
theorem shouldFail_eq_errors_iff (findings : List Finding) (threshold : Option Severity) :
    Listing.shouldFail findings threshold =
        Listing.shouldFail (findings.filter (·.severity == .error)) threshold ↔
      (¬∃ t, threshold = some t ∧ ∃ f ∈ findings, f.severity.atLeast t = true) ∨
        ∃ f ∈ findings, f.severity = .error := by
  rw [Bool.eq_iff_iff, Listing.shouldFail_iff, shouldFail_errors]
  constructor
  · intro hagree
    by_cases hreached : ∃ t, threshold = some t ∧ ∃ f ∈ findings, f.severity.atLeast t = true
    · exact .inr (hagree.1 hreached).2
    · exact .inl hreached
  · intro h
    constructor
    · intro hreached
      have ⟨t, ht, _⟩ := hreached
      have herror := h.resolve_left fun hnone => hnone hreached
      exact ⟨by rw [ht]; rfl, herror⟩
    · intro ⟨hsome, f, hf, herror⟩
      obtain ⟨t, ht⟩ := Option.isSome_iff_exists.1 hsome
      exact ⟨t, ht, f, hf, Severity.atLeast_of_error herror t⟩

/-- **What listing errors alone changes.** Take a lint command twice, at any times: once all
findings are listed, once errors alone. Both come to the same fault or both to a result, and with a
fault nothing has been written. The first fails exactly if a finding of the report is as severe as
the threshold; the second exactly if there is a threshold and a finding is an error. So the two
agree exactly if no finding is as severe as the threshold or some finding is an error. -/
theorem errorsOnly_outcome (c : LintCommand) (read : FileReader) (now now' : Nat) :
    let all : LintCommand := { c with errorsOnly := false }
    let errors : LintCommand := { c with errorsOnly := true }
    (∀ fault, (Command.lint all).run read now = .error fault ↔
      (Command.lint errors).run read now' = .error fault) ∧
    (∀ report, c.report read now = .ok report →
      ∃ o o', (Command.lint all).run read now = .ok o ∧
        (Command.lint errors).run read now' = .ok o' ∧
        (o.failed = true ↔
          ∃ t, c.failSeverity = some t ∧ ∃ f ∈ report.findings, f.severity.atLeast t = true) ∧
        (o'.failed = true ↔
          c.failSeverity.isSome = true ∧ ∃ f ∈ report.findings, f.severity = .error) ∧
        (o.failed = o'.failed ↔
          (¬∃ t, c.failSeverity = some t ∧ ∃ f ∈ report.findings, f.severity.atLeast t = true) ∨
            ∃ f ∈ report.findings, f.severity = .error)) ∧
    ∀ fault before written, (c.execute read now).run.run before = (.error fault, written) →
      written = before := by
  intro all errors
  have hall : ∀ now, all.report read now = c.report read now := fun _ => rfl
  have herrors : ∀ now, errors.report read now = c.report read now := fun _ => rfl
  rw [run_eq, run_eq, hall, herrors]
  obtain ⟨fault, hfault⟩ | ⟨rules, d, hd, hreport⟩ := c.report_cases read
  · rw [hfault, hfault]
    refine ⟨fun _ => Iff.rfl, nofun, ?_⟩
    intro fault' before written h
    rw [run_execute, hfault] at h
    exact (Prod.mk.inj h).2.symm
  · rw [hreport, hreport]
    refine ⟨fun _ => iff_of_false nofun nofun, ?_, ?_⟩
    · intro report h
      obtain rfl := Except.ok.inj h
      refine ⟨_, _, rfl, rfl, Listing.shouldFail_iff _ _, ?_, ?_⟩
      · show Listing.shouldFail (List.filter _ _) _ = true ↔ _
        rw [shouldFail_errors_congr c.failSeverity (severities_perm hd rules now' now)]
        exact shouldFail_errors _ _
      · show Listing.shouldFail _ _ = Listing.shouldFail (List.filter _ _) _ ↔ _
        rw [shouldFail_errors_congr c.failSeverity (severities_perm hd rules now' now)]
        exact shouldFail_eq_errors_iff _ _
    · intro fault before written h
      rw [run_execute, hreport] at h
      cases (Prod.mk.inj h).1

/-- A document with one finding, which is a warning. -/
def undescribed : String :=
  "openapi: 3.1.0\ncomponents:\n  schemas:\n    A:\n      type: string\n"

/-- Only this document is there. -/
def onlyUndescribed : FileReader :=
  fun name => if name = "d" then .ok undescribed else .error .missing

/-- A command that is to fail on warnings. -/
def strict : LintCommand where
  document := "d"
  rules := ["oasComponentDescriptions"]
  failSeverity := some .warn

/-- Listing errors alone can turn a command that fails into one that is clean. -/
theorem exists_errorsOnly_clean : ∃ (c : LintCommand) (read : FileReader) (o o' : Outcome),
    (Command.lint { c with errorsOnly := false }).run read 0 = .ok o ∧ o.failed = true ∧
      (Command.lint { c with errorsOnly := true }).run read 0 = .ok o' ∧ o'.failed = false := by
  -- The one file that is there has too short a name for a ruleset.
  have hfile : strict.rulesetFile? onlyUndescribed = none := by
    show (FileName.beside? "d" rulesetName).filter _ = none
    rw [Option.filter_eq_none_iff]
    intro x hx
    obtain ⟨front, rfl⟩ := FileName.exists_append_of_beside? hx
    have hne : front ++ rulesetName ≠ "d" := by
      intro h
      have hlength := congrArg String.length h
      rw [String.length_append, show rulesetName.length = 13 from rfl,
        show "d".length = 1 from rfl] at hlength
      omega
    simp [FileReader.isThere, onlyUndescribed, hne, FileFault.isThere]
  have hselected : strict.selectedRules onlyUndescribed = strict.select Catalog.rules := by
    rw [selectedRules, configuredRules, hfile]
    rfl
  have hrun : ((strict.select Catalog.rules).toOption.bind fun rules =>
      (readDocument onlyUndescribed "d").toOption.map fun d =>
        ((Catalog.linter rules {} 0).lint d).findings.map (·.severity)) = some [.warn] := by
    decide +kernel
  obtain ⟨rules, hrules, hrun⟩ := Option.bind_eq_some_iff.1 hrun
  obtain ⟨d, hd, hseverities⟩ := Option.map_eq_some_iff.1 hrun
  have hreport : strict.report onlyUndescribed 0 = .ok ((Catalog.linter rules {} 0).lint d) := by
    rw [report, hselected, eq_ok_of_toOption hrules]
    show (readDocument onlyUndescribed "d").mapError _ >>= _ = _
    rw [eq_ok_of_toOption hd]
    rfl
  obtain ⟨f, hf, hwarn⟩ := List.map_eq_singleton_iff.1 hseverities
  refine ⟨strict, onlyUndescribed, _, _, (run_eq ..).trans (congrArg (Except.map _) hreport), ?_,
    (run_eq ..).trans (congrArg (Except.map _) hreport), ?_⟩
  · show Listing.shouldFail ((Catalog.linter rules {} 0).lint d).findings (some .warn) = true
    simp [hf, Listing.shouldFail, hwarn, Severity.atLeast]
  · show Listing.shouldFail (((Catalog.linter rules {} 0).lint d).findings.filter
      (·.severity == .error)) (some .warn) = false
    simp [hf, Listing.shouldFail, hwarn]

end LintCommand

end ApiLint
