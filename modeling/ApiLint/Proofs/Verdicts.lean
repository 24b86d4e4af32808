import ApiLint.Check.Example
import ApiLint.Proofs.Walking
import Mathlib.Data.List.Forall2

/-!
# Validators that jobs share

A validator keeps the schemas that it has prepared. As long as they are what it would prepare anew
(`ExampleValidator.Faithful`), its verdicts are those of a new validator and it stays faithful
(`ExampleValidator.Faithful.validate`).

`ExampleValidator.Agree` carries this through the jobs that share a validator: whatever faithful
validators they find, two computations give related results and leave faithful validators behind.
A job that agrees with itself gives one batch in all places of a run (`ExampleJob.findings_eq`).
-/

set_option autoImplicit false

namespace ApiLint

open Yaml (Node)

namespace RuleContext

variable {α β : Type} (c : RuleContext) (pool : String)

theorem taken_sublist (jobs : List α) : (c.taken pool jobs).Sublist jobs := by
  unfold taken
  split
  · exact .refl jobs
  · exact List.take_sublist _ jobs

theorem taken_map (f : α → β) (jobs : List α) :
    c.taken pool (jobs.map f) = (c.taken pool jobs).map f := by
  unfold taken
  split
  · rfl
  · exact List.map_take.symm

end RuleContext

/-- The verdict of a validator that has prepared nothing. -/
def Document.verdict (d : Document) (s : Schema) (value : Node) : Verdict :=
  ((ExampleValidator.ofDocument d).validate d s value).1

namespace Document

variable {d : Document} {s : Schema} {compiled : JsonSchema.Compiled} {size : Nat}

theorem verdict_eq (d : Document) (s : Schema) (value : Node) :
    d.verdict s value = (Prepared.ofSchema d (.ofDocument d) s).judge d s value := rfl

/-- Under a schema that compiles, the texts of the violations are reported that neither sum up
others nor are taken back. -/
theorem verdict_of_ready (hready : Prepared.ofSchema d (.ofDocument d) s = .ready compiled size)
    (value : Node) : d.verdict s value =
      let reasons :=
        ((compiled.violations d.specVersion.draft size value.toJson).map Violation.message).filter
          fun reason => !isSummary reason && !d.toleratesNull s value reason
      if reasons.isEmpty then .valid else .invalid reasons := by
  rw [verdict_eq, hready]
  rfl

/-- Such a verdict is to accept the value or to give reasons against it. -/
theorem verdict_of_ready_cases
    (hready : Prepared.ofSchema d (.ofDocument d) s = .ready compiled size) (value : Node) :
    (d.verdict s value).reasons = [] ∧ d.verdict s value = .valid ∨
      (d.verdict s value).reasons ≠ [] ∧
        d.verdict s value = .invalid (d.verdict s value).reasons := by
  rw [verdict_of_ready hready]
  dsimp only
  split
  · exact .inl ⟨rfl, rfl⟩
  · rename_i hne
    exact .inr ⟨mt List.isEmpty_iff.2 hne, rfl⟩

theorem reasons_of_ready (hready : Prepared.ofSchema d (.ofDocument d) s = .ready compiled size)
    (value : Node) : (d.verdict s value).reasons =
      ((compiled.violations d.specVersion.draft size value.toJson).map Violation.message).filter
        fun reason => !isSummary reason && !d.toleratesNull s value reason := by
  rw [verdict_of_ready hready]
  dsimp only
  split
  · rename_i hempty
    exact (List.isEmpty_iff.1 hempty).symm
  · rfl

theorem verdict_eq_valid_iff (hready : Prepared.ofSchema d (.ofDocument d) s = .ready compiled size)
    (value : Node) : d.verdict s value = .valid ↔ (d.verdict s value).reasons = [] := by
  obtain ⟨hreasons, hverdict⟩ | ⟨hreasons, hverdict⟩ := verdict_of_ready_cases hready value
  · exact iff_of_true hverdict hreasons
  · exact iff_of_false (hverdict ▸ nofun) hreasons

theorem exists_invalid_iff (hready : Prepared.ofSchema d (.ofDocument d) s = .ready compiled size)
    (value : Node) :
    (∃ reasons, d.verdict s value = .invalid reasons) ↔ d.verdict s value ≠ .valid := by
  obtain ⟨-, hverdict⟩ | ⟨-, hverdict⟩ := verdict_of_ready_cases hready value
  · exact iff_of_false (hverdict ▸ nofun) fun h => h hverdict
  · exact iff_of_true ⟨_, hverdict⟩ (hverdict ▸ nofun)

end Document

namespace ExampleValidator

/-- What has been prepared is what would be prepared anew. -/
structure Faithful (d : Document) (v : ExampleValidator) : Prop where
  source : v.source = .ofDocument d
  prepared : ∀ s p, d.schema? s.id = some s → v.prepared.lookup s.id = some p →
    p = .ofSchema d (.ofDocument d) s

variable {d : Document} {v : ExampleValidator}

theorem faithful_ofDocument (d : Document) : Faithful d (.ofDocument d) where
  source := rfl
  prepared s p _ hp := by
    rw [ofDocument, List.lookup_nil] at hp
    cases hp

theorem Faithful.prepare (hv : Faithful d v) {s : Schema} (hs : d.schema? s.id = some s) :
    (v.prepare d s).1 = .ofSchema d (.ofDocument d) s ∧ Faithful d (v.prepare d s).2 := by
  cases hlookup : v.prepared.lookup s.id with
  | some p =>
    rw [ExampleValidator.prepare, hlookup]
    exact ⟨hv.prepared s p hs hlookup, hv⟩
  | none =>
    rw [ExampleValidator.prepare, hlookup, hv.source]
    refine ⟨rfl, rfl, fun t p ht hp => ?_⟩
    rw [List.lookup_cons] at hp
    split at hp
    · next hid =>
      have hst : t = s := by
        rw [beq_iff_eq.1 hid, hs] at ht
        exact (Option.some.inj ht).symm
      rw [hst]
      exact (Option.some.inj hp).symm
    · exact hv.prepared t p ht hp

/-- **Verdicts do not depend on what was validated before.** -/
theorem Faithful.validate (hv : Faithful d v) {s : Schema} (hs : d.schema? s.id = some s)
    (value : Node) :
    (v.validate d s value).1 = d.verdict s value ∧ Faithful d (v.validate d s value).2 := by
  obtain ⟨hp, hfaithful⟩ := hv.prepare hs
  exact ⟨congrArg (Prepared.judge d s value) hp, hfaithful⟩

/-! ## Computations with a validator -/

section Agree

variable {α β γ δ : Type}

/-- Started with faithful validators, the computations give related results and leave faithful
validators. -/
structure Agree (d : Document) (S : α → β → Prop) (m : StateM ExampleValidator α)
    (n : StateM ExampleValidator β) : Prop where
  run : ∀ v w, Faithful d v → Faithful d w →
    S (m.run v).1 (n.run w).1 ∧ Faithful d (m.run v).2 ∧ Faithful d (n.run w).2

variable {S : α → β → Prop} {T : γ → δ → Prop}

theorem Agree.pure {a : α} {b : β} (h : S a b) : Agree d S (pure a) (pure b) :=
  ⟨fun _ _ hv hw => ⟨h, hv, hw⟩⟩

theorem Agree.bind {m : StateM ExampleValidator α} {n : StateM ExampleValidator β}
    {f : α → StateM ExampleValidator γ} {g : β → StateM ExampleValidator δ} (h : Agree d S m n)
    (hfg : ∀ a b, S a b → Agree d T (f a) (g b)) : Agree d T (m >>= f) (n >>= g) := by
  refine ⟨fun v w hv hw => ?_⟩
  obtain ⟨hresult, hv, hw⟩ := h.run v w hv hw
  exact (hfg _ _ hresult).run _ _ hv hw

theorem Agree.mapM {ε ζ : Type} {f : ε → StateM ExampleValidator α}
    {g : ζ → StateM ExampleValidator β} {xs : List ε} {ys : List ζ}
    (h : List.Forall₂ (fun x y => Agree d S (f x) (g y)) xs ys) :
    Agree d (List.Forall₂ S) (xs.mapM f) (ys.mapM g) := by
  induction h with
  | nil => exact .pure .nil
  | cons hxy _ ih =>
    rw [List.mapM_cons, List.mapM_cons]
    exact hxy.bind fun _ _ hab => ih.bind fun _ _ hrest => .pure (.cons hab hrest)

end Agree

end ExampleValidator

namespace ExampleJob

open ExampleValidator

variable {d : Document}

/-- The findings of a job that is run by itself. -/
def batch (d : Document) (job : ExampleJob) : List Finding := (job.run (.ofDocument d)).1

/-- A job finds the same with all faithful validators. -/
def Steady (d : Document) (job : ExampleJob) : Prop := Agree d Eq job job

theorem Steady.agree_batch {job : ExampleJob} (h : Steady d job) :
    Agree d Eq job (pure (batch d job)) := by
  refine ⟨fun v w hv hw => ?_⟩
  obtain ⟨hresult, hv, -⟩ := h.run v (.ofDocument d) hv (faithful_ofDocument d)
  exact ⟨hresult, hv, hw⟩

theorem runAll_eq {jobs : List ExampleJob} (h : ∀ job ∈ jobs, Steady d job) :
    ((runAll jobs).run (.ofDocument d)).1 = jobs.flatMap (batch d) := by
  have hmapM : Agree d (List.Forall₂ Eq) (jobs.mapM id) (jobs.mapM fun job => pure (batch d job)) :=
    .mapM (List.forall₂_same.2 fun job hjob => (h job hjob).agree_batch)
  obtain ⟨hresults, -, -⟩ := hmapM.run _ _ (faithful_ofDocument d) (faithful_ofDocument d)
  rw [List.forall₂_eq_eq_eq, List.mapM_pure] at hresults
  exact congrArg List.flatten hresults

/-- **Each job that is taken hands back its own batch**, whatever jobs were run before it. -/
theorem findings_eq {c : RuleContext} (hc : c.cancelled = false) (pool : String)
    {jobs : List ExampleJob} (h : ∀ job ∈ jobs, Steady d job) :
    findings c d pool jobs =
      ((c.orders pool).arrange (c.taken pool jobs)).flatMap (batch d) := by
  rw [findings, hc]
  refine runAll_eq fun job hjob => h job ((c.taken_sublist pool jobs).subset ?_)
  exact ((c.orders pool).arrange_perm _).mem_iff.1 hjob

end ExampleJob

end ApiLint
