/-!
# Running jobs

A pool runs jobs and keeps count of them. Once the run is cancelled, be it by a job, or its deadline
has passed, the jobs that are left are skipped; a job that fails contributes nothing.

Results are collected as jobs come to their ends: with one worker in the order in which the jobs
were handed in, with several workers in another `JobOrder`.
-/

set_option autoImplicit false

namespace ApiLint

structure Job (α : Type) where
  emit : Unit → List α
  /-- Cancels the run, before anything else. -/
  cancels : Bool := false
  fails : Bool := false

/-- In which order the jobs of a run come to their ends: their positions, each once. -/
structure JobOrder where
  positions : Nat → List Nat
  positions_perm : ∀ jobs, (positions jobs).Perm (List.range jobs)

namespace JobOrder

/-- The jobs end in the order in which they were handed in. -/
def submitted : JobOrder := ⟨List.range, fun _ => .refl _⟩

def arrange {α : Type} (o : JobOrder) (jobs : List α) : List α :=
  (o.positions jobs.length).filterMap (jobs[·]?)

theorem filterMap_range_getElem? {α : Type} (jobs : List α) :
    (List.range jobs.length).filterMap (jobs[·]?) = jobs := by
  induction jobs with
  | nil => rfl
  | cons job jobs ih => simpa [List.range_succ_eq_map, Function.comp_def] using ih

theorem arrange_perm {α : Type} (o : JobOrder) (jobs : List α) : (o.arrange jobs).Perm jobs := by
  have h := (o.positions_perm jobs.length).filterMap (jobs[·]?)
  rwa [filterMap_range_getElem?] at h

end JobOrder

/-- How many jobs came to which end, over all runs of a pool. -/
structure JobCounts where
  dispatched : Nat := 0
  completed : Nat := 0
  failed : Nat := 0
  skipped : Nat := 0
  deriving Repr, DecidableEq

structure Pool where
  cancelled : Bool := false
  counts : JobCounts := {}
  deriving Repr, DecidableEq

namespace Pool

variable {α : Type}

/-- Takes one job. -/
def take (p : Pool) (expired : Bool) (job : Job α) : List α × Pool :=
  let stopped := p.cancelled || expired
  let dispatched := p.counts.dispatched + 1
  if stopped then
    ([], { p with counts := { p.counts with
      dispatched := dispatched, skipped := p.counts.skipped + 1 } })
  else if job.fails then
    ([], ⟨p.cancelled || job.cancels, { p.counts with
      dispatched := dispatched, failed := p.counts.failed + 1 }⟩)
  else
    (job.emit (), ⟨p.cancelled || job.cancels, { p.counts with
      dispatched := dispatched, completed := p.counts.completed + 1 }⟩)

/-- Runs jobs, which end in the order given. A deadline that has passed when the run begins has
passed for all. -/
def run (p : Pool) (expired : Bool) : List (Job α) → List α × Pool
  | [] => ([], p)
  | job :: rest =>
    let (results, p) := p.take expired job
    let (others, p) := run p expired rest
    (results ++ others, p)

end Pool

end ApiLint
