import ApiLint.Lint.Pool

/-!
# What becomes of the jobs of a pool

`ends` says how each of several jobs ends that one worker takes in turn: it is skipped if the pool
has been stopped from the beginning or if any job before it, of this or an earlier run, cancels;
otherwise it fails or completes. A pool that has taken jobs stands as they have ended
(`Pool.Stands`): each job that it takes next keeps that up (`Pool.Stands.take`), and so do whole
runs (`Pool.Stands.run`, `Pool.Stands.after`).

`Pool.run_accounts` reads off it what a run hands back and what the counts come to.
-/

set_option autoImplicit false

namespace ApiLint

/-- How a job comes to its end. -/
inductive JobEnd where
  | completed
  | failed
  /-- It has not been run. -/
  | skipped
  deriving Repr, DecidableEq

namespace JobCounts

/-- One more job, with its end. -/
def add (c : JobCounts) : JobEnd → JobCounts
  | .completed => { c with dispatched := c.dispatched + 1, completed := c.completed + 1 }
  | .failed => { c with dispatched := c.dispatched + 1, failed := c.failed + 1 }
  | .skipped => { c with dispatched := c.dispatched + 1, skipped := c.skipped + 1 }

/-- How often each end occurs. -/
def ofEnds (ends : List JobEnd) : JobCounts where
  dispatched := ends.length
  completed := ends.count .completed
  failed := ends.count .failed
  skipped := ends.count .skipped

theorem add_inj {c : JobCounts} {e e' : JobEnd} : c.add e = c.add e' ↔ e = e' := by
  constructor
  · intro h
    cases e <;> cases e' <;> simp [add] at h ⊢
  · intro h
    rw [h]

theorem ofEnds_concat (ends : List JobEnd) (e : JobEnd) :
    ofEnds (ends ++ [e]) = (ofEnds ends).add e := by
  cases e <;> simp [ofEnds, add]

theorem dispatched_ofEnds (ends : List JobEnd) :
    (ofEnds ends).dispatched =
      (ofEnds ends).completed + (ofEnds ends).failed + (ofEnds ends).skipped := by
  simp only [ofEnds]
  induction ends with
  | nil => rfl
  | cons e ends ih => cases e <;> simp <;> omega

end JobCounts

variable {α : Type}

namespace Job

/-- The end of a job that is taken when the pool is stopped or not. -/
def endIf (job : Job α) (stopped : Bool) : JobEnd :=
  if stopped then .skipped
  else if job.fails then .failed
  else .completed

/-- What a job with this end hands back. -/
def batch (job : Job α) (e : JobEnd) : List α :=
  if e = .completed then job.emit () else []

theorem endIf_eq_skipped_iff {job : Job α} {stopped : Bool} :
    job.endIf stopped = .skipped ↔ stopped = true := by
  unfold endIf
  cases stopped <;> cases job.fails <;> simp

end Job

/-- Jobs with their ends, when they are taken in turn and those of `earlier` were taken before
them. -/
def ends (stopped : Bool) (earlier : List (Job α)) : List (Job α) → List (Job α × JobEnd)
  | [] => []
  | job :: rest =>
    (job, job.endIf (stopped || earlier.any (·.cancels))) :: ends stopped (earlier ++ [job]) rest

theorem ends_append (stopped : Bool) (earlier jobs more : List (Job α)) :
    ends stopped earlier (jobs ++ more) =
      ends stopped earlier jobs ++ ends stopped (earlier ++ jobs) more := by
  induction jobs generalizing earlier with
  | nil => simp [ends]
  | cons job jobs ih => simp [ends, ih]

@[simp]
theorem length_ends (stopped : Bool) (earlier jobs : List (Job α)) :
    (ends stopped earlier jobs).length = jobs.length := by
  induction jobs generalizing earlier with
  | nil => rfl
  | cons job jobs ih => simp [ends, ih]

namespace Pool

/-- The pool after runs, one for each list of jobs. -/
def after (p : Pool) (expired : Bool) (runs : List (List (Job α))) : Pool :=
  runs.foldl (fun p jobs => (p.run expired jobs).2) p

theorem take_eq (p : Pool) (expired : Bool) (job : Job α) :
    p.take expired job =
      (job.batch (job.endIf (p.cancelled || expired)),
        ⟨p.cancelled || (!expired && job.cancels),
          p.counts.add (job.endIf (p.cancelled || expired))⟩) := by
  obtain ⟨cancelled, counts⟩ := p
  cases cancelled <;> cases expired <;> cases hfails : job.fails <;>
    simp [take, Job.endIf, Job.batch, JobCounts.add, hfails]

/-- The pool is as jobs have left it, which it took since its flag was `cancelled`. -/
structure Stands (cancelled expired : Bool) (jobs : List (Job α)) (p : Pool) : Prop where
  flag : p.cancelled = (cancelled || (!expired && jobs.any (·.cancels)))
  counts : p.counts = .ofEnds ((ends (cancelled || expired) [] jobs).map (·.2))

namespace Stands

variable {cancelled expired : Bool} {earlier : List (Job α)} {p : Pool}

theorem start (cancelled expired : Bool) :
    Stands (α := α) cancelled expired [] { cancelled := cancelled } where
  flag := by simp
  counts := rfl

theorem stopped (h : Stands cancelled expired earlier p) :
    (p.cancelled || expired) = ((cancelled || expired) || earlier.any (·.cancels)) := by
  rw [h.flag]
  cases cancelled <;> cases expired <;> simp

/-- The next job ends as it should, and leaves the pool as it should. -/
theorem take (h : Stands cancelled expired earlier p) (job : Job α) :
    Stands cancelled expired (earlier ++ [job]) (p.take expired job).2 where
  flag := by
    rw [take_eq, h.flag, List.any_append]
    cases cancelled <;> cases expired <;> simp
  counts := by
    rw [take_eq, h.stopped, h.counts, ends_append, List.map_append]
    exact (JobCounts.ofEnds_concat _ _).symm

theorem run (h : Stands cancelled expired earlier p) (jobs : List (Job α)) :
    Stands cancelled expired (earlier ++ jobs) (p.run expired jobs).2 := by
  induction jobs generalizing earlier p with
  | nil =>
    rw [List.append_nil]
    exact h
  | cons job jobs ih =>
    rw [List.append_cons]
    exact ih (h.take job)

theorem results (h : Stands cancelled expired earlier p) (jobs : List (Job α)) :
    (p.run expired jobs).1 =
      (ends (cancelled || expired) earlier jobs).flatMap fun x => x.1.batch x.2 := by
  induction jobs generalizing earlier p with
  | nil => rfl
  | cons job jobs ih =>
    have hbatch : (p.take expired job).1 =
        job.batch (job.endIf ((cancelled || expired) || earlier.any (·.cancels))) := by
      rw [take_eq, h.stopped]
    rw [Pool.run, ends, List.flatMap_cons, ← hbatch, ← ih (h.take job)]

theorem after (h : Stands cancelled expired earlier p) (runs : List (List (Job α))) :
    Stands cancelled expired (earlier ++ runs.flatten) (p.after expired runs) := by
  induction runs generalizing earlier p with
  | nil =>
    rw [List.flatten_nil, List.append_nil]
    exact h
  | cons jobs runs ih =>
    rw [List.flatten_cons, ← List.append_assoc]
    exact ih (h.run jobs)

end Stands

/-- **A pool accounts for every job.** After any runs, whatever their jobs do, the flag of the pool
being set at first or not and the deadline of each run having passed or there being none:

* a run hands back the batches of those of its jobs that complete, in the order in which they were
  handed in;
* the pool counts a job as skipped exactly if its flag was set at first, the deadline has passed, or
  one of the jobs before it, of this or an earlier run, cancels;
* the counts are those of the ends of all jobs so far, and no job is left out of them. -/
theorem run_accounts (cancelled expired : Bool) (before : List (List (Job α)))
    (jobs : List (Job α)) :
    let p := ({ cancelled := cancelled } : Pool).after expired before
    let q := (p.run expired jobs).2
    let all := (ends (cancelled || expired) [] (before.flatten ++ jobs)).map (·.2)
    (p.run expired jobs).1 =
      (ends (cancelled || expired) before.flatten jobs).flatMap (fun x => x.1.batch x.2) ∧
    (∀ front job back, jobs = front ++ job :: back →
      let met := (p.run expired front).2
      (met.take expired job).2.counts = met.counts.add .skipped ↔
        cancelled = true ∨ expired = true ∨
          ∃ earlier ∈ before.flatten ++ front, earlier.cancels = true) ∧
    q.cancelled = (cancelled || (!expired && (before.flatten ++ jobs).any (·.cancels))) ∧
    q.counts.dispatched = (before.flatten ++ jobs).length ∧
    q.counts.completed = all.count .completed ∧
    q.counts.failed = all.count .failed ∧
    q.counts.skipped = all.count .skipped ∧
    q.counts.dispatched = q.counts.completed + q.counts.failed + q.counts.skipped := by
  intro p q all
  have hp : Stands cancelled expired before.flatten p :=
    (Stands.start cancelled expired).after before
  have hq : Stands cancelled expired (before.flatten ++ jobs) q := hp.run jobs
  have hcounts : q.counts = .ofEnds all := hq.counts
  refine ⟨hp.results jobs, ?_, hq.flag, ?_, ?_, ?_, ?_, ?_⟩
  · intro front job back _ met
    have hmet : Stands cancelled expired (before.flatten ++ front) met := hp.run front
    rw [take_eq, hmet.stopped, JobCounts.add_inj, Job.endIf_eq_skipped_iff]
    simp only [Bool.or_eq_true, List.any_eq_true, or_assoc]
  · rw [hcounts]
    simp [JobCounts.ofEnds, all]
  · rw [hcounts]
    rfl
  · rw [hcounts]
    rfl
  · rw [hcounts]
    rfl
  · rw [hcounts]
    exact JobCounts.dispatched_ofEnds all

end Pool

end ApiLint
