import Mathlib.Data.List.Nodup

/-!
# Depth-first searches of bounded depth

A search that enters no node twice and goes a bounded number of steps down can miss nodes near its
roots: a node first met where no step is left is not gone below, and not entered again. So what a
search meets (`BoundedSearch.mem_run_iff`) are the nodes at the end of those routes on which no
inner node is first met at the lowest level.
-/

set_option autoImplicit false

namespace ApiLint.BoundedSearch

/-! ## Searches -/

section
variable {ι : Type} (next : ι → List ι)

section
variable [DecidableEq ι]

/-- Enters a node with `levels - 1` steps to go below it. The nodes met are noted with the steps
that were left at each, latest first. -/
def visit : Nat → List (ι × Nat) → ι → List (ι × Nat)
  | 0, met, _ => met
  | levels + 1, met, a =>
    if a ∈ met.map Prod.fst then met else (next a).foldl (visit levels) ((a, levels) :: met)

/-- Searches `depth` steps below each of the roots. -/
def run (depth : Nat) (roots : List ι) : List (ι × Nat) :=
  roots.foldl (visit next (depth + 1)) []

end

/-- The node stands `n` steps below a root, and those on the way to it satisfy `through`. -/
inductive Reaches (through : ι → Prop) (roots : List ι) : Nat → ι → Prop
  | root {a : ι} : a ∈ roots → Reaches through roots 0 a
  | step {n : Nat} {a b : ι} : Reaches through roots n a → through a → b ∈ next a →
      Reaches through roots (n + 1) b

end

variable {ι : Type} {next : ι → List ι} {roots : List ι}

theorem Reaches.mono {p q : ι → Prop} {n : Nat} {a : ι} (hpq : ∀ b, p b → q b)
    (h : Reaches next p roots n a) : Reaches next q roots n a := by
  induction h with
  | root ha => exact .root ha
  | step _ hp hb ih => exact .step ih (hpq _ hp) hb

/-! ## Coverage -/

/-- The nodes below one that was met with steps left have been met. -/
def Settled (next : ι → List ι) (met : List (ι × Nat)) (e : ι × Nat) : Prop :=
  0 < e.2 → ∀ b ∈ next e.1, b ∈ met.map Prod.fst

theorem Settled.mono {met met' : List (ι × Nat)} (h : met ⊆ met') {e : ι × Nat}
    (he : Settled next met e) : Settled next met' e :=
  fun hpos b hb => List.map_subset _ h (he hpos b hb)

section
variable [DecidableEq ι]

/-- The nodes `as` have been entered, and whatever was met on the way is settled. -/
structure Explored (next : ι → List ι) (levels : Nat) (met : List (ι × Nat)) (as : List ι)
    (after : List (ι × Nat)) : Prop where
  grows : met ⊆ after
  entered : 0 < levels → ∀ a ∈ as, a ∈ after.map Prod.fst
  settled : ∀ e ∈ after, e ∈ met ∨ Settled next after e

theorem explored_foldl {levels : Nat}
    (hvisit : ∀ met a, Explored next levels met [a] (visit next levels met a)) (as : List ι)
    (met : List (ι × Nat)) :
    Explored next levels met as (as.foldl (visit next levels) met) := by
  induction as generalizing met with
  | nil => exact ⟨fun _ h => h, fun _ a ha => (nomatch ha), fun e he => .inl he⟩
  | cons a as ih =>
    rw [List.foldl_cons]
    have hone := hvisit met a
    have hrest := ih (visit next levels met a)
    refine ⟨fun e he => hrest.grows (hone.grows he), fun hpos b hb => ?_, fun e he => ?_⟩
    · rcases List.mem_cons.1 hb with rfl | hb
      · exact List.map_subset _ hrest.grows (hone.entered hpos _ List.mem_cons_self)
      · exact hrest.entered hpos b hb
    · rcases hrest.settled e he with he | he
      · exact (hone.settled e he).imp_right (Settled.mono hrest.grows)
      · exact .inr he

theorem explored_visit (levels : Nat) (met : List (ι × Nat)) (a : ι) :
    Explored next levels met [a] (visit next levels met a) := by
  induction levels generalizing met a with
  | zero => exact ⟨fun _ h => h, fun hpos => (nomatch hpos), fun e he => .inl he⟩
  | succ levels ih =>
    unfold visit
    by_cases hmet : a ∈ met.map Prod.fst
    · rw [if_pos hmet]
      exact ⟨fun _ h => h, fun _ b hb => List.mem_singleton.1 hb ▸ hmet, fun e he => .inl he⟩
    · rw [if_neg hmet]
      have h := explored_foldl ih (next a) ((a, levels) :: met)
      refine ⟨fun e he => h.grows (.tail _ he), fun _ b hb => ?_, fun e he => ?_⟩
      · rw [List.mem_singleton.1 hb]
        exact List.mem_map_of_mem (h.grows List.mem_cons_self)
      · rcases h.settled e he with he | he
        · rcases List.mem_cons.1 he with rfl | he
          · exact .inr h.entered
          · exact .inl he
        · exact .inr he

end

/-! ## Routes -/

/-- The search went on below a node. -/
def Opened (met : List (ι × Nat)) (a : ι) : Prop := ∃ levels, (a, levels + 1) ∈ met

theorem Opened.mono {met met' : List (ι × Nat)} (h : met ⊆ met') {a : ι} (ha : Opened met a) :
    Opened met' a :=
  let ⟨levels, hmem⟩ := ha
  ⟨levels, h hmem⟩

/-- Each node met stands below a root as far as the steps used up for it tell. -/
def Routed (next : ι → List ι) (depth : Nat) (roots : List ι) (met : List (ι × Nat)) : Prop :=
  ∀ e ∈ met, e.2 ≤ depth ∧ Reaches next (Opened met) roots (depth - e.2) e.1

variable [DecidableEq ι]

theorem routed_foldl {depth levels : Nat}
    (hvisit : ∀ met a, Routed next depth roots met →
      (0 < levels → Reaches next (Opened met) roots (depth + 1 - levels) a) →
      Routed next depth roots (visit next levels met a)) :
    ∀ (as : List ι) (met : List (ι × Nat)), Routed next depth roots met →
      (∀ a ∈ as, 0 < levels → Reaches next (Opened met) roots (depth + 1 - levels) a) →
      Routed next depth roots (as.foldl (visit next levels) met)
  | [], _, hmet, _ => hmet
  | a :: as, met, hmet, has => by
    rw [List.foldl_cons]
    refine routed_foldl hvisit as _ (hvisit met a hmet (has a List.mem_cons_self))
      fun b hb hpos => ?_
    exact (has b (.tail _ hb) hpos).mono fun _ => Opened.mono (explored_visit levels met a).grows

theorem routed_visit {depth : Nat} (levels : Nat) (met : List (ι × Nat)) (a : ι)
    (hle : levels ≤ depth + 1) (hmet : Routed next depth roots met)
    (ha : 0 < levels → Reaches next (Opened met) roots (depth + 1 - levels) a) :
    Routed next depth roots (visit next levels met a) := by
  induction levels generalizing met a with
  | zero => exact hmet
  | succ levels ih =>
    unfold visit
    split
    · exact hmet
    have hgrow : ∀ b, Opened met b → Opened ((a, levels) :: met) b :=
      fun _ => Opened.mono (List.subset_cons_self _ _)
    have ha : Reaches next (Opened ((a, levels) :: met)) roots (depth - levels) a := by
      have := (ha (Nat.succ_pos _)).mono hgrow
      rwa [Nat.add_sub_add_right] at this
    refine routed_foldl (fun met a => ih met a (by omega)) _ _ (fun e he => ?_) fun b hb hpos => ?_
    · rcases List.mem_cons.1 he with rfl | he
      · exact ⟨Nat.le_of_succ_le_succ hle, ha⟩
      · exact ⟨(hmet e he).1, (hmet e he).2.mono hgrow⟩
    · have hopen : Opened ((a, levels) :: met) a :=
        ⟨levels - 1, by rw [Nat.sub_add_cancel hpos]; exact List.mem_cons_self⟩
      have := Reaches.step ha hopen hb
      rwa [show depth - levels + 1 = depth + 1 - levels by omega] at this

/-! ## A node is met once -/

theorem nodup_visit (levels : Nat) (met : List (ι × Nat)) (a : ι)
    (hmet : (met.map Prod.fst).Nodup) : ((visit next levels met a).map Prod.fst).Nodup := by
  induction levels generalizing met a with
  | zero => exact hmet
  | succ levels ih =>
    unfold visit
    split
    · exact hmet
    · next hfresh =>
      refine List.foldlRecOn (motive := fun met => (met.map Prod.fst).Nodup) _ _ ?_
        fun met h a _ => ih met a h
      exact List.nodup_cons.2 ⟨hfresh, hmet⟩

/-! ## What a search meets -/

/-- The node is first met where no step is left. -/
def Lowest (next : ι → List ι) (depth : Nat) (roots : List ι) (a : ι) : Prop :=
  (a, 0) ∈ run next depth roots

variable (next roots) (depth : Nat)

theorem nodup_run : ((run next depth roots).map Prod.fst).Nodup :=
  List.foldlRecOn (motive := fun met : List (ι × Nat) => (met.map Prod.fst).Nodup) _ _
    List.nodup_nil fun met h a _ => nodup_visit _ met a h

variable {next roots depth}

theorem not_lowest_of_opened {a : ι} (h : Opened (run next depth roots) a) :
    ¬Lowest next depth roots a := by
  obtain ⟨levels, hmem⟩ := h
  intro hlow
  have hnodup := nodup_run next roots depth
  have := List.inj_on_of_nodup_map hnodup hmem hlow rfl
  exact absurd (Prod.mk.inj this).2 (Nat.succ_ne_zero levels)

/-- Whatever stands below a root is met, unless the search stops short on the way to it. -/
theorem mem_run_of_reaches {n : Nat} {a : ι}
    (h : Reaches next (fun b => ¬Lowest next depth roots b) roots n a) :
    a ∈ (run next depth roots).map Prod.fst := by
  have hexplored : Explored next (depth + 1) [] roots (run next depth roots) :=
    explored_foldl (explored_visit _) _ _
  induction h with
  | root ha => exact hexplored.entered (Nat.succ_pos _) _ ha
  | step _ hlow hb ih =>
    obtain ⟨⟨a, levels⟩, hmem, rfl⟩ := List.mem_map.1 ih
    have hpos : 0 < levels := Nat.pos_of_ne_zero fun hzero => hlow (hzero ▸ hmem)
    exact ((hexplored.settled _ hmem).resolve_left List.not_mem_nil) hpos _ hb

/-- **What a search meets:** the nodes below a root that it does not stop short of. -/
theorem mem_run_iff {a : ι} : a ∈ (run next depth roots).map Prod.fst ↔
    ∃ n ≤ depth, Reaches next (fun b => ¬Lowest next depth roots b) roots n a := by
  refine ⟨fun ha => ?_, fun ⟨_, _, h⟩ => mem_run_of_reaches h⟩
  have hrouted : Routed next depth roots (run next depth roots) := by
    refine routed_foldl (fun met a => routed_visit _ met a (Nat.le_refl _)) _ _
      (fun e he => nomatch he) fun a ha _ => ?_
    rw [Nat.sub_self]
    exact .root ha
  obtain ⟨⟨b, levels⟩, hmem, rfl⟩ := List.mem_map.1 ha
  exact ⟨_, Nat.sub_le _ _, (hrouted _ hmem).2.mono fun _ => not_lowest_of_opened⟩

end ApiLint.BoundedSearch
