import ApiLint.Lint.Report
import Mathlib.Data.List.Basic

/-!
# Reports and what is attached to objects

A report lists findings by their keys (`Finding.sortKey`). Reports of the same findings list the
same keys, in whatever order the findings came (`LintReport.sortKeys_eq`): the order of keys is a
linear one, so findings that may change places have the same key.

The index of a report leads from each object to exactly the findings attached to it, in their order
(`LintReport.findingsFor_ofFindings`), and holds each position once (`LintReport.attached_perm`).
-/

set_option autoImplicit false

namespace ApiLint

/-! ## The order of findings -/

namespace Finding

section

variable {α : Type} [Ord α] [Std.LawfulEqOrd α] {x y z : α} {p q r : Bool}

theorem decides_iff : decides (compare x y) p = true ↔ compare x y = .lt ∨ x = y ∧ p = true := by
  rw [← Std.compare_eq_iff_eq (a := x)]
  cases compare x y <;> simp [decides]

variable [Std.TransOrd α]

theorem decides_total (h : x = y → (p || q) = true) :
    (decides (compare x y) p || decides (compare y x) q) = true := by
  rw [Bool.or_eq_true, decides_iff, decides_iff]
  cases hxy : compare x y with
  | lt => exact .inl (.inl rfl)
  | gt => exact .inr (.inl (Std.OrientedCmp.lt_of_gt hxy))
  | eq =>
    obtain rfl := Std.compare_eq_iff_eq.1 hxy
    rcases Bool.or_eq_true_iff.1 (h rfl) with hp | hq
    · exact .inl (.inr ⟨rfl, hp⟩)
    · exact .inr (.inr ⟨rfl, hq⟩)

theorem decides_trans (hxy : decides (compare x y) p = true) (hyz : decides (compare y z) q = true)
    (h : p = true → q = true → r = true) : decides (compare x z) r = true := by
  rw [decides_iff] at *
  rcases hxy with hxy | ⟨rfl, hp⟩
  · rcases hyz with hyz | ⟨rfl, -⟩
    · exact .inl (Std.TransCmp.lt_trans hxy hyz)
    · exact .inl hxy
  · rcases hyz with hyz | ⟨rfl, hq⟩
    · exact .inl hyz
    · exact .inr ⟨rfl, h hp hq⟩

theorem decides_antisymm (hxy : decides (compare x y) p = true)
    (hyx : decides (compare y x) q = true) : x = y ∧ p = true ∧ q = true := by
  rw [decides_iff] at *
  rcases hxy with hxy | ⟨rfl, hp⟩
  · rcases hyx with hyx | ⟨rfl, -⟩
    · rw [Std.OrientedCmp.gt_of_lt hxy] at hyx
      cases hyx
    · exact absurd hxy (by simp)
  · rcases hyx with hyx | ⟨-, hq⟩
    · exact absurd hyx (by simp)
    · exact ⟨rfl, hp, hq⟩

end

/-- What findings are listed by: rule, path, start line, start column and message. -/
def sortKey (f : Finding) : String × String × Nat × Nat × String :=
  (f.ruleId, f.path, f.start.line, f.start.column, f.message)

/-- One key is not behind another one. -/
def keyLe (k l : String × String × Nat × Nat × String) : Bool :=
  decides (compare k.1 l.1) <|
  decides (compare k.2.1 l.2.1) <|
  decides (compare k.2.2.1 l.2.2.1) <|
  decides (compare k.2.2.2.1 l.2.2.2.1) <|
  decides (compare k.2.2.2.2 l.2.2.2.2) true

theorem le_eq_keyLe (a b : Finding) : a.le b = keyLe a.sortKey b.sortKey := rfl

theorem keyLe_total (k l : String × String × Nat × Nat × String) :
    (keyLe k l || keyLe l k) = true :=
  decides_total fun _ => decides_total fun _ => decides_total fun _ => decides_total fun _ =>
    decides_total fun _ => rfl

theorem keyLe_trans {k l m : String × String × Nat × Nat × String} (hkl : keyLe k l = true)
    (hlm : keyLe l m = true) : keyLe k m = true :=
  decides_trans hkl hlm fun h h' => decides_trans h h' fun h h' => decides_trans h h' fun h h' =>
    decides_trans h h' fun h h' => decides_trans h h' fun _ _ => rfl

theorem keyLe_antisymm {k l : String × String × Nat × Nat × String} (hkl : keyLe k l = true)
    (hlk : keyLe l k = true) : k = l := by
  obtain ⟨h1, hkl, hlk⟩ := decides_antisymm hkl hlk
  obtain ⟨h2, hkl, hlk⟩ := decides_antisymm hkl hlk
  obtain ⟨h3, hkl, hlk⟩ := decides_antisymm hkl hlk
  obtain ⟨h4, hkl, hlk⟩ := decides_antisymm hkl hlk
  obtain ⟨h5, -⟩ := decides_antisymm hkl hlk
  exact Prod.ext h1 (Prod.ext h2 (Prod.ext h3 (Prod.ext h4 h5)))

/-- Findings in the order of a report. -/
theorem pairwise_mergeSort (findings : List Finding) :
    ((findings.mergeSort le).map sortKey).Pairwise fun k l => keyLe k l = true := by
  rw [List.pairwise_map]
  have htrans : ∀ a b c : Finding, a.le b = true → b.le c = true → a.le c = true := by
    intro a b c hab hbc
    rw [le_eq_keyLe] at *
    exact keyLe_trans hab hbc
  have htotal : ∀ a b : Finding, (a.le b || b.le a) = true := by
    intro a b
    rw [le_eq_keyLe, le_eq_keyLe]
    exact keyLe_total a.sortKey b.sortKey
  exact List.pairwise_mergeSort htrans htotal findings

end Finding

namespace LintReport

open Finding (sortKey)

theorem findings_perm (findings : List Finding) (rulesRun : Nat) :
    (ofFindings findings rulesRun).findings.Perm findings :=
  List.mergeSort_perm findings Finding.le

/-- **The same keys are listed**, in whatever order the findings came. -/
theorem sortKeys_eq {findings findings' : List Finding} (n n' : Nat)
    (h : (findings.map sortKey).Perm (findings'.map sortKey)) :
    (ofFindings findings n).findings.map sortKey =
      (ofFindings findings' n').findings.map sortKey := by
  refine List.Perm.eq_of_pairwise (fun _ _ _ _ => Finding.keyLe_antisymm)
    (Finding.pairwise_mergeSort _) (Finding.pairwise_mergeSort _) ?_
  exact ((findings_perm findings n).map _).trans (h.trans ((findings_perm findings' n').map _).symm)

/-! ## The index -/

theorem lookup_attach (index : List (Target × List Nat)) (target other : Target) (i : Nat) :
    ((attach index target i).lookup other).getD [] =
      (index.lookup other).getD [] ++ if other = target then [i] else [] := by
  induction index with
  | nil =>
    rw [attach, List.lookup_cons]
    by_cases h : other = target <;> simp [h, beq_eq_false_iff_ne.2]
  | cons entry index ih =>
    obtain ⟨t, positions⟩ := entry
    rw [attach]
    by_cases ht : t = target
    · rw [if_pos ht, List.lookup_cons, List.lookup_cons]
      subst ht
      by_cases h : other = t
      · simp [h]
      · simp [h, beq_eq_false_iff_ne.2 h]
    · rw [if_neg ht, List.lookup_cons, List.lookup_cons]
      by_cases h : other = t
      · subst h
        simp [ht]
      · rw [beq_eq_false_iff_ne.2 h]
        exact ih

theorem attach_perm (index : List (Target × List Nat)) (target : Target) (i : Nat) :
    ((attach index target i).flatMap (·.2)).Perm (index.flatMap (·.2) ++ [i]) := by
  induction index with
  | nil => exact .refl _
  | cons entry index ih =>
    obtain ⟨t, positions⟩ := entry
    rw [attach]
    split
    · rw [List.flatMap_cons, List.flatMap_cons, List.append_assoc, List.append_assoc]
      exact (List.perm_append_comm.append_left positions)
    · rw [List.flatMap_cons, List.flatMap_cons, List.append_assoc]
      exact ih.append_left positions

/-- The index of findings with their positions, added to another one. -/
def index (found : List (Finding × Nat)) (before : List (Target × List Nat)) :
    List (Target × List Nat) :=
  found.foldl (fun index (f, i) => attach index f.target i) before

theorem lookup_index (found : List (Finding × Nat)) (before : List (Target × List Nat))
    (target : Target) :
    ((index found before).lookup target).getD [] = (before.lookup target).getD [] ++
      (found.filter fun x => x.1.target = target).map (·.2) := by
  induction found generalizing before with
  | nil => simp [index]
  | cons x found ih =>
    rw [index, List.foldl_cons, ← index, ih, lookup_attach, List.append_assoc, List.filter_cons]
    by_cases h : x.1.target = target
    · simp [h]
    · simp [h, Ne.symm h]

theorem index_perm (found : List (Finding × Nat)) (before : List (Target × List Nat)) :
    ((index found before).flatMap (·.2)).Perm (before.flatMap (·.2) ++ found.map (·.2)) := by
  induction found generalizing before with
  | nil => simp [index]
  | cons x found ih =>
    rw [index, List.foldl_cons, ← index, List.map_cons]
    refine (ih _).trans (((attach_perm before x.1.target x.2).append_right _).trans ?_)
    rw [List.append_assoc, List.singleton_append]

theorem filterMap_positions (findings : List Finding) (p : Finding → Bool) :
    ((findings.zipIdx.filter fun x => p x.1).map (·.2)).filterMap (findings[·]?) =
      findings.filter p := by
  have hfound : ∀ x ∈ findings.zipIdx.filter fun x => p x.1, findings[x.2]? = some x.1 :=
    fun x hx => List.mem_zipIdx_iff_getElem?.1 (List.mem_of_mem_filter hx)
  rw [List.filterMap_map]
  calc (findings.zipIdx.filter fun x => p x.1).filterMap (fun x => findings[x.2]?)
      = (findings.zipIdx.filter fun x => p x.1).filterMap (fun x => some x.1) :=
        List.filterMap_congr hfound
    _ = (findings.zipIdx.map Prod.fst).filter p := by
        rw [List.filter_map, ← List.filterMap_eq_map]
        rfl
    _ = findings.filter p := by rw [List.zipIdx_map_fst]

/-- **The findings attached to an object** are those about it. -/
theorem findingsFor_ofFindings (findings : List Finding) (rulesRun : Nat) (target : Target) :
    (ofFindings findings rulesRun).findingsFor target =
      (ofFindings findings rulesRun).findings.filter fun f => f.target = target := by
  have hlookup := lookup_index (findings.mergeSort Finding.le).zipIdx [] target
  show (((index (findings.mergeSort Finding.le).zipIdx []).lookup target).getD []).filterMap
    ((findings.mergeSort Finding.le)[·]?) = _
  rw [hlookup, List.lookup_nil, Option.getD_none, List.nil_append]
  exact filterMap_positions (findings.mergeSort Finding.le) fun f => f.target = target

/-- **Each finding is attached once.** -/
theorem attached_perm (findings : List Finding) (rulesRun : Nat) :
    ((ofFindings findings rulesRun).attached.flatMap (·.2)).Perm
      (List.range (ofFindings findings rulesRun).findings.length) := by
  refine (index_perm (findings.mergeSort Finding.le).zipIdx []).trans ?_
  rw [List.zipIdx_map_snd, List.range_eq_range']
  exact .refl _

end LintReport

end ApiLint
