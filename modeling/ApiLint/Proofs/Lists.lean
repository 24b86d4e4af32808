import Mathlib.Data.List.Basic
import Mathlib.Data.List.Flatten
import Mathlib.Data.List.Induction
import Mathlib.Data.List.Nodup

/-!
# Lists

Where lists are cut that are put together of others (`append_eq_append_cons`,
`flatMap_eq_append_cons`), when the order in which they are put together does not matter
(`flatMap_eq_of_perm`), what is found in lists of pairs (`mem_of_lookup`,
`lookup_of_mem_of_nodup`), and when a list has nothing twice (`nodup_eraseDups`,
`nodup_of_positions`).
-/

set_option autoImplicit false

namespace ApiLint

variable {α β κ : Type}

/-! ## Cuts -/

/-- An element of two lists in a row is cut out of the second list, or else of the first. -/
theorem append_eq_append_cons {xs ys a b : List α} {p : α} (h : xs ++ ys = a ++ p :: b) :
    (∃ e, a = xs ++ e ∧ ys = e ++ p :: b) ∨ ∃ e, xs = a ++ p :: e ∧ b = e ++ ys := by
  rcases List.append_eq_append_iff.1 h with ⟨e, ha, hys⟩ | ⟨e, hxs, hb⟩
  · exact .inl ⟨e, ha, hys⟩
  · cases e with
    | nil => exact .inl ⟨[], by simpa using hxs.symm, by simpa using hb.symm⟩
    | cons q e =>
      obtain ⟨rfl, rfl⟩ := List.cons.inj hb
      exact .inr ⟨e, hxs, rfl⟩

theorem singleton_eq_append_cons {x p : α} {a b : List α} (h : [x] = a ++ p :: b) :
    a = [] ∧ p = x := by
  obtain ⟨rfl, h⟩ | ⟨a, rfl, h⟩ := List.cons_eq_append_iff.1 h
  · exact ⟨rfl, (List.cons.inj h).1.symm⟩
  · simp at h

/-- Where a list of blocks is cut inside a block. -/
theorem flatMap_eq_append_cons {f : α → List β} {xs : List α} {a b : List β} {p : β}
    (h : xs.flatMap f = a ++ p :: b) :
    ∃ ps r qs a' b', xs = ps ++ r :: qs ∧ f r = a' ++ p :: b' ∧ a = ps.flatMap f ++ a' := by
  induction xs generalizing a with
  | nil => simp at h
  | cons x xs ih =>
    rw [List.flatMap_cons] at h
    rcases append_eq_append_cons h with ⟨e, rfl, he⟩ | ⟨e, hx, -⟩
    · obtain ⟨ps, r, qs, a', b', rfl, hr, rfl⟩ := ih he
      exact ⟨x :: ps, r, qs, a', b', rfl, hr, by simp⟩
    · exact ⟨[], x, xs, a, e, rfl, hx, rfl⟩

/-- Blocks of which no two have anything can be put together in any order. -/
theorem flatMap_eq_of_perm {xs ys : List α} {f : α → List β} (h : xs.Perm ys)
    (hone : xs.Pairwise fun x y => f x = [] ∨ f y = []) : xs.flatMap f = ys.flatMap f := by
  induction h with
  | nil => rfl
  | cons x _ ih => rw [List.flatMap_cons, List.flatMap_cons, ih hone.of_cons]
  | swap x y xs =>
    have hxy : f y = [] ∨ f x = [] := (List.pairwise_cons.1 hone).1 x List.mem_cons_self
    simp only [List.flatMap_cons]
    rcases hxy with hxy | hxy <;> simp [hxy]
  | trans h _ ih ih' =>
    have hone' := (h.pairwise_iff fun {_ _} hxy => hxy.symm).1 hone
    exact (ih hone).trans (ih' hone')

theorem flatMap_nil_right (xs : List α) : (xs.flatMap fun _ => ([] : List β)) = [] :=
  List.flatMap_eq_nil_iff.2 fun _ _ => rfl

/-- Where the last element stands that has a property. -/
theorem exists_last_of_mem {p : α → Prop} [DecidablePred p] {x : α} {xs : List α} (hx : x ∈ xs)
    (hp : p x) :
    ∃ before last after, xs = before ++ last :: after ∧ p last ∧ ∀ y ∈ after, ¬ p y := by
  induction xs using List.reverseRecOn with
  | nil => cases hx
  | append_singleton xs y ih =>
    by_cases hy : p y
    · exact ⟨xs, y, [], rfl, hy, by simp⟩
    · have hmem : x ∈ xs := by
        rcases List.mem_append.1 hx with hx | hx
        · exact hx
        · exact absurd (List.mem_singleton.1 hx ▸ hp) hy
      obtain ⟨before, last, after, rfl, hlast, hafter⟩ := ih hmem
      refine ⟨before, last, after ++ [y], by simp, hlast, ?_⟩
      intro z hz
      rcases List.mem_append.1 hz with hz | hz
      · exact hafter z hz
      · exact List.mem_singleton.1 hz ▸ hy

/-! ## Pairs -/

theorem mem_of_lookup [BEq κ] [LawfulBEq κ] {key : κ} {value : β} {entries : List (κ × β)}
    (h : entries.lookup key = some value) : (key, value) ∈ entries := by
  obtain ⟨front, back, rfl, -⟩ := List.lookup_eq_some_iff.1 h
  simp

/-- Where keys are different, the others are different from each one. -/
theorem ne_of_nodup_keys {key : κ} {value : β} {front back : List (κ × β)}
    (hd : ((front ++ (key, value) :: back).map Prod.fst).Nodup) :
    (∀ p ∈ front, p.1 ≠ key) ∧ ∀ p ∈ back, p.1 ≠ key := by
  rw [List.map_append, List.map_cons, List.nodup_append, List.nodup_cons] at hd
  obtain ⟨-, ⟨hkey, -⟩, hfront⟩ := hd
  constructor
  · intro p hp
    exact hfront _ (List.mem_map_of_mem hp) _ List.mem_cons_self
  · intro p hp he
    exact hkey (List.mem_map.2 ⟨p, hp, he⟩)

theorem lookup_of_mem_of_nodup {key : String} {value : β} {entries : List (String × β)}
    (hd : (entries.map Prod.fst).Nodup) (h : (key, value) ∈ entries) :
    entries.lookup key = some value := by
  obtain ⟨front, back, rfl⟩ := List.append_of_mem h
  refine List.lookup_eq_some_iff.2 ⟨front, back, rfl, ?_⟩
  intro p hp
  simpa using ((ne_of_nodup_keys hd).1 p hp).symm

/-- Under different keys, a key finds one entry. -/
theorem map_fst_filter [DecidableEq κ] {xs : List (α × κ)} (hnodup : (xs.map Prod.snd).Nodup)
    {a : α} {k : κ} (h : (a, k) ∈ xs) :
    (xs.filter fun (_, k') => k' = k).map Prod.fst = [a] := by
  induction xs with
  | nil => cases h
  | cons x xs ih =>
    obtain ⟨a', k'⟩ := x
    obtain ⟨hx, hxs⟩ := List.nodup_cons.1 hnodup
    rcases List.mem_cons.1 h with he | h
    · obtain ⟨rfl, rfl⟩ := Prod.mk.inj he
      have hnone : (xs.filter fun (_, k') => k' = k) = [] :=
        List.filter_eq_nil_iff.2 fun y hy he =>
          hx (List.mem_map.2 ⟨y, hy, of_decide_eq_true he⟩)
      simp [hnone]
    · have hne : k' ≠ k := by
        rintro rfl
        exact hx (List.mem_map.2 ⟨_, h, rfl⟩)
      simpa [hne] using ih hxs h

/-! ## Elements that differ -/

theorem pairwise_of_length_le {r : α → α → Prop} {xs : List α} (h : xs.length ≤ 1) :
    xs.Pairwise r := by
  match xs, h with
  | [], _ => exact .nil
  | [x], _ => exact List.pairwise_singleton r x

theorem nodup_eraseDups [DecidableEq α] (xs : List α) : xs.eraseDups.Nodup := by
  match xs with
  | [] => exact .nil
  | x :: xs =>
    rw [List.eraseDups_cons, List.nodup_cons]
    refine ⟨?_, nodup_eraseDups _⟩
    simp
termination_by xs.length
decreasing_by exact Nat.lt_succ_of_le (List.length_filter_le ..)

/-- Numbers are different if they are positions. -/
theorem nodup_of_positions {xs : Array α} {f : α → β} (index : β → Nat)
    (h : ∀ i x, xs[i]? = some x → index (f x) = i) : (xs.toList.map f).Nodup := by
  have hrange : (xs.toList.map f).map index = List.range xs.size := by
    refine List.ext_getElem? fun i => ?_
    by_cases hi : i < xs.size
    · simp [hi, h i xs[i] (Array.getElem?_eq_getElem hi)]
    · simp [hi]
  exact (hrange ▸ List.nodup_range).of_map index

end ApiLint
