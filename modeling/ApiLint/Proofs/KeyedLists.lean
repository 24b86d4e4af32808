import ApiLint.Proofs.Lists
import ApiLint.Text.Keyed
import Mathlib.Data.String.Basic

/-!
# Lists ordered by key

Writing keeps a list in the order of its keys (`Keyed.Sorted`), and such lists are told by what is
found in them (`Keyed.Sorted.ext`). Of pairs that are written in turn, the last one with a key is
found under it (`Keyed.find?_ofList_of_last`).
-/

set_option autoImplicit false

namespace ApiLint.Keyed

variable {α : Type} {xs ys : List (String × α)} {k : String} {v : α}

/-- The keys ascend. -/
def Sorted (xs : List (String × α)) : Prop := xs.Pairwise fun p q => p.1 < q.1

theorem mem_of_find? (h : find? k xs = some v) : (k, v) ∈ xs := by
  induction xs with
  | nil => cases h
  | cons p xs ih =>
    unfold find? at h
    split at h
    · rename_i hk
      obtain rfl := Option.some.inj h
      exact hk ▸ List.mem_cons_self
    · exact .tail _ (ih h)

theorem mem_insert {p : String × α} (h : p ∈ insert k v xs) : p = (k, v) ∨ p ∈ xs := by
  induction xs with
  | nil => exact .inl (List.mem_singleton.1 h)
  | cons q xs ih =>
    unfold insert at h
    split at h
    · exact (List.mem_cons.1 h).imp_right (.tail _)
    · split at h
      · exact List.mem_cons.1 h
      · rcases List.mem_cons.1 h with rfl | h
        · exact .inr List.mem_cons_self
        · exact (ih h).imp_right (.tail _)

/-! ## Writing pairs in turn -/

theorem ofList_concat (pairs : List (String × α)) (p : String × α) :
    ofList (pairs ++ [p]) = insert p.1 p.2 (ofList pairs) := by
  simp [ofList]

/-- Of the pairs with a key the last stays. -/
theorem find?_ofList_of_last (hys : ∀ p ∈ ys, p.1 ≠ k) :
    find? k (ofList (xs ++ (k, v) :: ys)) = some v := by
  induction ys using List.reverseRecOn with
  | nil => simp [ofList_concat]
  | append_singleton ys p ih =>
    have hp : p.1 ≠ k := hys p (by simp)
    have hlast := ih fun q hq => hys q (List.mem_append_left _ hq)
    rw [← List.cons_append, ← List.append_assoc, ofList_concat, find?_insert, if_neg hp, hlast]

theorem find?_ofList_of_mem {pairs : List (String × α)} (hd : (pairs.map Prod.fst).Nodup)
    (h : (k, v) ∈ pairs) : find? k (ofList pairs) = some v := by
  obtain ⟨front, back, rfl⟩ := List.append_of_mem h
  exact find?_ofList_of_last (ne_of_nodup_keys hd).2

theorem isSome_find?_ofList {pairs : List (String × α)} :
    (find? k (ofList pairs)).isSome = true ↔ ∃ p ∈ pairs, p.1 = k := by
  induction pairs using List.reverseRecOn with
  | nil => simp [ofList, find?]
  | append_singleton pairs p ih =>
    rw [ofList_concat, find?_insert]
    by_cases hp : p.1 = k
    · simp [hp]
    · simp [hp, ih]

/-! ## Order -/

namespace Sorted

theorem nil : Sorted ([] : List (String × α)) := List.Pairwise.nil

theorem insert (h : Sorted xs) (k : String) (v : α) : Sorted (insert k v xs) := by
  induction xs with
  | nil => exact List.pairwise_singleton ..
  | cons p xs ih =>
    obtain ⟨hp, hxs⟩ := List.pairwise_cons.1 h
    unfold Keyed.insert
    split
    · rename_i hk
      exact List.pairwise_cons.2 ⟨fun q hq => hk ▸ hp q hq, hxs⟩
    · rename_i hk
      split
      · rename_i hlt
        refine List.pairwise_cons.2 ⟨fun q hq => ?_, h⟩
        rcases List.mem_cons.1 hq with rfl | hq
        · exact hlt
        · exact lt_trans hlt (hp q hq)
      · rename_i hle
        refine List.pairwise_cons.2 ⟨fun q hq => ?_, ih hxs⟩
        rcases mem_insert hq with rfl | hq
        · exact lt_of_le_of_ne (not_lt.1 hle) hk
        · exact hp q hq

theorem ofList (pairs : List (String × α)) : Sorted (ofList pairs) := by
  induction pairs using List.reverseRecOn with
  | nil => exact nil
  | append_singleton pairs p ih =>
    rw [ofList_concat]
    exact ih.insert p.1 p.2

theorem find?_eq_some (h : Sorted xs) : find? k xs = some v ↔ (k, v) ∈ xs := by
  refine ⟨mem_of_find?, fun hmem => ?_⟩
  induction xs with
  | nil => cases hmem
  | cons p xs ih =>
    obtain ⟨hp, hxs⟩ := List.pairwise_cons.1 h
    unfold find?
    rcases List.mem_cons.1 hmem with rfl | hmem
    · simp
    · rw [if_neg (hp _ hmem).ne]
      exact ih hxs hmem

/-- Sorted lists are told by what is found in them. -/
theorem ext (hx : Sorted xs) (hy : Sorted ys) (h : ∀ k, find? k xs = find? k ys) : xs = ys := by
  have hnodup : ∀ {zs : List (String × α)}, Sorted zs → zs.Nodup := fun hz =>
    hz.imp fun hlt he => absurd (he ▸ hlt) (lt_irrefl _)
  have hperm : xs.Perm ys := (List.perm_ext_iff_of_nodup (hnodup hx) (hnodup hy)).2 fun p => by
    rw [← hx.find?_eq_some, ← hy.find?_eq_some, h]
  exact hperm.eq_of_pairwise (fun p q _ _ hpq hqp => absurd hqp hpq.asymm) hx hy

end Sorted

end ApiLint.Keyed
