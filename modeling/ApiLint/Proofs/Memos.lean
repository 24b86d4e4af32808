import ApiLint.Proofs.Lists
import Mathlib.Data.Finset.Card

/-!
# Lists that remember results

A list of pairs remembers a result for each key that has been asked for (`Remembers`): a result that
is found is right (`Remembers.right_of_lookup`), and one that is not found can be added
(`Remembers.miss`). The list has as many entries as there are different keys
(`Remembers.length_eq`).
-/

set_option autoImplicit false

namespace ApiLint

variable {κ β : Type} {Right : κ → β → Prop} {met : List κ} {entries : List (κ × β)} {key : κ}
  {result : β}

/-- The list has one entry for each key met, with a result that is right for it. -/
structure Remembers (Right : κ → β → Prop) (met : List κ) (entries : List (κ × β)) : Prop where
  right : ∀ entry ∈ entries, Right entry.1 entry.2
  keys : ∀ key, key ∈ entries.map (·.1) ↔ key ∈ met
  nodup : (entries.map (·.1)).Nodup

namespace Remembers

theorem nil : Remembers Right [] [] where
  right _ h := nomatch h
  keys _ := .rfl
  nodup := List.nodup_nil

theorem length_eq [DecidableEq κ] (h : Remembers Right met entries) :
    entries.length = met.toFinset.card := by
  have hkeys : (entries.map (·.1)).toFinset = met.toFinset := by
    ext key
    rw [List.mem_toFinset, List.mem_toFinset, h.keys]
  rw [← hkeys, List.toFinset_card_of_nodup h.nodup, List.length_map]

variable [BEq κ] [LawfulBEq κ]

theorem right_of_lookup (h : Remembers Right met entries)
    (hlookup : entries.lookup key = some result) : Right key result :=
  h.right (key, result) (mem_of_lookup hlookup)

/-- A key that is found has been met before. -/
theorem hit (h : Remembers Right met entries) (hlookup : entries.lookup key = some result) :
    Remembers Right (met ++ [key]) entries where
  right := h.right
  keys other := by
    have hmet : key ∈ met := (h.keys key).1 (List.mem_map_of_mem (mem_of_lookup hlookup))
    simp only [h.keys, List.mem_append, List.mem_singleton]
    constructor
    · exact .inl
    · rintro (hother | rfl)
      · exact hother
      · exact hmet
  nodup := h.nodup

/-- A key that is not found is new. -/
theorem miss (h : Remembers Right met entries) (hlookup : entries.lookup key = none)
    (hright : Right key result) : Remembers Right (met ++ [key]) ((key, result) :: entries) where
  right := List.forall_mem_cons.2 ⟨hright, h.right⟩
  keys other := by
    rw [List.map_cons, List.mem_cons, h.keys, List.mem_append, List.mem_singleton, or_comm]
  nodup := by
    refine List.nodup_cons.2 ⟨fun hmem => ?_, h.nodup⟩
    obtain ⟨entry, hentry, rfl⟩ := List.mem_map.1 hmem
    have hne := List.lookup_eq_none_iff.1 hlookup entry hentry
    simp at hne

end Remembers

end ApiLint
