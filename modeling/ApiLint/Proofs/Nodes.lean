import ApiLint.Document.Load
import Mathlib.Data.List.Basic

/-!
# Nodes and the nodes below them

What is read off a node, an entry, a field or an item, is smaller than the node, and repeats no key
if the node does not (`keysDistinct`). `word` and `table` write small trees down.
-/

set_option autoImplicit false

namespace ApiLint

/-! ## Sizes -/

namespace Yaml.Node

theorem size_le_of_mem_items {item : Node} {items : List Node} (h : item ∈ items) :
    item.size ≤ sizeItems items := by
  induction items with
  | nil => cases h
  | cons i items ih =>
    rw [sizeItems]
    rcases List.mem_cons.1 h with rfl | h
    · omega
    · have := ih h; omega

theorem size_le_of_mem_entries {key value : Node} {entries : List (Node × Node)}
    (h : (key, value) ∈ entries) : value.size ≤ sizeEntries entries := by
  induction entries with
  | nil => cases h
  | cons e entries ih =>
    obtain ⟨k, x⟩ := e
    rw [sizeEntries]
    rcases List.mem_cons.1 h with h | h
    · cases h; omega
    · have := ih h; omega

theorem mem_of_entry {n key value : Node} {text : String}
    (h : n.entry? text = some (key, value)) :
    ∃ entries span, n = .mapping entries span ∧ (key, value) ∈ entries := by
  cases n with
  | scalar _ _ => simp [ entry?, entries?] at h
  | sequence _ _ => simp [ entry?, entries?] at h
  | mapping entries span => exact ⟨entries, span, rfl, List.mem_of_find?_eq_some h⟩

theorem size_lt_of_entry {n key value : Node} {text : String}
    (h : n.entry? text = some (key, value)) : value.size < n.size := by
  obtain ⟨entries, span, rfl, hm⟩ := mem_of_entry h
  rw [size]
  have := size_le_of_mem_entries hm
  omega

theorem entry_of_get {n value : Node} {text : String} (h : n.get? text = some value) :
    ∃ key, n.entry? text = some (key, value) := by
  obtain ⟨⟨key, x⟩, he, rfl⟩ := Option.map_eq_some_iff.1 h
  exact ⟨key, he⟩

theorem size_lt_of_get {n value : Node} {text : String} (h : n.get? text = some value) :
    value.size < n.size :=
  let ⟨_, he⟩ := entry_of_get h
  size_lt_of_entry he

theorem size_lt_of_mem_fields {n key value : Node} {text : String}
    (h : (text, key, value) ∈ n.fields) : value.size < n.size := by
  unfold fields at h
  obtain ⟨⟨k, x⟩, hm, he⟩ := List.mem_map.1 h
  cases he
  cases n with
  | scalar _ _ => simp [entries?] at hm
  | sequence _ _ => simp [entries?] at hm
  | mapping entries span =>
    rw [size]
    have : x.size ≤ sizeEntries entries := size_le_of_mem_entries hm
    exact Nat.lt_succ_of_le this

theorem size_lt_of_mem_itemsAt {n item : Node} {text : String}
    (h : item ∈ (n.itemsAt? text).getD []) : item.size < n.size := by
  unfold itemsAt? at h
  cases hg : n.get? text with
  | none => simp [hg] at h
  | some m =>
    have hlt := size_lt_of_get hg
    cases m with
    | scalar _ _ => simp [hg, items?] at h
    | mapping _ _ => simp [hg, items?] at h
    | sequence items span =>
      simp only [hg, Option.bind_some, items?, Option.getD_some] at h
      have := size_le_of_mem_items h
      rw [size] at hlt
      omega

/-! ## Repeated keys -/

mutual

/-- No mapping of a tree has two keys with one text. -/
def keysDistinct : Node → Bool
  | scalar _ _ => true
  | sequence items _ => itemsDistinct items
  | mapping entries _ =>
    decide (entries.map fun e => e.1.keyText).Nodup && entriesDistinct entries

def itemsDistinct : List Node → Bool
  | [] => true
  | item :: rest => keysDistinct item && itemsDistinct rest

def entriesDistinct : List (Node × Node) → Bool
  | [] => true
  | (_, value) :: rest => keysDistinct value && entriesDistinct rest

end

theorem keysDistinct_of_mem_items {item : Node} {items : List Node}
    (hd : itemsDistinct items = true) (h : item ∈ items) : item.keysDistinct = true := by
  induction items with
  | nil => cases h
  | cons i items ih =>
    rw [itemsDistinct, Bool.and_eq_true] at hd
    rcases List.mem_cons.1 h with rfl | h
    · exact hd.1
    · exact ih hd.2 h

theorem keysDistinct_of_mem_entries {key value : Node} {entries : List (Node × Node)}
    (hd : entriesDistinct entries = true) (h : (key, value) ∈ entries) :
    value.keysDistinct = true := by
  induction entries with
  | nil => cases h
  | cons e entries ih =>
    obtain ⟨k, x⟩ := e
    rw [entriesDistinct, Bool.and_eq_true] at hd
    rcases List.mem_cons.1 h with h | h
    · cases h
      exact hd.1
    · exact ih hd.2 h

section
variable {n key value : Node} {text : String} (hd : n.keysDistinct = true)
include hd

theorem keysDistinct_of_entry (h : n.entry? text = some (key, value)) :
    value.keysDistinct = true := by
  obtain ⟨entries, span, rfl, hm⟩ := mem_of_entry h
  rw [keysDistinct, Bool.and_eq_true] at hd
  exact keysDistinct_of_mem_entries hd.2 hm

theorem keysDistinct_of_get (h : n.get? text = some value) : value.keysDistinct = true :=
  let ⟨_, he⟩ := entry_of_get h
  keysDistinct_of_entry hd he

theorem keysDistinct_of_mem_fields (h : (text, key, value) ∈ n.fields) :
    value.keysDistinct = true := by
  unfold fields at h
  obtain ⟨⟨k, x⟩, hm, he⟩ := List.mem_map.1 h
  cases he
  cases n with
  | scalar _ _ => simp [entries?] at hm
  | sequence _ _ => simp [entries?] at hm
  | mapping entries span =>
    rw [keysDistinct, Bool.and_eq_true] at hd
    exact keysDistinct_of_mem_entries hd.2 hm

theorem keysDistinct_of_mem_itemsAt (h : value ∈ (n.itemsAt? text).getD []) :
    value.keysDistinct = true := by
  unfold itemsAt? at h
  cases hg : n.get? text with
  | none => simp [hg] at h
  | some m =>
    have hm := keysDistinct_of_get hd hg
    cases m with
    | scalar _ _ => simp [hg, items?] at h
    | mapping _ _ => simp [hg, items?] at h
    | sequence items span =>
      simp only [hg, Option.bind_some, items?, Option.getD_some] at h
      rw [keysDistinct] at hm
      exact keysDistinct_of_mem_items hm h

/-- The fields of a node have different names. -/
theorem fields_nodup : (n.fields.map Prod.fst).Nodup := by
  unfold fields
  rw [List.map_map]
  cases n with
  | scalar _ _ => exact List.nodup_nil
  | sequence _ _ => exact List.nodup_nil
  | mapping entries span =>
    rw [keysDistinct, Bool.and_eq_true] at hd
    exact of_decide_eq_true hd.1

end

/-! ## Small trees -/

/-- A text on a line. -/
def word (text : String) (line : Nat) : Node :=
  scalar (.text text) ⟨⟨line, 1⟩, ⟨line, 1 + text.length⟩⟩

/-- A mapping whose first key stands on a line, and each other on the next. -/
def table (line : Nat) (entries : List (String × Node)) : Node :=
  mapping (entries.zipIdx.map fun ((key, value), i) => (word key (line + i), value))
    ⟨⟨line, 1⟩, ⟨line, 1⟩⟩

/-- A reference on a line. -/
def pointTo (line : Nat) (text : String) : Node := table line [("$ref", word text line)]

end Yaml.Node

end ApiLint
