import ApiLint.Proofs.Addresses

/-!
# Repeated keys

A mapping may hold a key twice, or two keys with one text (`1` and `"1"`). `Node.get?` stops at the
first key that is the text. The JSON value of the mapping and the marks of a schema's keywords are
written entry by entry, so there the last entry stays whose key has the text
(`Keyed.find?_ofList_of_last`). `Node.readers_of_key` says which two entries are read; they are one
if no later key has the text of the first.
-/

set_option autoImplicit false

namespace ApiLint

open Yaml (Node)

namespace Yaml.Node

theorem keyText_of_str? {n : Node} {text : String} (h : n.str? = some text) : n.keyText = text := by
  unfold str? at h
  split at h
  · exact Option.some.inj h
  · cases h

section
variable {before after : List (Node × Node)} {last : Node × Node} {span : Span} {k : String}
  (hlast : last.1.keyText = k) (hafter : ∀ e ∈ after, e.1.keyText ≠ k)
include hlast hafter

/-- The member of a key is the value of the last entry with its text. -/
theorem child?_toJson_of_last (hh : height (.mapping (before ++ last :: after) span) ≤ maxJsonDepth) :
    (toJson (.mapping (before ++ last :: after) span)).child? k = some last.2.toJson := by
  have hlt : last.2.height < height (.mapping (before ++ last :: after) span) :=
    height_lt_of_mem_entries List.mem_append_cons_self
  simp only [toJson, toJsonAt, Nat.not_lt_zero, gt_iff_lt, ↓reduceIte, membersAt_eq_ofList,
    Json.child?, List.map_append, List.map_cons, hlast]
  rw [Keyed.find?_ofList_of_last, toJsonAt_eq_toJson (by omega)]
  · rfl
  · intro p hp
    obtain ⟨e, he, rfl⟩ := List.mem_map.1 hp
    exact hafter e he

/-- The mark of a keyword is that of the last key with its text. -/
theorem keywordMark_of_last {root : Node} {d : Document} (hd : Document.ofNode root = .ok d)
    {s : Schema} (hs : s ∈ d.schemas) (hnode : s.node = .mapping (before ++ last :: after) span) :
    s.keywordMark k = last.1.mark := by
  obtain ⟨rfl, draft, hd⟩ := Document.loaded_of_ofNode hd
  rw [Schema.keywordMark, (hd.fields_of_mem_schemas hs).1, hnode]
  simp only [fields, entries?, Option.getD_some, List.map_append, List.map_cons, hlast]
  rw [Keyed.find?_ofList_of_last]
  · rfl
  · intro p hp
    simp only [List.map_map, List.mem_map] at hp
    obtain ⟨e, he, rfl⟩ := hp
    exact hafter e he

end

/-- The readers of a key. `get?` takes the first entry whose key is the text. The JSON value of the
mapping, unless it is cut off for its depth, and the marks of a schema built from it take the last
entry whose key has the text, which is that entry or a later one. -/
theorem readers_of_key {n value : Node} {k : String} (h : n.get? k = some value) :
    ∃ before key after span, n = .mapping (before ++ (key, value) :: after) span ∧
      key.str? = some k ∧ (∀ e ∈ before, e.1.str? ≠ some k) ∧
      ∃ between last rest, (key, value) :: after = between ++ last :: rest ∧
        last.1.keyText = k ∧ (∀ e ∈ rest, e.1.keyText ≠ k) ∧
        (n.height ≤ 500 → n.toJson.child? k = some last.2.toJson) ∧
        ∀ root d, Document.ofNode root = .ok d → ∀ s ∈ d.schemas, s.node = n →
          s.keywordMark k = last.1.mark := by
  obtain ⟨key, hentry⟩ := entry_of_get h
  obtain ⟨entries, span, rfl, -⟩ := mem_of_entry hentry
  obtain ⟨hkey, before, after, rfl, hbefore⟩ := List.find?_eq_some_iff_append.1 hentry
  have hkey : key.str? = some k := by simpa using hkey
  obtain ⟨between, last, rest, hcut, hlast, hrest⟩ :=
    exists_last_of_mem (p := fun e : Node × Node => e.1.keyText = k)
      (List.mem_cons_self (a := (key, value)) (l := after)) (keyText_of_str? hkey)
  refine ⟨before, key, after, span, rfl, hkey, fun e he => by simpa using hbefore e he,
    between, last, rest, hcut, hlast, hrest, ?_⟩
  rw [hcut, ← List.append_assoc]
  exact ⟨fun hh => child?_toJson_of_last hlast hrest hh,
    fun root d hd s hs hnode => keywordMark_of_last hlast hrest hd hs hnode⟩

/-- A schema with two types. -/
def twoTypes : Node := .table 5 [("type", .word "string" 5), ("type", .word "integer" 6)]

theorem readers_of_key_twoTypes : ∃ before key after span,
    twoTypes = .mapping (before ++ (key, .word "string" 5) :: after) span ∧
      ∃ between last rest, (key, .word "string" 5) :: after = between ++ last :: rest ∧
        (∀ e ∈ rest, e.1.keyText ≠ "type") ∧
        twoTypes.toJson.child? "type" = some last.2.toJson := by
  obtain ⟨before, key, after, span, hn, -, -, between, last, rest, hcut, -, hrest, hjson, -⟩ :=
    readers_of_key (show twoTypes.get? "type" = some (.word "string" 5) from rfl)
  exact ⟨before, key, after, span, hn, between, last, rest, hcut, hrest, hjson (by decide)⟩

/-- The type of the model is the first, that of the JSON value and the mark of the keyword are the
second. -/
theorem exists_readers_differ : ∃ root d s key value, Document.ofNode root = .ok d ∧
    s ∈ d.schemas ∧ s.node.height ≤ 500 ∧ s.node.entry? "type" = some (key, value) ∧
    s.types = value.texts ∧ s.node.toJson.child? "type" ≠ some value.toJson ∧
    s.keywordMark "type" ≠ key.mark := by
  have hrun : ((Document.ofNode (.table 1 [("openapi", .word "3.1.0" 1),
      ("components", .table 3 [("schemas", .table 4 [("A", twoTypes)])])])).toOption.bind fun d =>
        d.schemas[0]?.bind fun s => (s.node.entry? "type").map fun e =>
          (decide (s.node.height ≤ 500), s.types == e.2.texts, e.2.toJson.str?,
            (s.node.toJson.child? "type").bind Json.str?, s.keywordMark "type" == e.1.mark)) =
      some (true, true, some "string", some "integer", false) := by decide +kernel
  obtain ⟨d, hd, he⟩ := Document.ofNode_of_toOption hrun
  obtain ⟨s, hs, he⟩ := Option.bind_eq_some_iff.1 he
  obtain ⟨⟨key, value⟩, hentry, he⟩ := Option.map_eq_some_iff.1 he
  simp only [Prod.mk.injEq, decide_eq_true_eq, beq_iff_eq, beq_eq_false_iff_ne] at he
  obtain ⟨hheight, htypes, hfirst, hsecond, hmark⟩ := he
  refine ⟨_, d, s, key, value, hd, Array.mem_of_getElem? hs, hheight, hentry, htypes, ?_, hmark⟩
  intro hjson
  rw [hjson, Option.bind_some, hfirst] at hsecond
  exact absurd hsecond (by decide)

end Yaml.Node

end ApiLint
