import ApiLint.Proofs.Occurrences
import ApiLint.Proofs.PlainReading
import ApiLint.Proofs.Phrases
import ApiLint.Proofs.Verdicts

/-!
# Nulls in version 3.0

Version 3.0 has no type for null, so violations by null are taken back where null is accepted. The
validator asks whether the schema itself is nullable, or the properties at the top of the value
(`Document.acceptsNull`), and not about the schema that refuses the null. `Document.nulls_iff` says
what this comes to for plain schemas: when a value is accepted, and when that agrees with what the
schemas say, each about the nulls that it applies to (`Json.Conforms`). It does not agree for a null
below a schema that is nullable, nor for one that an item takes
(`Document.exists_null_misjudged`).
-/

set_option autoImplicit false

namespace ApiLint

open Yaml (Node)
open Json (Mismatch Conforms)

namespace Yaml.Node

/-- An entry under a text is a member. -/
theorem isSome_find?_membersAt {depth : Nat} {entries : List (Node × Node)} {key : String}
    {members : List (String × Json)}
    (h : (∃ e ∈ entries, e.1.str? = some key) ∨ (Keyed.find? key members).isSome = true) :
    (Keyed.find? key (membersAt depth entries members)).isSome = true := by
  induction entries generalizing members with
  | nil => exact h.resolve_left (by simp)
  | cons e entries ih =>
    obtain ⟨k, value⟩ := e
    have hinsert : ∀ name, (k.str? = some key → name = key) →
        (Keyed.find? key (membersAt depth entries
          (Keyed.insert name (toJsonAt depth value) members))).isSome = true := by
      intro name hname
      refine ih (or_iff_not_imp_left.2 fun hentries => ?_)
      rw [Keyed.find?_insert]
      split
      · rfl
      · rename_i hne
        refine h.resolve_left ?_
        rintro ⟨e, he, hkey⟩
        rcases List.mem_cons.1 he with rfl | he
        · exact hne (hname hkey)
        · exact hentries ⟨e, he, hkey⟩
    cases k with
    | scalar v span =>
      refine hinsert (scalarKey v) fun hkey => ?_
      cases v with
      | text s => exact Option.some.inj hkey
      | _ => cases hkey
    | sequence items span => exact hinsert _ nofun
    | mapping inner span => exact hinsert _ nofun

theorem isSome_find?_of_get? {n : Node} {key : String} {members : List (String × Json)}
    (hjson : n.toJson = .obj members) (h : n.get? key ≠ none) :
    (Keyed.find? key members).isSome = true := by
  cases n with
  | mapping entries span =>
    obtain rfl : membersAt 1 entries [] = members := Json.obj.inj hjson
    refine isSome_find?_membersAt (.inl ?_)
    obtain ⟨w, hw⟩ := Option.ne_none_iff_exists'.1 h
    obtain ⟨e, he, -⟩ := Option.map_eq_some_iff.1 hw
    have hfind : entries.find? (fun e => e.1.str? == some key) = some e := he
    exact ⟨e, List.mem_of_find?_eq_some hfind, by simpa using List.find?_some hfind⟩
  | _ => exact absurd rfl h

end Yaml.Node

/-! ## Texts -/

/-- The text of a violation by null says so, and mentions no phrase. -/
theorem message_of_null (kinds : List JsonKind) :
    isAboutNull (Violation.ofKinds .null kinds).message = true ∧
      isSummary (Violation.ofKinds .null kinds).message = false := by
  have habout : ∀ rest, isAboutNull ("null is not of type" ++ rest) = true := by
    intro rest
    rw [isAboutNull, Bool.or_eq_true, mentions, mentions, Text.occursIn_iff, Text.occursIn_iff,
      String.toList_append]
    exact .inr (List.prefix_append _ _).isInfix
  have hnull : Json.null.compact = "null" := rfl
  have hsummary : isSummary Json.null.compact = false := isSummary_of_short (by decide)
  rw [Violation.isSummary_message]
  unfold Violation.ofKinds
  split
  · rename_i kind
    have hwords : "null" ++ " is not of type \"" = "null is not of type" ++ " \"" := by simp
    have hmessage : Violation.message ⟨.null, .wrongType kind⟩ =
        "null is not of type" ++ (" \"" ++ (kind.name ++ "\"")) := by
      rw [← String.append_assoc, ← String.append_assoc, ← hwords, ← hnull]
      rfl
    exact ⟨hmessage ▸ habout _, by simp [Violation.quoted, hsummary]⟩
  · have hwords : "null" ++ " is not of types " = "null is not of type" ++ "s " := by simp
    have hmessage : Violation.message ⟨.null, .wrongTypes kinds⟩ = "null is not of type" ++
        ("s " ++ ", ".intercalate (kinds.map fun k => "\"" ++ k.name ++ "\"")) := by
      rw [← String.append_assoc, ← hwords, ← hnull]
      rfl
    exact ⟨hmessage ▸ habout _, by simp [Violation.quoted, hsummary]⟩

/-! ## Verdicts -/

namespace Document

variable {d : Document}

/-- A plain schema is not composed of others. -/
theorem branches_eq_nil_of_plain {draft : Draft} (hd : d.Loaded draft) {s : Schema}
    (hs : s ∈ d.schemas) (hplain : s.node.toJson.isPlain = true) : s.branches = [] := by
  obtain ⟨members, hjson, hmembers⟩ := Json.exists_members_of_isPlain hplain
  refine hd.branches_eq_nil hs fun keyword slots hslots => ?_
  by_contra hget
  have hfind := Node.isSome_find?_of_get? hjson hget
  have hkey : keyword ∉ ["items", "nullable", "properties", "type"] := by
    simp only [Schema.combinators, List.mem_cons, Prod.mk.injEq, List.not_mem_nil, or_false]
      at hslots
    rcases hslots with ⟨rfl, -⟩ | ⟨rfl, -⟩ | ⟨rfl, -⟩ <;> decide
  rw [JsonSchema.find?_eq_none hmembers hkey] at hfind
  cases hfind

/-- A plain schema is ready, and its violations are the mismatches. -/
theorem exists_ready_of_plain {draft : Draft} (hd : d.Loaded draft)
    (hversion : d.specVersion = .openApi30) {s : Schema} (hs : s ∈ d.schemas)
    (hplain : s.node.toJson.isPlain = true) : ∃ compiled size,
      Prepared.ofSchema d (.ofDocument d) s = .ready compiled size ∧
        ∀ value v, v ∈ compiled.violations .draft4 size value ↔
          ∃ t, Mismatch s.node.toJson value t v := by
  obtain ⟨compiled, hcompiled, hmeans⟩ :=
    JsonSchema.exists_compiled_plain hplain (Node.ordered_toJson s.node)
  have hfragment : (FragmentSource.ofDocument d).fragment s.node.toJson = s.node.toJson :=
    FragmentSource.fragment_plain (by simp [FragmentSource.ofDocument, hversion]) hplain
  have hdraft : (FragmentSource.ofDocument d).version.draft = .draft4 := by
    rw [FragmentSource.ofDocument, hversion]
    rfl
  refine ⟨compiled, s.node.toJson.size, ?_, hmeans⟩
  simp only [Prepared.ofSchema, branches_eq_nil_of_plain hd hs hplain, hfragment, hdraft, hcompiled]
  rfl

/-- The violation is not reported. -/
def Forgives (d : Document) (s : Schema) (value : Node) (v : Violation) : Prop :=
  isSummary v.message = true ∨ isAboutNull v.message = true ∧ d.acceptsNull s value = true

theorem verdict_eq_valid_iff_forgives (hversion : d.specVersion = .openApi30) {s : Schema}
    {compiled : JsonSchema.Compiled} {size : Nat}
    (hready : Prepared.ofSchema d (.ofDocument d) s = .ready compiled size) (value : Node) :
    d.verdict s value = .valid ↔
      ∀ v ∈ compiled.violations .draft4 size value.toJson, d.Forgives s value v := by
  have hdraft : d.specVersion.draft = .draft4 := by rw [hversion]; rfl
  have htolerates : ∀ reason, d.toleratesNull s value reason =
      (isAboutNull reason && d.acceptsNull s value) := fun reason => by
    rw [toleratesNull, hversion]
    rfl
  rw [verdict_eq_valid_iff hready, reasons_of_ready hready, hdraft, List.filter_eq_nil_iff,
    List.forall_mem_map]
  refine forall₂_congr fun v _ => ?_
  rw [htolerates, Forgives]
  cases isSummary v.message <;> simp

/-- Violations by null are taken back all together. -/
theorem forgives_of_null {s : Schema} {value : Node} {schema t : Json} {v : Violation}
    (hmismatch : Mismatch schema value.toJson t v) (hnull : v.value = .null) :
    isSummary v.message = false ∧ isAboutNull v.message = true ∧
      (d.Forgives s value v ↔ d.acceptsNull s value = true) := by
  obtain ⟨kinds, hkinds⟩ := hmismatch.exists_kinds
  rw [hnull] at hkinds
  subst hkinds
  obtain ⟨habout, hsummary⟩ := message_of_null kinds
  exact ⟨hsummary, habout, by simp [Forgives, habout, hsummary]⟩

/-- **Nulls in version 3.0.** For a plain schema and any value: the value conforms exactly if each
mismatch is a null under a schema that is nullable. It is accepted exactly if each mismatch is left
out, and a mismatch of null is left out exactly if the value is one that may hold nulls, whatever
schema the null is under. So, where no text of another mismatch mentions a phrase or null, accepting
agrees with conforming exactly if there is another mismatch, or none at all, or the value may hold
nulls just in case that each schema with a mismatch is nullable. -/
theorem nulls_iff {root : Node} (h : ofNode root = .ok d) (hversion : d.specVersion = .openApi30)
    {s : Schema} (hs : s ∈ d.schemas) (hplain : s.node.toJson.isPlain = true) (value : Node) :
    let mismatch := Mismatch s.node.toJson value.toJson
    let conforms := Conforms s.node.toJson value.toJson
    (conforms ↔ ∀ t v, mismatch t v → v.value = .null ∧ t.IsNullable) ∧
    (d.verdict s value = .valid ↔ ∀ t v, mismatch t v → d.Forgives s value v) ∧
    (∀ t v, mismatch t v → v.value = .null →
      (d.Forgives s value v ↔ d.acceptsNull s value = true)) ∧
    ((∀ t v, mismatch t v → v.value ≠ .null →
        isSummary v.message = false ∧ isAboutNull v.message = false) →
      ((d.verdict s value = .valid ↔ conforms) ↔
        (∃ t v, mismatch t v ∧ v.value ≠ .null) ∨ (∀ t v, ¬mismatch t v) ∨
          (d.acceptsNull s value = true ↔ ∀ t v, mismatch t v → t.IsNullable))) := by
  intro mismatch conforms
  obtain ⟨-, draft, hd⟩ := loaded_of_ofNode h
  obtain ⟨compiled, size, hready, hmeans⟩ := exists_ready_of_plain hd hversion hs hplain
  have hconforms : conforms ↔ ∀ t v, mismatch t v → v.value = .null ∧ t.IsNullable :=
    Json.conforms_iff
  have hvalid : d.verdict s value = .valid ↔ ∀ t v, mismatch t v → d.Forgives s value v := by
    rw [verdict_eq_valid_iff_forgives hversion hready]
    simp only [hmeans, forall_exists_index]
    exact forall_comm
  have hnull : ∀ t v, mismatch t v → v.value = .null →
      (d.Forgives s value v ↔ d.acceptsNull s value = true) :=
    fun t v hmismatch hv => (forgives_of_null hmismatch hv).2.2
  refine ⟨hconforms, hvalid, hnull, fun hquiet => ?_⟩
  by_cases hother : ∃ t v, mismatch t v ∧ v.value ≠ .null
  · -- Neither holds: the other mismatch is reported, and no schema takes it.
    refine iff_of_true (iff_of_false (fun hv => ?_) fun hc => ?_) (.inl hother) <;>
      obtain ⟨t, v, hmismatch, hv'⟩ := hother
    · obtain ⟨hsummary, habout⟩ := hquiet t v hmismatch hv'
      have hforgives := hvalid.1 hv t v hmismatch
      simp [Forgives, hsummary, habout] at hforgives
    · exact hv' (hconforms.1 hc t v hmismatch).1
  have hnulls : ∀ t v, mismatch t v → v.value = .null := fun t v hmismatch =>
    by_contra fun hv => hother ⟨t, v, hmismatch, hv⟩
  by_cases hnone : ∀ t v, ¬mismatch t v
  · exact iff_of_true (iff_of_true (hvalid.2 fun t v hm => absurd hm (hnone t v))
      (hconforms.2 fun t v hm => absurd hm (hnone t v))) (.inr (.inl hnone))
  · have haccepts : d.verdict s value = .valid ↔ d.acceptsNull s value = true := by
      push Not at hnone
      obtain ⟨t, v, hmismatch⟩ := hnone
      refine hvalid.trans ⟨fun hall => (hnull t v hmismatch (hnulls t v hmismatch)).1
        (hall t v hmismatch), fun ha t v hmismatch => (hnull t v hmismatch
          (hnulls t v hmismatch)).2 ha⟩
    have hnullable : conforms ↔ ∀ t v, mismatch t v → t.IsNullable :=
      hconforms.trans (forall₃_congr fun t v hm => and_iff_right (hnulls t v hm))
    rw [haccepts, hnullable, or_iff_right hother, or_iff_right hnone]

/-- A schema of lists of texts, where the list or its items may be nullable. -/
def listing (outer inner : Bool) : Node :=
  let flag (b : Bool) (line : Nat) : Node := .scalar (.bool b) ⟨⟨line, 1⟩, ⟨line, 5⟩⟩
  .table 1 [("openapi", .word "3.0.3" 1), ("components", .table 2 [("schemas", .table 3 [
    ("Names", .table 4 [("type", .word "array" 4), ("nullable", flag outer 5),
      ("items", .table 6 [("type", .word "string" 6), ("nullable", flag inner 7)])])])])]

/-- A list of one null. -/
def listOfNull : Node :=
  .sequence [.scalar .null ⟨⟨1, 2⟩, ⟨1, 6⟩⟩] ⟨⟨1, 1⟩, ⟨1, 7⟩⟩

/-- What is known of the schema of lists and of the verdict on a list of one null. -/
structure ListingRun (outer inner : Bool) (verdict : Verdict) (d : Document) (s : Schema) :
    Prop where
  loaded : ofNode (listing outer inner) = .ok d
  schema : s ∈ d.schemas
  version : d.specVersion = .openApi30
  plain : s.node.toJson.isPlain = true
  kinds : s.node.toJson.askedKinds? = some [.array]
  items : ∃ part, s.node.toJson.get? "items" = some part ∧
    part.askedKinds? = some [.string] ∧ part.get? "nullable" = some (.bool inner)
  accepts : d.acceptsNull s listOfNull = outer
  verdict : d.verdict s listOfNull = verdict

theorem exists_listingRun (outer inner : Bool) (verdict : Verdict)
    (h : ((ofNode (listing outer inner)).toOption.bind fun d => d.schemas[0]?.map fun s =>
      let schema := s.node.toJson
      decide (d.specVersion = .openApi30 ∧ schema.isPlain = true ∧
        schema.askedKinds? = some [.array] ∧
        (schema.get? "items").map (fun part =>
          (part.askedKinds?, (part.get? "nullable").bind Json.bool?)) =
            some (some [.string], some inner) ∧
        d.acceptsNull s listOfNull = outer ∧ d.verdict s listOfNull = verdict)) = some true) :
    ∃ d s, ListingRun outer inner verdict d s := by
  obtain ⟨d, hd, h⟩ := ofNode_of_toOption h
  obtain ⟨s, hs, h⟩ := Option.map_eq_some_iff.1 h
  obtain ⟨hversion, hplain, hkinds, hitems, haccepts, hverdict⟩ := of_decide_eq_true h
  obtain ⟨part, hpart, hitems⟩ := Option.map_eq_some_iff.1 hitems
  obtain ⟨hasked, hflag⟩ := Prod.mk.inj hitems
  obtain ⟨flag, hget, hbool⟩ := Option.bind_eq_some_iff.1 hflag
  obtain rfl := Json.bool?_eq_some.1 hbool
  exact ⟨d, s, hd, Array.mem_of_getElem? hs, hversion, hplain, hkinds, ⟨part, hpart, hasked, hget⟩,
    haccepts, hverdict⟩

/-- A list of one null conforms if the items may be null. -/
theorem ListingRun.conforms_iff {outer inner : Bool} {verdict : Verdict} {d : Document} {s : Schema}
    (run : ListingRun outer inner verdict d s) :
    Conforms s.node.toJson listOfNull.toJson ↔ inner = true := by
  obtain ⟨part, hpart, hasked, hflag⟩ := run.items
  have hjson : listOfNull.toJson = .arr [.null] := rfl
  rw [hjson]
  constructor
  · intro h
    have hmismatch : Mismatch s.node.toJson (.arr [.null]) part (.ofKinds .null [.string]) :=
      .item hpart (List.mem_singleton.2 rfl) (.type hasked rfl)
    have hnullable : part.get? "nullable" = some (.bool true) :=
      (Json.conforms_iff.1 h _ _ hmismatch).2
    exact Json.bool.inj (Option.some.inj (hflag.symm.trans hnullable))
  · rintro rfl
    refine .fits (fun kinds hkinds => ?_) (fun _ _ _ _ _ _ hvalue => nomatch hvalue)
      fun part' items hpart' hitems item hitem => ?_
    · obtain rfl := Option.some.inj (run.kinds.symm.trans hkinds)
      rfl
    · obtain rfl := Option.some.inj (hpart.symm.trans hpart')
      obtain rfl := Json.arr.inj hitems
      obtain rfl := List.mem_singleton.1 hitem
      exact .null hflag

theorem nulls_iff_listOfNull : ∃ d s, ofNode (listing true true) = .ok d ∧ s ∈ d.schemas ∧
    Conforms s.node.toJson listOfNull.toJson ∧ d.verdict s listOfNull = .valid := by
  obtain ⟨d, s, run⟩ := exists_listingRun true true .valid (by decide +kernel)
  have hconforms := run.conforms_iff.2 rfl
  obtain ⟨hiff, hvalid, hnull, -⟩ :=
    nulls_iff run.loaded run.version run.schema run.plain listOfNull
  refine ⟨d, s, run.loaded, run.schema, hconforms, hvalid.2 fun t v hmismatch => ?_⟩
  exact (hnull t v hmismatch (hiff.1 hconforms t v hmismatch).1).2 run.accepts

/-- Where the list is nullable and its items are not, a list of one null is accepted although it
does not conform; where the items are and the list is not, it conforms and is not accepted. -/
theorem exists_null_misjudged :
    (∃ d s, ofNode (listing true false) = .ok d ∧ s ∈ d.schemas ∧ d.specVersion = .openApi30 ∧
      s.node.toJson.isPlain = true ∧ d.verdict s listOfNull = .valid ∧
      ¬Conforms s.node.toJson listOfNull.toJson) ∧
    ∃ d s, ofNode (listing false true) = .ok d ∧ s ∈ d.schemas ∧ d.specVersion = .openApi30 ∧
      s.node.toJson.isPlain = true ∧
      d.verdict s listOfNull = .invalid ["null is not of type \"string\""] ∧
      Conforms s.node.toJson listOfNull.toJson := by
  obtain ⟨d, s, run⟩ := exists_listingRun true false .valid (by decide +kernel)
  obtain ⟨d', s', run'⟩ := exists_listingRun false true
    (.invalid ["null is not of type \"string\""]) (by decide +kernel)
  refine ⟨⟨d, s, run.loaded, run.schema, run.version, run.plain, run.verdict, ?_⟩,
    d', s', run'.loaded, run'.schema, run'.version, run'.plain, run'.verdict,
    run'.conforms_iff.2 rfl⟩
  rw [run.conforms_iff]
  exact nofun

end Document

end ApiLint
