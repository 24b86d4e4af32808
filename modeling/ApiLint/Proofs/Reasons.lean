import ApiLint.Proofs.Compiling
import ApiLint.Proofs.Fragments
import ApiLint.Proofs.Phrases
import ApiLint.Proofs.Verdicts

/-!
# Which violations are reported

Under version 3.1 the reasons of a verdict are the texts of the violations, but for those that
mention one of the phrases by which summaries are told (`Document.reasons_eq`). As the texts quote
values, an example can hide what is wrong with it: `Document.reported_iff` says that a violation is
reported exactly if nothing that it quotes mentions a phrase, and what this means for a type that a
schema asks for. So a text that mentions a phrase is accepted for an integer
(`Document.exists_hidden_violation`).
-/

set_option autoImplicit false

namespace ApiLint

open Yaml (Node)

/-! ## Fragments -/

namespace FragmentSource

variable {source : FragmentSource}

/-- Parts that are placed elsewhere change nothing. -/
theorem descend?_placed_of_apart {rs : List (List String)} {x : List String}
    (h : ∀ r ∈ rs, ¬r <+: x ∧ ¬x <+: r) (members : List (String × Json)) :
    (Json.obj (rs.foldl source.mirror members)).descend? x = (Json.obj members).descend? x := by
  induction rs generalizing members with
  | nil => rfl
  | cons r rs ih =>
    obtain ⟨⟨hrx, hxr⟩, hrs⟩ := List.forall_mem_cons.1 h
    rw [List.foldl_cons, ih hrs, mirror]
    cases source.root.descend? r with
    | none => rfl
    | some part => exact Json.descend?_place_of_apart _ _ hrx hxr

/-- Where the document has no member, the fragment has that of the schema. -/
theorem child?_fragment (hroot : source.root.Ordered) {schema : Json} (hschema : schema.Ordered)
    {step : String} (hstep : source.root.child? step = none) :
    (source.fragment schema).child? step = (source.sanitize schema).child? step := by
  cases hclean : source.sanitize schema with
  | obj members =>
    have hat : ∀ v : Json, v.child? step = v.descend? [step] := fun v => by
      rw [Json.descend?_cons]
      cases v.child? step <;> rfl
    rw [fragment_eq hroot hschema hclean, hat, hat]
    refine descend?_placed_of_apart (fun r hr => ?_) members
    obtain ⟨hne, hpart⟩ := resolved_mirroredSteps hroot schema r hr
    obtain ⟨first, rest, rfl⟩ := List.exists_cons_of_ne_nil hne
    have hfirst : first ≠ step := by
      rintro rfl
      rw [Json.descend?_cons, hstep] at hpart
      cases hpart
    exact ⟨fun hprefix => hfirst (List.cons_prefix_cons.1 hprefix).1,
      fun hprefix => hfirst (List.cons_prefix_cons.1 hprefix).1.symm⟩
  | _ => rw [fragment, hclean]

end FragmentSource

/-! ## Verdicts -/

namespace Document

variable {d : Document}

/-- Under version 3.1 no violation is taken back. -/
theorem toleratesNull_eq_false (hversion : d.specVersion = .openApi31) (s : Schema) (value : Node)
    (reason : String) : d.toleratesNull s value reason = false := by
  rw [toleratesNull, hversion]
  rfl

theorem reasons_eq (hversion : d.specVersion = .openApi31) {s : Schema}
    {compiled : JsonSchema.Compiled} {size : Nat}
    (hready : Prepared.ofSchema d (.ofDocument d) s = .ready compiled size) (value : Node) :
    (d.verdict s value).reasons =
      ((compiled.violations .draft202012 size value.toJson).filter fun v =>
        !v.quoted.any isSummary).map Violation.message := by
  have hdraft : d.specVersion.draft = .draft202012 := by rw [hversion]; rfl
  simp only [reasons_of_ready hready, hdraft, toleratesNull_eq_false hversion, List.filter_map,
    Function.comp_def, Violation.isSummary_message, Bool.not_false, Bool.and_true]

/-- The fragment of a schema keeps the type that the schema asks for, unless the document itself has
a member of that name. -/
theorem type_mem_fragment (hversion : d.specVersion = .openApi31) {s : Schema} {kind : JsonKind}
    (hkind : s.node.toJson.get? "type" = some (.str kind.name))
    (hroot : d.root.toJson.get? "type" = none) : ∃ members,
      (FragmentSource.ofDocument d).fragment s.node.toJson = .obj members ∧
        ("type", .str kind.name) ∈ members := by
  have hstep : d.root.toJson.child? "type" = none := by
    cases hjson : d.root.toJson with
    | obj members => rwa [hjson] at hroot
    | arr items => rfl
    | _ => rfl
  have hnode := Node.ordered_toJson s.node
  have hordered : (FragmentSource.ofDocument d).root.Ordered := Node.ordered_toJson d.root
  have hchild := FragmentSource.child?_fragment hordered hnode hstep
  cases hjson : s.node.toJson with
  | obj members =>
    rw [hjson] at hkind hchild hnode
    have hfind : Keyed.find? "type" members = some (.str kind.name) := hkind
    have hdrops : (FragmentSource.ofDocument d).dropsAt (.obj members) "type" = false := by
      have hversion' : (FragmentSource.ofDocument d).version = .openApi31 := hversion
      simp [FragmentSource.dropsAt, hfind, FragmentSource.drops, hversion']
    rw [FragmentSource.child?_sanitize hnode, hdrops, Json.child?, hfind] at hchild
    cases hfragment : (FragmentSource.ofDocument d).fragment (.obj members) with
    | obj members' =>
      rw [hfragment] at hchild
      exact ⟨members', rfl, Keyed.mem_of_find? hchild⟩
    | _ => simp [FragmentSource.fragment, FragmentSource.sanitize] at hfragment
  | _ => rw [hjson] at hkind; cases hkind

/-- A value of another type than the schema asks for has a violation that says so. -/
theorem wrongType_mem_violations (hversion : d.specVersion = .openApi31) {s : Schema}
    {compiled : JsonSchema.Compiled} {size : Nat}
    (hready : Prepared.ofSchema d (.ofDocument d) s = .ready compiled size) {kind : JsonKind}
    (hkind : s.node.toJson.get? "type" = some (.str kind.name))
    (hroot : d.root.toJson.get? "type" = none) {value : Json}
    (hvalue : kind.admits .draft202012 value = false) :
    ⟨value, .wrongType kind⟩ ∈ compiled.violations .draft202012 size value := by
  obtain ⟨members, hfragment, hmember⟩ := type_mem_fragment hversion hkind hroot
  have hdraft : (FragmentSource.ofDocument d).version.draft = .draft202012 := by
    rw [FragmentSource.ofDocument, hversion]
    rfl
  unfold Prepared.ofSchema at hready
  rw [hfragment, hdraft] at hready
  split at hready
  · cases hready
  · dsimp only at hready
    split at hready
    · rename_i hcompiled
      obtain ⟨rfl, -⟩ := Prepared.ready.inj hready
      exact JsonSchema.wrongType_mem_violations (JsonSchema.compile_of_compileChecked hcompiled)
        hmember hvalue size
    · cases hready

theorem exists_ready {s : Schema} {value : Node}
    (h : d.verdict s value = .valid ∨ ∃ reasons, d.verdict s value = .invalid reasons) :
    ∃ compiled size, Prepared.ofSchema d (.ofDocument d) s = .ready compiled size := by
  rw [verdict_eq] at h
  cases hprepared : Prepared.ofSchema d (.ofDocument d) s with
  | ready compiled size => exact ⟨compiled, size, rfl⟩
  | cyclic => simp [hprepared, Prepared.judge] at h
  | unconvertible message => simp [hprepared, Prepared.judge] at h

/-- **Which violations are reported.** Under version 3.1 these are the violations that quote nothing
that mentions a phrase; a value is accepted if there are none. In particular a value that is not of
the type that the schema asks for has a violation that says so, and it is reported exactly if the
text of the value mentions no phrase. -/
theorem reported_iff (d : Document) (hversion : d.specVersion = .openApi31) (s : Schema)
    (compiled : JsonSchema.Compiled) (size : Nat)
    (hready : Prepared.ofSchema d (.ofDocument d) s = .ready compiled size) (value : Node) :
    let violations := compiled.violations .draft202012 size value.toJson
    (d.verdict s value).reasons =
      (violations.filter fun v => !v.quoted.any isSummary).map Violation.message ∧
    (d.verdict s value = .valid ↔ ∀ v ∈ violations, ∃ text ∈ v.quoted, isSummary text = true) ∧
    ((∃ reasons, d.verdict s value = .invalid reasons) ↔
      ∃ v ∈ violations, ∀ text ∈ v.quoted, isSummary text = false) ∧
    (∀ v ∈ violations, v.message ∈ (d.verdict s value).reasons ↔
      ∀ text ∈ v.quoted, isSummary text = false) ∧
    ∀ kind : JsonKind, s.node.toJson.get? "type" = some (.str kind.name) →
      d.root.toJson.get? "type" = none → kind.admits .draft202012 value.toJson = false →
      ∃ v ∈ violations, v.value = value.toJson ∧ v.cause = .wrongType kind ∧
        (v.message ∈ (d.verdict s value).reasons ↔ isSummary value.toJson.compact = false) := by
  intro violations
  have hreasons := reasons_eq hversion hready value
  have hquotes : ∀ v : Violation, (!v.quoted.any isSummary) = true ↔
      ∀ text ∈ v.quoted, isSummary text = false := by
    simp
  have hmem : ∀ v ∈ violations, v.message ∈ (d.verdict s value).reasons ↔
      ∀ text ∈ v.quoted, isSummary text = false := by
    intro v hv
    rw [hreasons, List.mem_map, ← hquotes]
    refine ⟨fun ⟨w, hw, hmessage⟩ => ?_, fun hquoted => ⟨v, List.mem_filter.2 ⟨hv, hquoted⟩, rfl⟩⟩
    rw [← v.isSummary_message, ← hmessage, w.isSummary_message]
    exact (List.mem_filter.1 hw).2
  have hvalid : d.verdict s value = .valid ↔
      ∀ v ∈ violations, ∃ text ∈ v.quoted, isSummary text = true := by
    rw [verdict_eq_valid_iff hready, hreasons, List.map_eq_nil_iff, List.filter_eq_nil_iff]
    simp only [Bool.not_eq_true', Bool.not_eq_false, List.any_eq_true]
    rfl
  refine ⟨hreasons, hvalid, ?_, hmem, fun kind hkind hroot hvalue => ?_⟩
  · rw [exists_invalid_iff hready, Ne, hvalid]
    push Not
    simp only [Bool.not_eq_true]
  · have hv := wrongType_mem_violations hversion hready hkind hroot hvalue
    refine ⟨_, hv, rfl, rfl, (hmem _ hv).trans ?_⟩
    simp [Violation.quoted]

/-- A document with a schema for integers. -/
def counting : Node :=
  .table 1 [("openapi", .word "3.1.0" 1), ("components", .table 2 [("schemas", .table 3 [
    ("Count", .table 4 [("type", .word "integer" 4)])])])]

/-- What is known of the integer schema and of the verdict on a value. -/
structure CountingRun (value : Node) (verdict : Verdict) (d : Document) (s : Schema) : Prop where
  loaded : ofNode counting = .ok d
  schema : s ∈ d.schemas
  version : d.specVersion = .openApi31
  kind : s.node.toJson.get? "type" = some (.str JsonKind.integer.name)
  root : d.root.toJson.get? "type" = none
  verdict : d.verdict s value = verdict

theorem exists_countingRun (value : Node) (verdict : Verdict)
    (h : ((ofNode counting).toOption.bind fun d => d.schemas[0]?.map fun s =>
      (d.specVersion, (s.node.toJson.get? "type").bind Json.str?,
        (d.root.toJson.get? "type").isNone, d.verdict s value)) =
      some (.openApi31, some "integer", true, verdict)) :
    ∃ d s, CountingRun value verdict d s := by
  obtain ⟨d, hd, h⟩ := ofNode_of_toOption h
  obtain ⟨s, hs, h⟩ := Option.map_eq_some_iff.1 h
  simp only [Prod.mk.injEq, Option.isNone_iff_eq_none] at h
  obtain ⟨hversion, hkind, hroot, hverdict⟩ := h
  obtain ⟨text, hget, htext⟩ := Option.bind_eq_some_iff.1 hkind
  obtain rfl := Json.str?_eq_some.1 htext
  exact ⟨d, s, hd, Array.mem_of_getElem? hs, hversion, hget, hroot, hverdict⟩

theorem reported_iff_many : ∃ d s, ofNode counting = .ok d ∧ s ∈ d.schemas ∧
    "\"many\" is not of type \"integer\"" ∈ (d.verdict s (.word "many" 1)).reasons := by
  obtain ⟨d, s, run⟩ := exists_countingRun (.word "many" 1)
    (.invalid ["\"many\" is not of type \"integer\""]) (by decide +kernel)
  obtain ⟨compiled, size, hready⟩ := exists_ready (.inr ⟨_, run.verdict⟩)
  have hjson : (Node.word "many" 1).toJson = .str "many" := rfl
  obtain ⟨-, -, -, -, htype⟩ :=
    reported_iff d run.version s compiled size hready (.word "many" 1)
  obtain ⟨v, -, hvalue, hcause, hreported⟩ := htype .integer run.kind run.root (by rw [hjson]; rfl)
  have hmessage : v.message = "\"many\" is not of type \"integer\"" := by
    rw [Violation.message, hvalue, hcause, hjson]
    decide +kernel
  refine ⟨d, s, run.loaded, run.schema, hmessage ▸ hreported.2 ?_⟩
  rw [hjson]
  decide +kernel

/-- A text that mentions a phrase is accepted where an integer is asked for, although it violates
the schema. -/
theorem exists_hidden_violation : ∃ d s compiled size, ofNode counting = .ok d ∧ s ∈ d.schemas ∧
    d.specVersion = .openApi31 ∧
    Prepared.ofSchema d (.ofDocument d) s = .ready compiled size ∧
    ⟨.str "oneOf failed", .wrongType .integer⟩ ∈
      compiled.violations .draft202012 size (Node.word "oneOf failed" 1).toJson ∧
    d.verdict s (.word "oneOf failed" 1) = .valid := by
  obtain ⟨d, s, run⟩ := exists_countingRun (.word "oneOf failed" 1) .valid (by decide +kernel)
  obtain ⟨compiled, size, hready⟩ := exists_ready (.inl run.verdict)
  have hjson : (Node.word "oneOf failed" 1).toJson = .str "oneOf failed" := rfl
  rw [hjson]
  exact ⟨d, s, compiled, size, run.loaded, run.schema, run.version, hready,
    wrongType_mem_violations run.version hready run.kind run.root rfl, run.verdict⟩

end Document

end ApiLint
