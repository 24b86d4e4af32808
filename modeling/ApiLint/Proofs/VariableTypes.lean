import ApiLint.Proofs.AmbiguityLaws
import ApiLint.Proofs.CommonUrls
import ApiLint.Proofs.Documents
import ApiLint.Proofs.Reporting

/-!
# The types of variables

A variable has the type that the first parameter gives it that declares one, path items before their
operations (`Route.lookup_types`). Of a schema with several types a parameter gives the first
(`Route.declaredType?`), so two templates that differ in one segment, a variable of one and a literal
of the other, are reported exactly if the literal fits the first type of the variable
(`Check.AmbiguousPath.reports_iff_fits_first`). A literal that fits one of the later types only is
passed over (`Check.AmbiguousPath.exists_fitting_not_reported`).
-/

set_option autoImplicit false

namespace ApiLint

open Yaml (Node)

namespace Route

/-! ## Declarations -/

/-- The parameters of a path item and of its operations. -/
def declared (item : PathItem) : List ParameterId :=
  item.parameters ++ item.operations.flatMap (·.parameters)

/-- The parameter declares a variable of the path. -/
structure Declares (d : Document) (name : String) (id : ParameterId) (p : Parameter) : Prop where
  parameter : d.parameter? id = some p
  place : p.place = some "path"
  name : p.name = name

/-- The type that a parameter gives to a variable. -/
def declaredType? (d : Document) (name : String) (id : ParameterId) : Option String := do
  let p ← d.parameter? id
  if p.place = some "path" ∧ p.name = name then variableType? d p else none

theorem Declares.declaredType?_eq {d : Document} {name : String} {id : ParameterId} {p : Parameter}
    (h : Declares d name id p) : declaredType? d name id = variableType? d p := by
  rw [declaredType?, h.parameter]
  exact if_pos ⟨h.place, h.name⟩

theorem declares_of_declaredType? {d : Document} {name : String} {id : ParameterId} {type : String}
    (h : declaredType? d name id = some type) : ∃ p, Declares d name id p := by
  obtain ⟨p, hp, h⟩ := Option.bind_eq_some_iff.1 h
  obtain ⟨⟨hplace, hname⟩, -⟩ := Option.ite_none_right_eq_some.1 h
  exact ⟨p, hp, hplace, hname⟩

/-- Notes the type that a parameter declares, unless its variable has one already. -/
def noteType (d : Document) (found : Types) (id : ParameterId) : Types :=
  match d.parameter? id with
  | none => found
  | some p =>
    if p.place == some "path" && (found.lookup p.name).isNone then
      match variableType? d p with
      | some type => found ++ [(p.name, type)]
      | none => found
    else found

theorem types_eq (d : Document) (item : PathItem) :
    types d item = (declared item).foldl (noteType d) [] := rfl

theorem lookup_noteType (d : Document) (found : Types) (id : ParameterId) (name : String) :
    (noteType d found id).lookup name = (found.lookup name).or (declaredType? d name id) := by
  unfold noteType declaredType?
  cases d.parameter? id with
  | none => simp
  | some p =>
    dsimp only [Option.bind_eq_bind, Option.bind_some]
    by_cases hname : p.name = name
    · subst hname
      cases hfound : found.lookup p.name <;> by_cases hplace : p.place = some "path" <;>
        cases variableType? d p <;> simp [hfound, hplace, List.lookup_append]
    · have hother : (name == p.name) = false := beq_eq_false_iff_ne.2 (Ne.symm hname)
      simp only [hname, and_false, if_false, Option.or_none]
      split
      · cases variableType? d p <;> simp [List.lookup_append, List.lookup_cons, hother]
      · rfl

/-- **A variable has the first type declared for it.** -/
theorem lookup_types (d : Document) (item : PathItem) (name : String) :
    (types d item).lookup name = (declared item).findSome? (declaredType? d name) := by
  have hfold : ∀ (ids : List ParameterId) (found : Types),
      (ids.foldl (noteType d) found).lookup name =
        (found.lookup name).or (ids.findSome? (declaredType? d name)) := by
    intro ids
    induction ids with
    | nil => simp
    | cons id ids ih =>
      intro found
      rw [List.foldl_cons, ih, lookup_noteType, Option.or_assoc, List.findSome?_cons]
      cases declaredType? d name id <;> rfl
  rw [types_eq, hfold]
  rfl

/-- If one parameter alone declares a variable, the variable has the type it gives. -/
theorem lookup_types_of_only {d : Document} {item : PathItem} {name : String} {id : ParameterId}
    {p : Parameter} (hid : id ∈ declared item) (hp : Declares d name id p)
    (honly : ∀ id' ∈ declared item, ∀ p', Declares d name id' p' → id' = id) :
    (types d item).lookup name = variableType? d p := by
  rw [lookup_types, ← hp.declaredType?_eq]
  cases hfound : (declared item).findSome? (declaredType? d name) with
  | none => exact (List.findSome?_eq_none_iff.1 hfound id hid).symm
  | some type =>
    obtain ⟨id', hid', htype⟩ := List.exists_of_findSome?_eq_some hfound
    obtain ⟨p', hp'⟩ := declares_of_declaredType? htype
    rw [← honly id' hid' p' hp', htype]

/-! ## Templates that differ in one segment -/

/-- The templates consist of the same literals but for one segment, which is `{name}` in the first
and another literal in the second. -/
def VariesOnce (a b name literal : String) : Prop :=
  ∃ before segment after, HasSegments a (before ++ segment :: after) ∧
    HasSegments b (before ++ literal.toList :: after) ∧ IsVariable segment name.toList ∧
    (∀ other, ¬IsVariable literal.toList other) ∧
    ∀ s ∈ before ++ after, ∀ other, ¬IsVariable s other

theorem compareParts_append {aTypes bTypes : Types} {as bs : List Part}
    (h : as.length = bs.length) (as' bs' : List Part) :
    compareParts aTypes bTypes (as ++ as') (bs ++ bs') = do
      let sides ← compareParts aTypes bTypes as bs
      let others ← compareParts aTypes bTypes as' bs'
      return sides ++ others := by
  induction as generalizing bs with
  | nil =>
    cases bs with
    | nil => cases h' : compareParts aTypes bTypes as' bs' <;> simp [compareParts, h']
    | cons b bs => cases h
  | cons a as ih =>
    cases bs with
    | nil => cases h
    | cons b bs =>
      rw [List.cons_append, List.cons_append, compareParts, compareParts,
        ih (Nat.succ.inj h)]
      cases comparePart a aTypes b bTypes <;> cases compareParts aTypes bTypes as bs <;>
        cases compareParts aTypes bTypes as' bs' <;> simp

/-- Literals face themselves. -/
theorem compareParts_literals (aTypes bTypes : Types) {segments : List (List Char)}
    (h : ∀ s ∈ segments, ∀ name, ¬IsVariable s name) :
    compareParts aTypes bTypes (segments.map Part.ofChars) (segments.map Part.ofChars) =
      some [] := by
  induction segments with
  | nil => rfl
  | cons s segments ih =>
    obtain ⟨hs, hsegments⟩ := List.forall_mem_cons.1 h
    have hpart : Part.ofChars s = .literal (String.ofList s) :=
      ofChars_eq_literal_iff.2 ⟨hs, String.toList_ofList⟩
    rw [List.map_cons, compareParts, ih hsegments, hpart, comparePart, if_pos (beq_self_eq_true _)]
    rfl

/-- Such templates are ambiguous if the literal fits the type of the variable. -/
theorem VariesOnce.ambiguous_eq {a b name literal : String} (h : VariesOnce a b name literal)
    (aTypes bTypes : Types) :
    ambiguous a aTypes b bTypes = literalFits literal (aTypes.lookup name) := by
  obtain ⟨before, segment, after, ha, hb, hvariable, hliteral, hothers⟩ := h
  have hpart : Part.ofChars literal.toList = .literal literal :=
    ofChars_eq_literal_iff.2 ⟨hliteral, rfl⟩
  have hbefore := compareParts_literals aTypes bTypes
    fun s hs => hothers s (List.mem_append_left _ hs)
  have hafter := compareParts_literals aTypes bTypes
    fun s hs => hothers s (List.mem_append_right _ hs)
  rw [ambiguous, ha.parts_eq, hb.parts_eq, List.map_append, List.map_append, List.map_cons,
    List.map_cons, compareParts_append rfl, hbefore, compareParts, hafter, hvariable.ofChars, hpart,
    comparePart]
  cases literalFits literal (aTypes.lookup name) <;> rfl

end Route

namespace Check.AmbiguousPath

/-- The check reports the path items at two positions, the earlier one with the later one. -/
def Reports (c : RuleContext) (d : Document) (i j : Nat) : Prop :=
  (min i j, max i j) ∈ Route.ambiguousPairs d ∧
    ∃ f, ofPair c d (min i j) (max i j) = some f ∧ f ∈ evaluate c

variable {c : RuleContext} {d : Document} {i j : Nat} {p q : PathItem}

/-- The check reports the items that are ambiguous. -/
theorem reports_iff (hdoc : c.document = some d) (hp : d.paths[i]? = some p)
    (hq : d.paths[j]? = some q) (hne : i ≠ j) : Reports c d i j ↔ Route.collide d p q = true := by
  have hpair : (min i j, max i j) ∈ Route.ambiguousPairs d ↔ Route.collide d p q = true := by
    rw [Route.mem_ambiguousPairs]
    rcases Nat.lt_or_gt_of_ne hne with hlt | hlt
    · simp [Nat.min_eq_left hlt.le, Nat.max_eq_right hlt.le, hp, hq, hlt]
    · simp [Nat.min_eq_right hlt.le, Nat.max_eq_left hlt.le, hp, hq, hlt, Route.collide_comm d q p]
  refine ⟨fun h => hpair.1 h.1, fun h => ⟨hpair.2 h, ?_⟩⟩
  obtain ⟨-, first, second, hfirst, hsecond, -⟩ := Route.mem_ambiguousPairs.1 (hpair.2 h)
  have hfinding : ∃ f, ofPair c d (min i j) (max i j) = some f := by
    simp [ofPair, hfirst, hsecond]
  obtain ⟨f, hf⟩ := hfinding
  refine ⟨f, hf, ?_⟩
  rw [evaluate, hdoc]
  exact List.mem_filterMap.2 ⟨_, hpair.2 h, hf⟩

/-- **Of several types the first counts.** Where a variable of one path item, which one parameter
alone declares, faces a literal of another, all else being equal, the check reports the two exactly
if the literal fits the first type of the parameter's schema. -/
theorem reports_iff_fits_first (hdoc : c.document = some d) (hp : d.paths[i]? = some p)
    (hq : d.paths[j]? = some q) (hne : i ≠ j) {name literal : String}
    (hvaries : Route.VariesOnce p.template q.template name literal) {id : ParameterId}
    {x : Parameter} (hid : id ∈ Route.declared p) (hx : Route.Declares d name id x)
    (honly : ∀ id' ∈ Route.declared p, ∀ x', Route.Declares d name id' x' → id' = id)
    {slot : SchemaSlot} {s : Schema} (hslot : x.schema = some slot)
    (hs : d.slotSchema? slot = some s) {first : String} {others : List String}
    (htypes : s.types = first :: others) :
    Reports c d i j ↔ Route.literalFits literal (some first) = true := by
  have htype : Route.variableType? d x = some first := by
    simp [Route.variableType?, hslot, hs, htypes]
  rw [reports_iff hdoc hp hq hne, Route.collide, hvaries.ambiguous_eq,
    Route.lookup_types_of_only hid hx honly, htype]

/-! ## A variable of two types -/

/-- A document with a path for pets by number or name, and paths for two of them. -/
def mixed : Node :=
  .table 1 [("openapi", .word "3.1.0" 1),
    ("paths", .table 3 [
      ("/pets/42", .table 4 []),
      ("/pets/\x7bid\x7d", .table 5 [("parameters", .sequence [.table 6 [
        ("name", .word "id" 6), ("in", .word "path" 7),
        ("schema", .table 9 [
          ("type", .sequence [.word "integer" 9, .word "string" 9] ⟨⟨9, 17⟩, ⟨9, 34⟩⟩)])]]
        ⟨⟨6, 7⟩, ⟨10, 3⟩⟩)]),
      ("/pets/mine", .table 10 [])])]

/-- The variable faces a literal in the last segment. -/
theorem variesOnce_mixed {literal : String} (hslash : '/' ∉ literal.toList)
    (hbrace : literal.toList.head? ≠ some '\x7b') :
    Route.VariesOnce "/pets/\x7bid\x7d" ("/pets/" ++ literal) "id" literal := by
  refine ⟨["pets".toList], "\x7bid\x7d".toList, [], ⟨by decide, by decide⟩, ⟨?_, ?_⟩,
    ⟨by decide, by decide, by decide, by decide⟩, fun other h => ?_, ?_⟩
  · rw [String.toList_append]
    simp
  · simpa using hslash
  · rw [h.text] at hbrace
    exact hbrace rfl
  · simp only [List.append_nil, List.mem_singleton]
    rintro s rfl other h
    have hfirst := congrArg List.head? h.text
    simp at hfirst

/-- The one parameter of the document has a schema of two types. -/
theorem exists_mixed : ∃ d, Document.ofNode mixed = .ok d ∧ Route.ambiguousPairs d = [(0, 1)] ∧
    (∃ p x slot s, d.paths[1]? = some p ∧ p.template = "/pets/\x7bid\x7d" ∧
      Route.declared p = [⟨0⟩] ∧ Route.Declares d "id" ⟨0⟩ x ∧ x.schema = some slot ∧
      d.slotSchema? slot = some s ∧ s.types = ["integer", "string"]) ∧
    (∃ q, d.paths[0]? = some q ∧ q.template = "/pets/" ++ "42") ∧
    ∃ q, d.paths[2]? = some q ∧ q.template = "/pets/" ++ "mine" := by
  have hparameter : ((Document.ofNode mixed).toOption.bind fun d => do
      let x ← d.parameter? ⟨0⟩
      let s ← d.slotSchema? (← x.schema)
      return (x.place, x.name, s.types)) = some (some "path", "id", ["integer", "string"]) := by
    decide +kernel
  have hpaths : ((Document.ofNode mixed).toOption.bind fun d => do
      let p ← d.paths[1]?
      let number ← d.paths[0]?
      let mine ← d.paths[2]?
      return ([number.template, p.template, mine.template], Route.declared p,
        Route.ambiguousPairs d)) =
      some (["/pets/42", "/pets/\x7bid\x7d", "/pets/mine"], [⟨0⟩], [(0, 1)]) := by decide +kernel
  obtain ⟨d, hd, h⟩ := Document.ofNode_of_toOption hparameter
  rw [hd, Except.toOption, Option.bind_some] at hpaths
  obtain ⟨x, hx, h⟩ := Option.bind_eq_some_iff.1 h
  obtain ⟨slot, hslot, h⟩ := Option.bind_eq_some_iff.1 h
  obtain ⟨s, hs, h⟩ := Option.bind_eq_some_iff.1 h
  simp only [Option.pure_def, Option.some.injEq, Prod.mk.injEq] at h
  obtain ⟨hplace, hname, htypes⟩ := h
  obtain ⟨p, hp, h⟩ := Option.bind_eq_some_iff.1 hpaths
  obtain ⟨number, hnumber, h⟩ := Option.bind_eq_some_iff.1 h
  obtain ⟨mine, hmine, h⟩ := Option.bind_eq_some_iff.1 h
  simp only [Option.pure_def, Option.some.injEq, Prod.mk.injEq, List.cons.injEq, and_true] at h
  obtain ⟨⟨hfirst, htemplate, hlast⟩, hdeclared, hpairs⟩ := h
  exact ⟨d, hd, hpairs,
    ⟨p, x, slot, s, hp, htemplate, hdeclared, ⟨hx, hplace, hname⟩, hslot, hs, htypes⟩,
    ⟨number, hnumber, hfirst⟩, mine, hmine, hlast⟩

/-- `42` is an integer, which is the first type. -/
theorem reports_iff_fits_first_integer : ∃ d, Document.ofNode mixed = .ok d ∧
    Reports (check.contextOf d) d 1 0 := by
  obtain ⟨d, hd, -, ⟨p, x, slot, s, hp, htemplate, hdeclared, hx, hslot, hs, htypes⟩,
    ⟨q, hq, hnumber⟩, -⟩ := exists_mixed
  have hvaries : Route.VariesOnce p.template q.template "id" "42" := by
    rw [htemplate, hnumber]
    exact variesOnce_mixed (by decide) (by decide)
  have honly : ∀ id' ∈ Route.declared p, ∀ x', Route.Declares d "id" id' x' → id' = ⟨0⟩ := by
    intro id' hid' _ _
    rw [hdeclared] at hid'
    exact List.mem_singleton.1 hid'
  refine ⟨d, hd, (reports_iff_fits_first rfl hp hq (by decide) hvaries ?_ hx honly hslot hs
    htypes).2 (by decide)⟩
  rw [hdeclared]
  exact List.mem_singleton_self _

/-- `mine` fits the second of the two types, yet the two paths are not reported. -/
theorem exists_fitting_not_reported : ∃ d p q x slot s, Document.ofNode mixed = .ok d ∧
    d.paths[1]? = some p ∧ d.paths[2]? = some q ∧
    Route.VariesOnce p.template q.template "id" "mine" ∧
    Route.declared p = [⟨0⟩] ∧ Route.Declares d "id" ⟨0⟩ x ∧ x.schema = some slot ∧
    d.slotSchema? slot = some s ∧ s.types = ["integer", "string"] ∧
    Route.literalFits "mine" (some "string") = true ∧ ¬Reports (check.contextOf d) d 1 2 := by
  obtain ⟨d, hd, hpairs, ⟨p, x, slot, s, hp, htemplate, hdeclared, hx, hslot, hs, htypes⟩,
    -, q, hq, hmine⟩ := exists_mixed
  refine ⟨d, p, q, x, slot, s, hd, hp, hq, ?_, hdeclared, hx, hslot, hs, htypes, by decide,
    fun h => ?_⟩
  · rw [htemplate, hmine]
    exact variesOnce_mixed (by decide) (by decide)
  · have hmem := h.1
    rw [hpairs] at hmem
    exact absurd hmem (by decide)

end Check.AmbiguousPath

end ApiLint
