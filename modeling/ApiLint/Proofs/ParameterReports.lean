import ApiLint.Check.Description
import ApiLint.Proofs.Attachment
import Mathlib.Data.List.DropRight

/-!
# Where parameters are listed

A parameter is built for an entry of the component parameters, or for an item in the list of a path
item or an operation (`ReadAfter.of_parameter`), and that entry or list names it. So the check of
descriptions, which goes by the entries and the lists, comes to every parameter of the document, and
to each once however many references lead to it
(`Check.ParameterDescription.parameters_perm`). It reports the ones that have an `in` and no
description (`Check.ParameterDescription.reports_undescribed_once`).
-/

set_option autoImplicit false

namespace ApiLint

open Yaml (Node)

/-- Nothing is left of a text exactly if it is white space. -/
theorem Text.isEmpty_trim {s : String} :
    (trim s).isEmpty = true ↔ ∀ c ∈ s.toList, isBlank c = true := by
  have hstart : ∀ c ∈ s.toList.takeWhile isBlank, isBlank c = true := fun c =>
    List.mem_takeWhile_imp
  have hsplit : (∀ c ∈ s.toList, isBlank c = true) ↔
      ∀ c ∈ s.toList.dropWhile isBlank, isBlank c = true := by
    conv_lhs => rw [← List.takeWhile_append_dropWhile (p := isBlank) (l := s.toList)]
    rw [List.forall_mem_append, and_iff_right hstart]
  rw [hsplit, ← List.rdropWhile_eq_nil_iff, trim, String.isEmpty_iff, ← String.toList_eq_nil_iff,
    String.toList_ofList]
  rfl

/-! ## Where parameters are read -/

namespace Place

variable {v : SpecVersion} {p q : Place}

theorem ne_operation_of_mem_members {m : Member} (h : m ∈ p.members v) : m.role ≠ .operation :=
  (by decide : ∀ ms ∈ memberTables, ∀ m ∈ ms, m.role ≠ .operation) _ (members_mem_tables v p) m h

theorem lists_of_mem_members {m : Member} (h : m ∈ p.members v) (hrole : m.role = .parameter) :
    p.role = .pathItem ∨ p.role = .operation := by
  by_contra hlists
  have htable : p.members v ∈ memberTables.take 8 := by
    unfold members memberTables
    cases hp : p.role <;> simp only [hp, reduceCtorEq, or_self, or_true, true_or, not_true_eq_false,
      not_false_eq_true] at hlists ⊢ <;> first | (split <;> simp) | simp
  exact (by decide : ∀ ms ∈ memberTables.take 8, ∀ m ∈ ms, m.role ≠ .parameter) _ htable m h hrole

/-- Path items and operations alone have a list of parameters, before all their other parts. -/
theorem parts_eq_parameters (h : q ∈ p.parts v) (hrole : q.role = .parameter) :
    (p.role = .pathItem ∨ p.role = .operation) ∧
      ∃ others, p.parts v = p.placesOf .parameters ++ others ∧ q ∉ others := by
  obtain ⟨href, ⟨m, hm, hq⟩ | ⟨-, hq⟩⟩ := mem_parts h
  · rw [Follows.role_of_mem_places hq] at hrole
    have hlists := lists_of_mem_members hm hrole
    refine ⟨hlists, ?_⟩
    rw [← Follows.role_of_mem_places hq] at hrole
    rcases hlists with hp | hp
    · refine ⟨p.operations, by simp [parts, href, hp, members, placesOf], fun hother => ?_⟩
      simp [role_of_mem_operations hother] at hrole
    · refine ⟨p.placesOf .requestBody ++ p.placesOf .responses,
        by simp [parts, href, hp, members, placesOf], fun hother => ?_⟩
      rcases List.mem_append.1 hother with hother | hother <;>
        simp [Follows.role_of_mem_places hother, Member.requestBody, Member.responses] at hrole
  · simp [role_of_mem_operations hq] at hrole

end Place

namespace ReadAfter

variable {v : SpecVersion} {root : Node} {h : List Place} {p : Place}

/-- An operation is read among those of a path item. -/
theorem of_operation (hp : ReadAfter v root h p) (hrole : p.role = .operation) :
    ∃ h' q, ReadAfter v root h' q ∧ q.role = .pathItem ∧
      (h, p) ∈ moments v (h' ++ [q] ++ (q.placesOf .parameters).flatMap (Place.order v))
        q.operations := by
  have hsite := hp.site
  rw [hrole] at hsite
  rcases hsite with ⟨ps, e, qs, kind, -, hkind, -, rfl⟩ | ⟨h', q, ps, qs, hq, hcut, rfl⟩
  · cases kind <;> simp [Place.held, hkind, ComponentKind.role] at hrole
  · obtain ⟨href, ⟨m, hm, hmember⟩ | ⟨hitem, -⟩⟩ :=
      Place.mem_parts (hcut ▸ List.mem_append_cons_self)
    · rw [Follows.role_of_mem_places hmember] at hrole
      exact absurd hrole (Place.ne_operation_of_mem_members hm)
    · have hparts : q.parts v = q.placesOf .parameters ++ q.operations ++ [] := by
        simp [Place.parts, href, hitem, Place.members, Place.placesOf]
      have hlisted : p ∉ q.placesOf .parameters := fun hlisted => by
        simp [Follows.role_of_mem_places hlisted, Member.parameters] at hrole
      refine ⟨h', q, hq, hitem, ?_⟩
      simpa [Follows.own_eq_nil, hitem] using
        mem_moments_of_cut v (h' ++ [q]) (hparts.symm.trans hcut) hlisted List.not_mem_nil

/-- A parameter is read as what an entry of the component parameters holds, or in the list of a path
item or an operation. -/
theorem of_parameter (hp : ReadAfter v root h p) (hrole : p.role = .parameter) :
    (∃ ps e qs, componentPlaces v root = ps ++ e :: qs ∧ e.role = .component .parameters ∧
      h = ps.flatMap (Place.entryOrder v) ∧ p = e.held) ∨
    ∃ h' q, ReadAfter v root h' q ∧ (q.role = .pathItem ∨ q.role = .operation) ∧
      (h, p) ∈ moments v (h' ++ [q]) (q.placesOf .parameters) := by
  have hsite := hp.site
  rw [hrole] at hsite
  rcases hsite with ⟨ps, e, qs, kind, he, hkind, rfl, rfl⟩ | ⟨h', q, ps, qs, hq, hcut, rfl⟩
  · have hparameters : kind = .parameters := by
      cases kind <;> simp [Place.held, hkind, ComponentKind.role] at hrole ⊢
    exact .inl ⟨ps, e, qs, he, hparameters ▸ hkind, rfl, rfl⟩
  · obtain ⟨hlists, others, hparts, hothers⟩ :=
      Place.parts_eq_parameters (hcut ▸ List.mem_append_cons_self) hrole
    have hown : q.own v = [] := by
      rcases hlists with hlists | hlists <;>
        exact Follows.own_eq_nil (by simp [hlists]) (by simp [hlists])
    have hcut' : [] ++ q.placesOf .parameters ++ others = ps ++ p :: qs := hparts.symm.trans hcut
    refine .inr ⟨h', q, hq, hlists, ?_⟩
    simpa [hown] using mem_moments_of_cut v (h' ++ [q]) hcut' List.not_mem_nil hothers

end ReadAfter

/-! ## Where parameters are listed -/

/-- Components that are no references stay as they are. -/
theorem Document.followed_of_none {pointers : Pointers} {c : Component} (h : c.reference = none) :
    followed pointers c = c := by
  unfold followed
  rw [h]

namespace Document.Loaded

variable {d : Document} {draft : Draft} (hd : d.Loaded draft)
include hd

/-- Each path item read is one of the document. -/
theorem mem_paths {h : List Place} {p : Place} (hp : ReadAfter d.specVersion d.root h p)
    (hrole : p.role = .pathItem) : p.pathItemOf d.specVersion d.entries h ∈ d.paths := by
  have hsite := hp.site
  rw [hrole] at hsite
  rw [← Array.mem_toList_iff, hd.filled.paths]
  exact List.mem_map_of_mem hsite

/-- Each operation read is one of a path item. -/
theorem exists_item {h : List Place} {p : Place} (hp : ReadAfter d.specVersion d.root h p)
    (hrole : p.role = .operation) :
    ∃ item ∈ d.paths, p.operationOf d.specVersion d.entries h ∈ item.operations := by
  obtain ⟨h', q, hq, hitem, hat⟩ := hp.of_operation hrole
  exact ⟨_, hd.mem_paths hq hitem, List.mem_map_of_mem hat⟩

/-- An entry that is no reference is a component of the document. -/
theorem mem_components {ps qs : List Place} {e : Place} {kind : ComponentKind}
    (he : componentPlaces d.specVersion d.root = ps ++ e :: qs) (hkind : e.role = .component kind)
    (href : e.node.reference? = none) :
    componentOf kind (ps.flatMap (Place.entryOrder d.specVersion)) e ∈ d.components := by
  rw [hd.components, Array.mem_map]
  refine ⟨_, ?_, followed_of_none href⟩
  rw [hd.hasRead.components, List.mem_toArray, he, componentsOf_append]
  simp [componentsOf, hkind]

end Document.Loaded

namespace Check.ParameterDescription

variable {d : Document}

theorem mem_parameters {id : ParameterId} : id ∈ parameters d ↔
    (∃ e ∈ d.components, e.kind = .parameters ∧ e.content = .parameter id) ∨
      ∃ item ∈ d.paths, id ∈ item.parameters ∨ ∃ op ∈ item.operations, id ∈ op.parameters := by
  simp only [parameters, List.mem_eraseDups, List.mem_append, List.mem_filterMap, List.mem_flatMap,
    Array.mem_toList_iff]
  refine or_congr (exists_congr fun e => and_congr_right fun _ => ?_) Iff.rfl
  split <;> simp_all

/-- **Every parameter that is read is listed.** -/
theorem mem_parameters_of_place {draft : Draft} (hd : d.Loaded draft) {h : List Place} {p : Place}
    (hp : ReadAfter d.specVersion d.root h p) (href : p.reference? = none)
    (hrole : p.role = .parameter) : ⟨(Outline.after h).count .parameters⟩ ∈ parameters d := by
  have hheld : heldParameter h p = some ⟨(Outline.after h).count .parameters⟩ := by
    rw [heldParameter, heldAs, href]
  refine mem_parameters.2 ?_
  rcases hp.of_parameter hrole with ⟨ps, e, qs, he, hkind, rfl, rfl⟩ | ⟨h', q, hq, hlists, hat⟩
  · have hnode : e.node.reference? = none := (Place.reference?_held hkind).symm.trans href
    refine .inl ⟨_, hd.mem_components he hkind hnode, rfl, ?_⟩
    simp [componentOf, contentOf, hrole, hnode]
  · have hlisted := List.mem_filterMap (f := fun x => heldParameter x.1 x.2).2 ⟨_, hat, hheld⟩
    rcases hlists with hitem | hop
    · exact .inr ⟨_, hd.mem_paths hq hitem, .inl hlisted⟩
    · obtain ⟨item, hitem, hop⟩ := hd.exists_item hq hop
      exact .inr ⟨item, hitem, .inr ⟨_, hop, hlisted⟩⟩

/-- The check comes to the parameters of the document, to each once. -/
theorem parameters_perm {root : Node} (h : Document.ofNode root = .ok d) :
    (parameters d).Perm ((List.range d.parameters.size).map ParameterId.mk) := by
  have hforest := Document.isForest_of_ofNode h
  obtain ⟨rfl, draft, hd⟩ := Document.loaded_of_ofNode h
  have hrange : ((List.range d.parameters.size).map ParameterId.mk).Nodup :=
    List.nodup_range.map fun i j he => (ParameterId.mk.inj he)
  refine (List.perm_ext_iff_of_nodup (nodup_eraseDups _) hrange).2 fun id => ?_
  have hindex : id ∈ (List.range d.parameters.size).map ParameterId.mk ↔
      d.Has (.parameters, id.index) := by
    refine ⟨fun hid => ?_, fun hid => List.mem_map.2 ⟨id.index, List.mem_range.2 hid, rfl⟩⟩
    obtain ⟨i, hi, rfl⟩ := List.mem_map.1 hid
    exact List.mem_range.1 hi
  rw [hindex]
  constructor
  · intro hid
    rcases mem_parameters.1 hid with ⟨e, he, -, hcontent⟩ | ⟨item, hitem, hid⟩
    · exact hforest.parts .components e he _ (by simp [Store.parts, hcontent, ComponentContent.names])
    · refine hforest.paths item hitem _ ?_
      rcases hid with hid | ⟨op, hop, hid⟩
      · exact List.mem_append_left _ (List.mem_map_of_mem hid)
      · refine List.mem_append_right _ (List.mem_flatMap.2 ⟨op, hop, ?_⟩)
        exact List.mem_append_left _ (List.mem_append_left _ (List.mem_map_of_mem hid))
  · intro hid
    obtain ⟨x, hx⟩ : ∃ x, (draft.arena .parameters)[id.index]? = some x := by
      rw [← hd.arena_eq (by decide)]
      exact ⟨_, Array.getElem?_eq_getElem hid⟩
    obtain ⟨h, p, hp, href, hstore, hcount, -⟩ := hd.place_of_arena hx
    have hrole : p.role = .parameter := by
      cases hr : p.role <;> simp [hr, Role.store?] at hstore ⊢
    have hlisted := mem_parameters_of_place hd hp href hrole
    rwa [hcount] at hlisted

/-! ## What is reported -/

/-- The parameter has an `in`, and its description is missing or white space. -/
def IsUndescribed (p : Parameter) : Prop :=
  p.place.isSome = true ∧ ∀ text, p.description = some text → ∀ ch ∈ text.toList, Text.isBlank ch

/-- What is reported of a parameter without a description. -/
def report (c : RuleContext) (p : Parameter) : Finding :=
  c.finding (c.message missing [p.name]) p.origin (.parameter p.id)

theorem isDescribed_iff (p : Parameter) :
    isDescribed p = false ↔ ∀ text, p.description = some text → ∀ ch ∈ text.toList, Text.isBlank ch := by
  rw [isDescribed, Bool.not_eq_false', Text.isEmpty_trim]
  cases p.description with
  | none => simp
  | some text => simp

instance (p : Parameter) : Decidable (IsUndescribed p) :=
  decidable_of_iff (p.place.isSome = true ∧ isDescribed p = false)
    (and_congr_right fun _ => isDescribed_iff p)

theorem ofParameter_eq (c : RuleContext) (p : Parameter) :
    ofParameter c p = if IsUndescribed p then some (report c p) else none := by
  have hiff : (p.place.isNone || isDescribed p) = true ↔ ¬IsUndescribed p := by
    rw [IsUndescribed, ← isDescribed_iff]
    cases p.place <;> simp
  rw [ofParameter, report]
  by_cases h : IsUndescribed p
  · rw [if_neg (fun h' => hiff.1 h' h), if_pos h]
  · rw [if_pos (hiff.2 h), if_neg h]

/-- What is reported goes over the parameters of the document. -/
theorem evaluate_perm {root : Node} (h : Document.ofNode root = .ok d) {c : RuleContext}
    (hdoc : c.document = some d) :
    (evaluate c).Perm ((d.parameters.toList.filter (IsUndescribed ·)).map (report c)) := by
  have hall : ((parameters d).filterMap d.parameter?).Perm d.parameters.toList := by
    refine ((parameters_perm h).filterMap _).trans (.of_eq ?_)
    have hget := JobOrder.filterMap_range_getElem? d.parameters.toList
    simp only [Array.length_toList, Array.getElem?_toList] at hget
    rw [List.filterMap_map]
    exact hget
  have hfilter : d.parameters.toList.filterMap (ofParameter c) =
      (d.parameters.toList.filter (IsUndescribed ·)).map (report c) := by
    rw [← List.filterMap_eq_map, List.filterMap_filter]
    exact List.filterMap_congr fun p _ => by simp [ofParameter_eq]
  rw [evaluate, hdoc, ← hfilter]
  exact hall.filterMap _

/-- **Every undescribed parameter is reported once**: the findings are those of the parameters that
have an `in` and no description, each at its own one. -/
theorem reports_undescribed_once (root : Node) (d : Document) (h : Document.ofNode root = .ok d)
    (c : RuleContext) (hdoc : c.document = some d) :
    (evaluate c).Perm ((d.parameters.toList.filter (IsUndescribed ·)).map (report c)) ∧
    ((evaluate c).map (·.target)).Nodup ∧
    ∀ id, .parameter id ∈ (evaluate c).map (·.target) ↔
      ∃ p, d.parameter? id = some p ∧ IsUndescribed p := by
  have hperm := evaluate_perm h hdoc
  have htargets : ((evaluate c).map (·.target)).Perm
      ((d.parameters.toList.filter (IsUndescribed ·)).map (Target.parameter ∘ Parameter.id)) := by
    have hmap := hperm.map (·.target)
    rwa [List.map_map] at hmap
  have hnumber : ∀ (i : Nat) (p : Parameter), d.parameters[i]? = some p → p.id.index = i :=
    fun i p hp => (Document.isForest_of_ofNode h).number .parameters i p hp _ rfl
  refine ⟨hperm, htargets.nodup_iff.2 ?_, fun id => htargets.mem_iff.trans ?_⟩
  · have hids : (d.parameters.toList.map Parameter.id).Nodup :=
      nodup_of_positions ParameterId.index hnumber
    rw [← List.map_map]
    refine List.Nodup.map (fun _ _ => Target.parameter.inj) ?_
    exact hids.sublist (List.filter_sublist.map _)
  · simp only [List.mem_map, List.mem_filter, Array.mem_toList_iff, decide_eq_true_eq,
      Function.comp_apply, Target.parameter.injEq]
    constructor
    · rintro ⟨p, ⟨hp, hundescribed⟩, rfl⟩
      obtain ⟨i, hi⟩ := Array.mem_iff_getElem?.1 hp
      exact ⟨p, by rw [Document.parameter?, hnumber i p hi, hi], hundescribed⟩
    · rintro ⟨p, hp, hundescribed⟩
      refine ⟨p, ⟨Array.mem_of_getElem? hp, hundescribed⟩, ?_⟩
      obtain ⟨i⟩ := id
      exact congrArg ParameterId.mk (hnumber i p hp)

/-- A document with a parameter that a component entry, a path item and an operation refer to. -/
def shared : Node :=
  .table 1 [("openapi", .word "3.1.0" 1),
    ("components", .table 3 [("parameters", .table 4 [
      ("Limit", .table 5 [("name", .word "limit" 5), ("in", .word "query" 6),
        ("description", .word "\t" 7)]),
      ("Most", .pointTo 8 "#/components/parameters/Limit"),
      ("Page", .table 10 [("name", .word "page" 10)])])]),
    ("paths", .table 12 [("/pets", .table 13 [
      ("parameters", .sequence [.pointTo 14 "#/components/parameters/Limit"] ⟨⟨14, 7⟩, ⟨15, 5⟩⟩),
      ("get", .table 16 [
        ("parameters", .sequence [.pointTo 17 "#/components/parameters/Most",
          .table 18 [("name", .word "tag" 18), ("in", .word "query" 19),
            ("description", .word "Tag to look for" 20)]] ⟨⟨17, 9⟩, ⟨21, 1⟩⟩)])])])]

/-- The parameter without a description is reported, and nothing else is. -/
theorem reports_undescribed_once_shared : ∃ d, Document.ofNode shared = .ok d ∧
    d.paths.toList.map (fun item => (item.parameters, item.operations.map (·.parameters))) =
      [([⟨0⟩], [[⟨0⟩, ⟨2⟩]])] ∧
    ∃ p, p.id = ⟨0⟩ ∧ evaluate (check.contextOf d) = [report (check.contextOf d) p] := by
  have hlists : ((Document.ofNode shared).toOption.bind fun d => some (d.paths.toList.map
      fun item => (item.parameters, item.operations.map (·.parameters)))) =
      some [([⟨0⟩], [[⟨0⟩, ⟨2⟩]])] := by decide +kernel
  have hundescribed : ((Document.ofNode shared).toOption.bind fun d =>
      some ((d.parameters.toList.filter (IsUndescribed ·)).map (·.id))) = some [⟨0⟩] := by
    decide +kernel
  obtain ⟨d, hd, he⟩ := Document.ofNode_of_toOption hlists
  rw [hd] at hundescribed
  have hids : (d.parameters.toList.filter (IsUndescribed ·)).map Parameter.id = [⟨0⟩] :=
    Option.some.inj hundescribed
  obtain ⟨p, hp, hid⟩ := List.map_eq_singleton_iff.1 hids
  obtain ⟨hperm, -⟩ := reports_undescribed_once shared d hd (check.contextOf d) rfl
  rw [hp] at hperm
  exact ⟨d, hd, Option.some.inj he, p, hid, List.perm_singleton.1 hperm⟩

end Check.ParameterDescription

end ApiLint
