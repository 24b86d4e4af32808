import ApiLint.Check.NamedExample
import ApiLint.Proofs.Findings
import ApiLint.Proofs.Ownership
import ApiLint.Proofs.Reporting

/-!
# Where containers of named examples are attached

Parameters, headers and media types are attached to path items, operations and component entries
(`Document.Attached`): as parameters and headers, in the content of these, or in that of request
bodies and responses. The check of named examples gathers them from operations and entries, and
looks at each that it gathers once, whatever its jobs share a validator with
(`Check.NamedExample.gathered_once`).

It passes over parameters of path items, and of a header entry over the media types in its content
(`Site.Passes`). So a named example that stands in such a place alone is not looked at
(`Check.NamedExample.exists_not_gathered`).
-/

set_option autoImplicit false

namespace ApiLint

open Yaml (Node)

/-! ## Places of attachment -/

/-- What containers are attached to. -/
inductive Site where
  | pathItem (item : PathItem)
  | operation (op : Operation)
  | component (entry : Component)

namespace Document

variable (d : Document)

/-- A parameter, and the media types in its content. -/
inductive AtParameter (id : ParameterId) : Container → Prop
  | itself : AtParameter id (.parameter id)
  | content {p : Parameter} {name : String} {m : MediaTypeId} (hp : d.parameter? id = some p)
      (hm : (name, m) ∈ p.content) : AtParameter id (.mediaType m)

/-- A header, and the media types in its content. -/
inductive AtHeader (id : HeaderId) : Container → Prop
  | itself : AtHeader id (.header id)
  | content {x : Header} {name : String} {m : MediaTypeId} (hx : d.header? id = some x)
      (hm : (name, m) ∈ x.content) : AtHeader id (.mediaType m)

inductive AtRequestBody (id : RequestBodyId) : Container → Prop
  | content {b : RequestBody} {name : String} {m : MediaTypeId} (hb : d.requestBody? id = some b)
      (hm : (name, m) ∈ b.content) : AtRequestBody id (.mediaType m)

inductive AtResponse (id : ResponseId) : Container → Prop
  | header {r : Response} {name : String} {h : HeaderId} {x : Container}
      (hr : d.response? id = some r) (hh : (name, h) ∈ r.headers) (hx : d.AtHeader h x) :
      AtResponse id x
  | content {r : Response} {name : String} {m : MediaTypeId} (hr : d.response? id = some r)
      (hm : (name, m) ∈ r.content) : AtResponse id (.mediaType m)

inductive AtOperation (op : Operation) : Container → Prop
  | parameter {id : ParameterId} {x : Container} (hid : id ∈ op.parameters)
      (hx : d.AtParameter id x) : AtOperation op x
  | requestBody {id : RequestBodyId} {x : Container} (hid : op.requestBody = some id)
      (hx : d.AtRequestBody id x) : AtOperation op x
  | response {code : String} {id : ResponseId} {x : Container} (hid : (code, id) ∈ op.responses)
      (hx : d.AtResponse id x) : AtOperation op x

/-- What a component entry holds, or leads to. -/
inductive AtEntry : ComponentContent → Container → Prop
  | parameter {id : ParameterId} {x : Container} (hx : d.AtParameter id x) :
      AtEntry (.parameter id) x
  | header {id : HeaderId} {x : Container} (hx : d.AtHeader id x) : AtEntry (.header id) x
  | requestBody {id : RequestBodyId} {x : Container} (hx : d.AtRequestBody id x) :
      AtEntry (.requestBody id) x
  | response {id : ResponseId} {x : Container} (hx : d.AtResponse id x) :
      AtEntry (.response id) x

/-- The container is attached to a part of the document. -/
inductive Attached : Site → Container → Prop
  | pathItem {item : PathItem} {id : ParameterId} {x : Container} (hitem : item ∈ d.paths)
      (hid : id ∈ item.parameters) (hx : d.AtParameter id x) : Attached (.pathItem item) x
  | operation {item : PathItem} {op : Operation} {x : Container} (hop : (item, op) ∈ d.operations)
      (hx : d.AtOperation op x) : Attached (.operation op) x
  | component {entry : Component} {x : Container} (hentry : entry ∈ d.components)
      (hx : d.AtEntry entry.content x) : Attached (.component entry) x

end Document

/-- The entry holds what belongs under its kind. -/
def Component.IsFitting (entry : Component) : Prop :=
  match entry.kind, entry.content with
  | .parameters, .parameter _ | .headers, .header _ | .requestBodies, .requestBody _
  | .responses, .response _ => True
  | _, _ => False

/-- The check of named examples comes to the container from there: from operations to all that is
attached, from entries unless they are of another kind than what they hold, from header entries to
the header alone, and from path items to nothing. -/
def Site.Passes : Site → Container → Prop
  | .pathItem _, _ => False
  | .operation _, _ => True
  | .component entry, x => entry.IsFitting ∧ (entry.kind = .headers → ∃ id, x = .header id)

namespace Check.NamedExample

variable {d : Document} {x : Container}

/-! ## What the check gathers -/

theorem mem_content {α : Type} {object? : Option α} {content : α → List (String × MediaTypeId)} :
    x ∈ (((object?.map content).getD []).map fun (_, m) => Container.mediaType m) ↔
      ∃ y name m, object? = some y ∧ (name, m) ∈ content y ∧ x = .mediaType m := by
  cases object? <;> simp [eq_comm]

theorem mem_ofParameter {id : ParameterId} : x ∈ ofParameter d id ↔ d.AtParameter id x := by
  rw [ofParameter, List.mem_cons, mem_content]
  constructor
  · rintro (rfl | ⟨p, name, m, hp, hm, rfl⟩)
    · exact .itself
    · exact .content hp hm
  · rintro (_ | ⟨hp, hm⟩)
    · exact .inl rfl
    · exact .inr ⟨_, _, _, hp, hm, rfl⟩

theorem mem_ofHeader {id : HeaderId} : x ∈ ofHeader d id ↔ d.AtHeader id x := by
  rw [ofHeader, List.mem_cons, mem_content]
  constructor
  · rintro (rfl | ⟨y, name, m, hy, hm, rfl⟩)
    · exact .itself
    · exact .content hy hm
  · rintro (_ | ⟨hy, hm⟩)
    · exact .inl rfl
    · exact .inr ⟨_, _, _, hy, hm, rfl⟩

theorem mem_ofRequestBody {id : RequestBodyId} : x ∈ ofRequestBody d id ↔ d.AtRequestBody id x := by
  rw [ofRequestBody, mem_content]
  constructor
  · rintro ⟨b, name, m, hb, hm, rfl⟩
    exact .content hb hm
  · rintro ⟨hb, hm⟩
    exact ⟨_, _, _, hb, hm, rfl⟩

theorem mem_ofResponse {id : ResponseId} : x ∈ ofResponse d id ↔ d.AtResponse id x := by
  unfold ofResponse
  cases hr : d.response? id with
  | none =>
    refine iff_of_false (by simp) ?_
    rintro (⟨hr', -, -⟩ | ⟨hr', -⟩) <;> simp [hr] at hr'
  | some r =>
    dsimp only
    simp only [List.mem_append, List.mem_flatMap, List.mem_map, mem_ofHeader]
    constructor
    · rintro (⟨⟨name, h⟩, hh, hx⟩ | ⟨⟨name, m⟩, hm, rfl⟩)
      · exact .header hr hh hx
      · exact .content hr hm
    · rintro (⟨hr', hh, hx⟩ | ⟨hr', hm⟩) <;> obtain rfl := Option.some.inj (hr.symm.trans hr')
      · exact .inl ⟨_, hh, hx⟩
      · exact .inr ⟨_, hm, rfl⟩

theorem mem_ofOperation {op : Operation} : x ∈ ofOperation d op ↔ d.AtOperation op x := by
  simp only [ofOperation, List.mem_append, List.mem_flatMap, mem_ofParameter, mem_ofResponse]
  constructor
  · rintro ((⟨id, hid, hx⟩ | hx) | ⟨⟨code, id⟩, hid, hx⟩)
    · exact .parameter hid hx
    · cases hid : op.requestBody with
      | none => simp [hid] at hx
      | some id => exact .requestBody hid (mem_ofRequestBody.1 (by simpa [hid] using hx))
    · exact .response hid hx
  · rintro (⟨hid, hx⟩ | ⟨hid, hx⟩ | ⟨hid, hx⟩)
    · exact .inl (.inl ⟨_, hid, hx⟩)
    · exact .inl (.inr (by simpa [hid] using mem_ofRequestBody.2 hx))
    · exact .inr ⟨_, hid, hx⟩

/-- Of an entry the check gathers what it comes to from there. -/
theorem mem_ofComponent {entry : Component} : x ∈ ofComponent d entry ↔
    d.AtEntry entry.content x ∧ (Site.component entry).Passes x := by
  rw [Site.Passes, ofComponent]
  split
  · rename_i id hkind hcontent
    rw [Component.IsFitting, hkind, hcontent, mem_ofParameter]
    exact ⟨fun h => ⟨.parameter h, trivial, nofun⟩, fun ⟨h, _⟩ => by cases h; assumption⟩
  · rename_i id hkind hcontent
    rw [Component.IsFitting, hkind, hcontent, List.mem_singleton]
    constructor
    · rintro rfl
      exact ⟨.header .itself, trivial, fun _ => ⟨id, rfl⟩⟩
    · rintro ⟨hx, -, hheader⟩
      obtain ⟨id', rfl⟩ := hheader rfl
      cases hx with
      | header hx =>
        cases hx
        rfl
  · rename_i id hkind hcontent
    rw [Component.IsFitting, hkind, hcontent, mem_ofRequestBody]
    exact ⟨fun h => ⟨.requestBody h, trivial, nofun⟩, fun ⟨h, _⟩ => by cases h; assumption⟩
  · rename_i id hkind hcontent
    rw [Component.IsFitting, hkind, hcontent, mem_ofResponse]
    exact ⟨fun h => ⟨.response h, trivial, nofun⟩, fun ⟨h, _⟩ => by cases h; assumption⟩
  · rename_i hparameter hheader hbody hresponse
    refine iff_of_false List.not_mem_nil fun ⟨_, hfits, _⟩ => ?_
    unfold Component.IsFitting at hfits
    cases hkind : entry.kind <;> cases hcontent : entry.content <;> rw [hkind, hcontent] at hfits
    case parameters.parameter id => exact hparameter id hkind hcontent
    case headers.header id => exact hheader id hkind hcontent
    case requestBodies.requestBody id => exact hbody id hkind hcontent
    case responses.response id => exact hresponse id hkind hcontent
    all_goals exact hfits

theorem mem_distinct {seen : List Container} {gs : List (List Container)} :
    x ∈ (distinct seen gs).flatten ↔ x ∉ seen ∧ x ∈ gs.flatten := by
  induction gs generalizing seen with
  | nil => simp [distinct]
  | cons group rest ih =>
    have hfresh :
        x ∈ group.eraseDups.filter (fun y => !seen.contains y) ↔ x ∉ seen ∧ x ∈ group := by
      simp [and_comm]
    rw [distinct, List.flatten_cons, List.mem_append]
    split
    · rename_i hnone
      rw [List.isEmpty_iff.1 hnone] at hfresh
      rw [ih]
      tauto
    · rw [List.flatten_cons, List.mem_append, ih, hfresh, List.mem_append, hfresh]
      tauto

theorem nodup_distinct (seen : List Container) (gs : List (List Container)) :
    (distinct seen gs).flatten.Nodup := by
  induction gs generalizing seen with
  | nil => exact .nil
  | cons group rest ih =>
    rw [distinct]
    split
    · exact ih seen
    · rw [List.flatten_cons, List.nodup_append]
      refine ⟨(nodup_eraseDups group).filter _, ih _, fun x hx y hy he => ?_⟩
      exact (mem_distinct.1 hy).1 (List.mem_append_right _ (he ▸ hx))

/-- **What is gathered** is what is attached and come to. -/
theorem mem_groups : x ∈ (groups d).flatten ↔ ∃ site, d.Attached site x ∧ site.Passes x := by
  rw [groups, mem_distinct]
  simp only [List.not_mem_nil, not_false_eq_true, true_and, List.flatten_append, List.mem_append,
    List.mem_flatten, List.mem_map, Array.mem_toList_iff, Prod.exists]
  constructor
  · rintro (⟨_, ⟨item, op, hop, rfl⟩, hx⟩ | ⟨_, ⟨entry, hentry, rfl⟩, hx⟩)
    · exact ⟨.operation op, .operation hop (mem_ofOperation.1 hx), trivial⟩
    · obtain ⟨hx, hpasses⟩ := mem_ofComponent.1 hx
      exact ⟨.component entry, .component hentry hx, hpasses⟩
  · rintro ⟨site, hx, hpasses⟩
    cases hx with
    | pathItem => exact hpasses.elim
    | operation hop hx => exact .inl ⟨_, ⟨_, _, hop, rfl⟩, mem_ofOperation.2 hx⟩
    | component hentry hx =>
      exact .inr ⟨_, ⟨_, hentry, rfl⟩, mem_ofComponent.2 ⟨hx, hpasses⟩⟩

end Check.NamedExample

/-! ## What is attached exists -/

/-- The container as an object of its sort. -/
def Container.name : Container → ObjectName
  | parameter id => (.parameters, id.index)
  | header id => (.headers, id.index)
  | mediaType id => (.mediaTypes, id.index)

namespace Document

variable {d : Document} {x : Container}

theorem exists_holder (h : d.Has x.name) : ∃ holder, x.holder? d = some holder := by
  cases x <;> exact ⟨_, congrArg (Option.map _) (Array.getElem?_eq_getElem h)⟩

namespace IsForest

variable (hd : d.IsForest)
include hd

/-- A part of an object exists. -/
theorem has_of_parts {s : Store} {i : Nat} {y : s.Object} (hy : (d.arena s)[i]? = some y)
    {n : ObjectName} (hn : n ∈ s.parts y) : d.Has n :=
  hd.parts s y (Array.mem_of_getElem? hy) n hn

theorem has_of_atParameter {id : ParameterId} (hid : d.Has (.parameters, id.index))
    (hx : d.AtParameter id x) : d.Has x.name := by
  cases hx with
  | itself => exact hid
  | content hp hm =>
    exact hd.has_of_parts (s := .parameters) hp
      (List.mem_append_right _ (List.mem_map.2 ⟨_, hm, rfl⟩))

theorem has_of_atHeader {id : HeaderId} (hid : d.Has (.headers, id.index))
    (hx : d.AtHeader id x) : d.Has x.name := by
  cases hx with
  | itself => exact hid
  | content hy hm =>
    exact hd.has_of_parts (s := .headers) hy
      (List.mem_append_right _ (List.mem_map.2 ⟨_, hm, rfl⟩))

theorem has_of_atRequestBody {id : RequestBodyId} (hx : d.AtRequestBody id x) : d.Has x.name := by
  obtain ⟨hb, hm⟩ := hx
  exact hd.has_of_parts (s := .requestBodies) hb (List.mem_map.2 ⟨_, hm, rfl⟩)

theorem has_of_atResponse {id : ResponseId} (hx : d.AtResponse id x) : d.Has x.name := by
  cases hx with
  | header hr hh hx =>
    refine hd.has_of_atHeader (hd.has_of_parts (s := .responses) hr ?_) hx
    exact List.mem_append_left _ (List.mem_append_left _ (List.mem_map.2 ⟨_, hh, rfl⟩))
  | content hr hm =>
    refine hd.has_of_parts (s := .responses) hr ?_
    exact List.mem_append_left _ (List.mem_append_right _ (List.mem_map.2 ⟨_, hm, rfl⟩))

/-- What is attached exists. -/
theorem has_of_attached {site : Site} (hx : d.Attached site x) : d.Has x.name := by
  cases hx with
  | pathItem hitem hid hx =>
    refine hd.has_of_atParameter (hd.paths _ hitem _ ?_) hx
    exact List.mem_append_left _ (List.mem_map_of_mem hid)
  | operation hop hx =>
    obtain ⟨item, hitem, hop⟩ := List.mem_flatMap.1 hop
    obtain ⟨op, hin, he⟩ := List.mem_map.1 hop
    obtain ⟨rfl, rfl⟩ := Prod.mk.inj he
    have hname : ∀ n ∈ op.names, d.Has n := fun n hn =>
      hd.paths item (Array.mem_toList_iff.1 hitem) n
        (List.mem_append_right _ (List.mem_flatMap.2 ⟨op, hin, hn⟩))
    cases hx with
    | parameter hid hx =>
      refine hd.has_of_atParameter (hname _ ?_) hx
      exact List.mem_append_left _ (List.mem_append_left _ (List.mem_map_of_mem hid))
    | requestBody hid hx => exact hd.has_of_atRequestBody hx
    | response hid hx => exact hd.has_of_atResponse hx
  | @component entry _ hentry hx =>
    have hparts := hd.parts .components entry hentry
    change ∀ n ∈ entry.content.names, d.Has n at hparts
    generalize entry.content = content at hx hparts
    cases hx with
    | parameter hx => exact hd.has_of_atParameter (hparts _ (List.mem_singleton_self _)) hx
    | header hx => exact hd.has_of_atHeader (hparts _ (List.mem_singleton_self _)) hx
    | requestBody hx => exact hd.has_of_atRequestBody hx
    | response hx => exact hd.has_of_atResponse hx

/-- The named examples of a holder exist. -/
theorem exists_namedExample {holder : Holder} (hx : x.holder? d = some holder) {name : String}
    {id : NamedExampleId} (hid : (name, id) ∈ holder.namedExamples) :
    ∃ e, d.namedExample? id = some e := by
  have hhas : d.Has (.namedExamples, id.index) := by
    cases x <;> obtain ⟨y, hy, rfl⟩ := Option.map_eq_some_iff.1 hx
    case parameter =>
      refine hd.has_of_parts (s := .parameters) hy ?_
      exact List.mem_append_left _ (List.mem_append_right _ (List.mem_map.2 ⟨_, hid, rfl⟩))
    case header =>
      refine hd.has_of_parts (s := .headers) hy ?_
      exact List.mem_append_left _ (List.mem_append_right _ (List.mem_map.2 ⟨_, hid, rfl⟩))
    case mediaType =>
      exact hd.has_of_parts (s := .mediaTypes) hy
        (List.mem_append_right _ (List.mem_map.2 ⟨_, hid, rfl⟩))
  exact ⟨_, Array.getElem?_eq_getElem hhas⟩

end IsForest

end Document

/-! ## What is looked at -/

namespace Check.NamedExample

open ExampleJob (batch Steady)

variable (c : RuleContext) (d : Document)

/-- What is found about a named example of a holder. -/
def examination (holder : Holder) (name : String) (e : ApiLint.NamedExample) : List Finding :=
  let invalid :=
    match e.value, if holder.isXml then none else holder.schema.bind d.slotSchema? with
    | some value, some s =>
      ExampleJob.ofVerdict c (d.verdict s value) name (e.origin.location.field "value") value.mark
        value.stop (.namedExample e.id)
    | _, _ => []
  valueFindings c name e ++ invalid ++ summaryFindings c name e

/-- What is found about the named examples of a holder, in turn. -/
def holderExaminations (holder : Holder) : List Finding :=
  holder.namedExamples.flatMap fun (name, id) =>
    (d.namedExample? id).toList.flatMap (examination c d holder name)

/-- What is found about the named examples of a container. -/
def examinations (x : Container) : List Finding :=
  (x.holder? d).toList.flatMap (holderExaminations c d)

/-- The job of one entry of a map of named examples. -/
def ofEntry (schema : Option Schema) (x : String × NamedExampleId) : ExampleJob :=
  match d.namedExample? x.2 with
  | some e => ofNamed c d schema x.1 e
  | none => pure []

variable {c d}

/-- A job by itself finds what its own validator tells. -/
theorem batch_ofNamed (holder : Holder) (name : String) (e : ApiLint.NamedExample) :
    batch d (ofNamed c d (if holder.isXml then none else holder.schema.bind d.slotSchema?) name e) =
      examination c d holder name e := by
  unfold ofNamed examination
  generalize (if holder.isXml then none else holder.schema.bind d.slotSchema?) = schema
  cases e.value <;> cases schema <;> rfl

section
variable (hd : d.SchemasNamed) (hc : c.cancelled = false)
include hd hc

/-- The job of a holder examines its named examples, one after the other. -/
theorem batch_ofHolder (holder : Holder) :
    batch d (ofHolder c d holder) = holderExaminations c d holder := by
  set schema := if holder.isXml then none else holder.schema.bind d.slotSchema? with hschema
  have hsteady : ∀ job ∈ holder.namedExamples.map (ofEntry c d schema), Steady d job := by
    intro job hjob
    obtain ⟨x, -, rfl⟩ := List.mem_map.1 hjob
    unfold ofEntry
    split
    · refine .of_agree (agree_ofNamed (.refl hc) (fun s hs => ?_) ..)
      rw [hschema] at hs
      split at hs
      · cases hs
      · obtain ⟨slot, -, hslot⟩ := Option.bind_eq_some_iff.1 hs
        exact hd.schema?_of_slot hslot
    · exact .pure rfl
  have hrun : ofHolder c d holder =
      ExampleJob.runAll (holder.namedExamples.map (ofEntry c d schema)) := by
    unfold ofHolder ExampleJob.runAll
    rw [List.mapM_map]
    rfl
  rw [hrun, batch, ExampleJob.runAll_eq hsteady, List.flatMap_map, holderExaminations]
  refine List.flatMap_congr fun x _ => ?_
  obtain ⟨name, id⟩ := x
  dsimp only [ofEntry]
  cases d.namedExample? id with
  | none => rfl
  | some e => simpa using batch_ofNamed holder name e

theorem evaluate_perm_examinations (hdoc : c.document = some d)
    (hdeadline : c.deadlines "operations" = none) :
    (evaluate c).Perm ((groups d).flatten.flatMap (examinations c d)) := by
  have hsteady : ∀ job ∈ jobs c d, Steady d job := fun job hjob =>
    .of_agree (List.forall₂_same.1 (agree_jobs (.refl hc) hd) job hjob)
  rw [evaluate, hdoc]
  dsimp only
  rw [ExampleJob.findings_eq hc "operations" hsteady, c.taken_of_none hdeadline]
  refine ((JobOrder.arrange_perm _ _).flatMap_right _).trans (.of_eq ?_)
  rw [jobs, List.flatMap_map, List.flatten_eq_flatMap, List.flatMap_assoc]
  refine List.flatMap_congr fun group _ => ?_
  have hholders : ∀ job ∈ (group.filterMap (·.holder? d)).map (ofHolder c d), Steady d job := by
    intro job hjob
    obtain ⟨holder, -, rfl⟩ := List.mem_map.1 hjob
    exact .of_agree (agree_ofHolder (.refl hc) hd holder)
  rw [batch, ExampleJob.runAll_eq hholders, List.flatMap_map, List.filterMap_eq_flatMap_toList,
    List.flatMap_assoc]
  refine List.flatMap_congr fun x _ => ?_
  exact List.flatMap_congr fun holder _ => batch_ofHolder hd hc holder

end

/-- **Each container that is come to is looked at once**: the check gathers it once, it has a
holder, and a run that is not interrupted examines each of its named examples. These are the
containers attached to operations and to component entries, apart from the content of header entries
and from entries of the wrong kind. -/
theorem gathered_once (root : Node) (d : Document) (h : Document.ofNode root = .ok d) :
    (groups d).flatten.Nodup ∧
    (∀ x, x ∈ (groups d).flatten ↔ ∃ site, d.Attached site x ∧ site.Passes x) ∧
    (∀ site x, d.Attached site x → ∃ holder, x.holder? d = some holder ∧
      ∀ name id, (name, id) ∈ holder.namedExamples → ∃ e, d.namedExample? id = some e) ∧
    ∀ c : RuleContext, c.document = some d → c.cancelled = false →
      c.deadlines "operations" = none →
      (evaluate c).Perm ((groups d).flatten.flatMap (examinations c d)) := by
  have hforest := Document.isForest_of_ofNode h
  obtain ⟨rfl, draft, hd⟩ := Document.loaded_of_ofNode h
  refine ⟨nodup_distinct .., fun x => mem_groups, fun site x hx => ?_,
    fun c hdoc hc => evaluate_perm_examinations hd.schemasNamed hc hdoc⟩
  obtain ⟨holder, hholder⟩ := Document.exists_holder (hforest.has_of_attached hx)
  exact ⟨holder, hholder, fun name id => hforest.exists_namedExample hholder⟩

/-- A document with named examples at a parameter of a path item, at one of its operation, and in
the content of a header entry. -/
def scattered : Node :=
  .table 1 [("openapi", .word "3.1.0" 1),
    ("paths", .table 3 [("/pets", .table 4 [
      ("parameters", .sequence [.table 5 [
        ("name", .word "limit" 5), ("examples", .table 7 [("low", .table 8 [])])]]
        ⟨⟨5, 7⟩, ⟨9, 5⟩⟩),
      ("get", .table 10 [("parameters", .sequence [.table 11 [
        ("name", .word "page" 11), ("examples", .table 13 [("first", .table 14 [])])]]
        ⟨⟨11, 9⟩, ⟨15, 1⟩⟩)])])]),
    ("components", .table 16 [("headers", .table 17 [("Rate", .table 18 [
      ("content", .table 19 [("text/plain", .table 20 [
        ("examples", .table 21 [("high", .table 22 [])])])])])])])]

/-- The parameter of the operation is gathered. -/
theorem gathered_once_operation : ∃ d, Document.ofNode scattered = .ok d ∧
    (groups d).flatten.Nodup ∧ Container.parameter ⟨1⟩ ∈ (groups d).flatten ∧
    (∃ holder, (Container.parameter ⟨1⟩).holder? d = some holder) ∧
    (evaluate (check.contextOf d)).Perm
      ((groups d).flatten.flatMap (examinations (check.contextOf d) d)) := by
  have hrun : ((Document.ofNode scattered).toOption.bind fun d =>
      some (d.operations.map (·.2.parameters))) = some [[⟨1⟩]] := by decide +kernel
  obtain ⟨d, hd, he⟩ := Document.ofNode_of_toOption hrun
  obtain ⟨⟨item, op⟩, hop, hparameters⟩ := List.mem_map.1
    (Option.some.inj he ▸ List.mem_singleton_self _ : [⟨1⟩] ∈ d.operations.map (·.2.parameters))
  obtain ⟨hnodup, hmem, hholder, hperm⟩ := gathered_once scattered d hd
  have hattached : d.Attached (.operation op) (.parameter ⟨1⟩) :=
    .operation hop (.parameter (List.mem_of_mem_head? (congrArg List.head? hparameters)) .itself)
  obtain ⟨holder, hx, -⟩ := hholder _ _ hattached
  exact ⟨d, hd, hnodup, (hmem _).2 ⟨_, hattached, trivial⟩, ⟨holder, hx⟩,
    hperm (check.contextOf d) rfl rfl rfl⟩

/-- The parameter of the path item and the media type of the header have named examples, but are not
gathered. -/
theorem exists_not_gathered : ∃ d, Document.ofNode scattered = .ok d ∧
    (∃ item, d.Attached (.pathItem item) (.parameter ⟨0⟩)) ∧
    (d.parameter? ⟨0⟩).map (·.namedExamples) = some [("low", ⟨1⟩)] ∧
    Container.parameter ⟨0⟩ ∉ (groups d).flatten ∧
    (∃ entry, entry.IsFitting ∧ d.Attached (.component entry) (.mediaType ⟨0⟩)) ∧
    (d.mediaType? ⟨0⟩).map (·.namedExamples) = some [("high", ⟨0⟩)] ∧
    Container.mediaType ⟨0⟩ ∉ (groups d).flatten := by
  have hgathered : ((Document.ofNode scattered).toOption.bind fun d => some (groups d)) =
      some [[.parameter ⟨1⟩], [.header ⟨0⟩]] := by decide +kernel
  have hparts : ((Document.ofNode scattered).toOption.bind fun d =>
      some (d.paths.toList.map (·.parameters),
        d.components.toList.map fun entry => (entry.kind, entry.content.names))) =
      some ([[⟨0⟩]], [(.headers, [(.headers, 0)])]) := by decide +kernel
  have hcontent : ((Document.ofNode scattered).toOption.bind fun d =>
      some ((d.header? ⟨0⟩).map (·.content))) = some (some [("text/plain", ⟨0⟩)]) := by
    decide +kernel
  have hnamed : ((Document.ofNode scattered).toOption.bind fun d =>
      some ((d.parameter? ⟨0⟩).map (·.namedExamples), (d.mediaType? ⟨0⟩).map (·.namedExamples))) =
      some (some [("low", ⟨1⟩)], some [("high", ⟨0⟩)]) := by decide +kernel
  obtain ⟨d, hd, he⟩ := Document.ofNode_of_toOption hgathered
  rw [hd] at hparts hcontent hnamed
  have hgroups : groups d = [[.parameter ⟨1⟩], [.header ⟨0⟩]] := Option.some.inj he
  obtain ⟨hitems, hentries⟩ := Prod.mk.inj (Option.some.inj hparts)
  obtain ⟨hlow, hhigh⟩ := Prod.mk.inj (Option.some.inj hnamed)
  obtain ⟨item, hitem, hparameters⟩ := List.mem_map.1
    (hitems ▸ List.mem_singleton_self _ : [⟨0⟩] ∈ d.paths.toList.map (·.parameters))
  obtain ⟨entry, hentry, hnames⟩ := List.mem_map.1 (hentries ▸ List.mem_singleton_self _ :
    (.headers, [(.headers, 0)]) ∈ d.components.toList.map fun entry =>
      (entry.kind, entry.content.names))
  obtain ⟨hkind, hnames⟩ := Prod.mk.inj hnames
  obtain ⟨y, hy, hmedia⟩ := Option.map_eq_some_iff.1 (Option.some.inj hcontent)
  have hholds : entry.content = .header ⟨0⟩ := by
    cases hc : entry.content with
    | header id =>
      obtain ⟨n⟩ := id
      simp_all [ComponentContent.names]
    | _ => simp_all [ComponentContent.names, SchemaSlot.names]
  refine ⟨d, hd, ⟨item, .pathItem (Array.mem_toList_iff.1 hitem)
      (List.mem_of_mem_head? (congrArg List.head? hparameters)) .itself⟩, hlow, by simp [hgroups],
    ⟨entry, ?_, .component (Array.mem_toList_iff.1 hentry) ?_⟩, hhigh, by simp [hgroups]⟩
  · simp only [Component.IsFitting, hkind, hholds]
  · rw [hholds]
    exact .header (.content hy (List.mem_of_mem_head? (congrArg List.head? hmedia)))

end Check.NamedExample

end ApiLint
