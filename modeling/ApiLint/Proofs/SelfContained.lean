import ApiLint.Proofs.Fragments

/-!
# Fragments are self-contained

The worklist of a fragment, run without fuel, comes to an end (`FragmentSource.Gathers`), and the
fragment is what it ends with. What stands in a fragment stands in the clean copy of the schema or
of a part, or is an object on the way to one (`FragmentSource.descend?_placed_cases`); so each
reference in it was in a clean copy, where only references to parts of the document are left, and
that part has been placed. It stays where it was placed, if it is an object: clean copies lack texts
only (`Document.references_of_fragment`).
-/

set_option autoImplicit false

namespace ApiLint

open Yaml (Node)
open Json (Ordered)

namespace FragmentSource

variable (source : FragmentSource)

/-! ## The worklist comes to an end -/

/-- The pending pointers are taken one after the other until none is left. From an object with the
members `members`, where the pointers `placed` have been dealt with, this ends with `out`. -/
inductive Gathers : (pending placed : List String) → (members out : List (String × Json)) → Prop
  | done {placed : List String} {members : List (String × Json)} : Gathers [] placed members members
  | again {p : String} {pending placed : List String} {members out : List (String × Json)} :
      p ∈ placed → Gathers pending placed members out → Gathers (p :: pending) placed members out
  | missing {p : String} {pending placed : List String} {members out : List (String × Json)} :
      p ∉ placed → source.root.pointer? p = none → Gathers pending (p :: placed) members out →
      Gathers (p :: pending) placed members out
  | found {p : String} {pending placed : List String} {members out : List (String × Json)}
      {part : Json} : p ∉ placed → source.root.pointer? p = some part →
      Gathers ((source.pointers (source.sanitize part)).reverse ++ pending) (p :: placed)
        (Json.place (source.sanitize part) (pointerTexts p) members) out →
      Gathers (p :: pending) placed members out

variable {source} {v w : Json} {p text : String} {x : List String}
  {members : List (String × Json)}

/-- With fuel for all pending pointers and those that the pointers not placed yet bring along,
`gather` does not run out of it. -/
theorem gathers_gather (known : Finset String)
    (hclosed : ∀ p ∈ known, ∀ q ∈ source.onward p, q ∈ known) (fuel : Nat)
    {pending placed : List String} (members : List (String × Json))
    (hpending : ∀ q ∈ pending, q ∈ known)
    (hfuel : pending.length +
      ∑ p ∈ known.filter (· ∉ placed), (source.onward p).length ≤ fuel) :
    source.Gathers pending placed members (source.gather fuel pending placed members) := by
  induction fuel generalizing pending placed members with
  | zero =>
    obtain rfl : pending = [] := List.eq_nil_of_length_eq_zero (by omega)
    exact .done
  | succ fuel ih =>
    cases pending with
    | nil => exact .done
    | cons p pending =>
      obtain ⟨hp, hrest⟩ := List.forall_mem_cons.1 hpending
      rw [List.length_cons] at hfuel
      unfold gather
      split
      · rename_i hplaced
        exact .again (by simpa using hplaced) (ih members hrest (by omega))
      · rename_i hplaced
        have hnew : p ∉ placed := by simpa using hplaced
        have hsum := source.sum_onward_eq hp hnew
        split
        · rename_i hpart
          exact .missing hnew hpart (ih members hrest (by omega))
        · rename_i part hpart
          have honward : source.onward p = source.pointers (source.sanitize part) := by
            simp only [onward, hpart]
          rw [honward] at hsum
          refine .found hnew hpart (ih _ (fun q hq => ?_) ?_)
          · rcases List.mem_append.1 hq with hq | hq
            · exact hclosed p hp q (honward ▸ List.mem_reverse.1 hq)
            · exact hrest q hq
          · rw [List.length_append, List.length_reverse]
            omega

/-- **The worklist of a schema comes to an end**, and the fragment is what it ends with. -/
theorem gathers_fragment (hroot : source.root.Ordered) {schema : Json}
    (hclean : source.sanitize schema = .obj members) :
    ∃ out, source.fragment schema = .obj out ∧
      source.Gathers (source.pointers (.obj members)).reverse [] members out := by
  have hfuel := source.fuel_le schema
  rw [hclean] at hfuel
  have hfragment : source.fragment schema = .obj (source.gather
      ((source.root.size + schema.size + 1) * (source.root.size + schema.size + 1))
      (source.pointers (.obj members)).reverse [] members) := by
    simp only [fragment, hclean]
  refine ⟨_, hfragment, gathers_gather (source.known schema) (fun p hp q hq => ?_) _ members
    (fun q hq => ?_) hfuel⟩
  · have hp : source.Followed p := by
      rw [known, List.mem_toFinset, List.mem_append] at hp
      exact hp.elim followed_of_mem_pointers followed_of_mem_pointers
    exact List.mem_toFinset.2 (List.mem_append_right _ (source.followed_of_mem_onward hroot hp hq).2)
  · exact List.mem_toFinset.2 (List.mem_append_left _ (hclean ▸ List.mem_reverse.1 hq))

/-! ## What stands in a fragment -/

/-- What stands somewhere stood there before, is an object on the way to a part, or stands in the
clean copy of a part. -/
theorem descend?_placed_cases {rs : List (List String)} (members : List (String × Json))
    (hrs : source.Resolved rs) (x : List String) :
    (Json.obj (rs.foldl source.mirror members)).descend? x = (Json.obj members).descend? x ∨
      (∃ inner, (Json.obj (rs.foldl source.mirror members)).descend? x = some (.obj inner)) ∨
      ∃ r ∈ rs, ∃ part y, source.root.descend? r = some part ∧ x = r ++ y ∧
        (Json.obj (rs.foldl source.mirror members)).descend? x =
          (source.sanitize part).descend? y := by
  induction rs using List.reverseRecOn with
  | nil => exact .inl rfl
  | append_singleton rs s ih =>
    obtain ⟨hs, hpart⟩ := hrs s (by simp)
    obtain ⟨part, hpart⟩ := Option.isSome_iff_exists.1 hpart
    rw [List.foldl_append, List.foldl_cons, List.foldl_nil, mirror, hpart]
    by_cases hsx : s <+: x
    · obtain ⟨y, rfl⟩ := hsx
      exact .inr (.inr ⟨s, by simp, part, y, hpart, rfl, Json.descend?_place_append _ _ hs y⟩)
    by_cases hxs : x <+: s
    · refine .inr (.inl (Json.exists_object_of_place _ _ hxs ?_))
      rintro rfl
      exact hsx (List.prefix_refl _)
    · rw [Json.descend?_place_of_apart _ _ hsx hxs]
      rcases ih fun r hr => hrs r (List.mem_append_left _ hr) with h | h | ⟨r, hr, h⟩
      · exact .inl h
      · exact .inr (.inl h)
      · exact .inr (.inr ⟨r, List.mem_append_left _ hr, h⟩)

/-- Where only objects are placed, a reference stands in the clean copy of the schema or of a
part. -/
theorem mem_references_of_placed {rs : List (List String)} (hroot : source.root.Ordered)
    (hmembers : Ordered (.obj members)) (hrs : source.Resolved rs)
    (hobjects : ∀ r ∈ rs, ∃ inner, source.root.descend? r = some (.obj inner))
    (h : text ∈ (Json.obj (rs.foldl source.mirror members)).references) :
    text ∈ (Json.obj members).references ∨
      ∃ r ∈ rs, ∃ part, source.root.descend? r = some part ∧
        text ∈ (source.sanitize part).references := by
  obtain ⟨x, hx⟩ := (Json.mem_references_iff (ordered_placed hroot hmembers rs)).1 h
  rcases descend?_placed_cases members hrs (x ++ ["$ref"]) with
    hold | ⟨inner, hinner⟩ | ⟨r, hr, part, y, hpart, hxy, hcopy⟩
  · exact .inl ((Json.mem_references_iff hmembers).2 ⟨x, hold ▸ hx⟩)
  · rw [hinner] at hx
    cases hx
  · rw [hcopy] at hx
    have hordered : (source.sanitize part).Ordered := ordered_sanitize (hroot.descend hpart)
    refine .inr ⟨r, hr, part, hpart, (Json.mem_references_iff hordered).2 ?_⟩
    rcases List.eq_nil_or_concat' y with rfl | ⟨y, step, rfl⟩
    · -- the part itself would be a text
      obtain ⟨inner, hinner⟩ := hobjects r hr
      obtain rfl := Option.some.inj (hinner.symm.trans hpart)
      cases hx
    · rw [← List.append_assoc] at hxy
      obtain rfl := (List.append_singleton_inj.1 hxy).2
      exact ⟨y, hx⟩

/-- A reference that is left in a fragment leads to a part of the document; in a fragment that is an
object that part has been placed. -/
theorem exists_localPointer_of_fragment {schema : Json} (hroot : source.root.Ordered)
    (hschema : schema.Ordered)
    (hobjects : ∀ p ∈ source.mirrored schema, ∃ inner, source.root.pointer? p = some (.obj inner))
    (h : text ∈ (source.fragment schema).references) :
    ∃ p, source.localPointer? text = some p ∧
      ((source.fragment schema).members?.isSome = true → p ∈ source.mirrored schema) := by
  cases schema
  case obj members =>
    have hrefers : ∀ p, source.Refers (.obj members) p → p ∈ source.mirrored (.obj members) :=
      fun p hp => (source.mem_mirrored hroot).2 ⟨⟨members, rfl⟩, hp⟩
    have hclean : (source.sanitize (.obj members)).Ordered := ordered_sanitize hschema
    have hrs := resolved_mirroredSteps hroot (.obj members)
    have hplaced : ∀ r ∈ source.mirroredSteps (.obj members),
        ∃ inner, source.root.descend? r = some (.obj inner) := by
      intro r hr
      obtain ⟨q, hq, rfl⟩ := List.mem_map.1 hr
      obtain ⟨inner, hinner⟩ := hobjects q hq
      have hqrefers := ((source.mem_mirrored hroot).1 hq).2
      exact ⟨inner, (hqrefers.followed hroot).steps.2 _ ▸ hinner⟩
    rw [fragment_eq hroot hschema rfl] at h ⊢
    rcases mem_references_of_placed hroot hclean hrs hplaced h with h | ⟨r, hr, part, hpart, h⟩
    · have hsome := ((mem_references_sanitize hschema).1 h).2
      obtain ⟨p, hp⟩ := Option.isSome_iff_exists.1 hsome
      exact ⟨p, hp, fun _ => hrefers p (.own (mem_pointers_iff.2 ⟨text, h, hp⟩))⟩
    · obtain ⟨q, hq, rfl⟩ := List.mem_map.1 hr
      have hqrefers := ((source.mem_mirrored hroot).1 hq).2
      have honward : source.onward q = source.pointers (source.sanitize part) := by
        simp only [onward, (hqrefers.followed hroot).steps.2, hpart]
      have hsome := ((mem_references_sanitize (hroot.descend hpart)).1 h).2
      obtain ⟨p, hp⟩ := Option.isSome_iff_exists.1 hsome
      refine ⟨p, hp, fun _ => hrefers p (.onward hqrefers ?_)⟩
      rw [honward]
      exact mem_pointers_iff.2 ⟨text, h, hp⟩
  all_goals
    obtain ⟨p, hp⟩ := Option.isSome_iff_exists.1 ((mem_references_sanitize hschema).1 h).2
    exact ⟨p, hp, fun hobject => by cases hobject⟩

end FragmentSource

/-! ## Documents -/

namespace Document

open FragmentSource

/-- References in the document and the schema that lead to a part of the document lead to an
object. -/
def RefersToObjects (d : Document) (schema : Json) : Prop :=
  ∀ text ∈ d.root.toJson.references ++ schema.references, ∀ p v, text = "#" ++ p →
    d.root.toJson.pointer? p = some v → ∃ members, v = .obj members

variable {d : Document} {schema : Json} {p : String}

/-- What a reference leads to, if anything, is an object. -/
def leadsToObject (root : Json) (text : String) : Bool :=
  match text.toList with
  | '#' :: rest => (root.pointer? (String.ofList rest)).all fun v => v.members?.isSome
  | _ => true

theorem leadsToObject_iff {root : Json} {text : String} : leadsToObject root text = true ↔
    ∀ p v, text = "#" ++ p → root.pointer? p = some v → ∃ members, v = .obj members := by
  have hmembers : ∀ v : Json, v.members?.isSome = true ↔ ∃ members, v = .obj members := by
    intro v
    cases v <;> simp [Json.members?]
  have htext : ∀ p : String, text = "#" ++ p ↔ text.toList = '#' :: p.toList := by
    intro p
    rw [← String.toList_inj, String.toList_append]
    rfl
  simp only [leadsToObject, htext, ← hmembers]
  split
  · rename_i rest hrest
    rw [Option.all_eq_true]
    constructor
    · rintro h p v hp hv
      obtain rfl : rest = p.toList := (List.cons.inj (hrest.symm.trans hp)).2
      exact h v (by rwa [String.ofList_toList])
    · exact fun h v hv => h _ v (by rw [hrest, String.toList_ofList]) hv
  · rename_i hhash
    exact ⟨fun _ p _ hp _ => absurd hp (hhash _), fun _ => rfl⟩

instance : Decidable (d.RefersToObjects schema) :=
  decidable_of_iff (∀ text ∈ d.root.toJson.references ++ schema.references,
      leadsToObject d.root.toJson text = true)
    (forall₂_congr fun _ _ => leadsToObject_iff)

/-- What the references lead to is an object then, in a fragment too. -/
theorem RefersToObjects.mirrored (h : d.RefersToObjects schema) (hschema : schema.Ordered)
    (hp : p ∈ (ofDocument d).mirrored schema) :
    ∃ inner, d.root.toJson.pointer? p = some (.obj inner) := by
  have hroot : (ofDocument d).root.Ordered := Node.ordered_toJson d.root
  obtain ⟨-, hrefers⟩ := ((ofDocument d).mem_mirrored hroot).1 hp
  have hobject : ∀ text ∈ d.root.toJson.references ++ schema.references,
      (ofDocument d).localPointer? text = some p →
        ∃ inner, d.root.toJson.pointer? p = some (.obj inner) := by
    intro text htext hlocal
    obtain ⟨rfl, -, hsome⟩ := localPointer?_eq_some.1 hlocal
    obtain ⟨v, hv⟩ := Option.isSome_iff_exists.1 hsome
    obtain ⟨inner, rfl⟩ := h _ htext p v rfl hv
    exact ⟨inner, hv⟩
  cases hrefers with
  | own hp =>
    obtain ⟨text, htext, hlocal⟩ := mem_pointers_iff.1 hp
    have htext := ((mem_references_sanitize hschema).1 htext).1
    exact hobject text (List.mem_append_right _ htext) hlocal
  | onward hq hp =>
    have hroot' := ((ofDocument d).followed_of_mem_onward hroot (hq.followed hroot) hp).2
    obtain ⟨text, htext, hlocal⟩ := mem_pointers_iff.1 hroot'
    exact hobject text (List.mem_append_left _ htext) hlocal

/-- What the references lead to is there, whatever has been placed around it. -/
theorem RefersToObjects.isSome_pointer? (h : d.RefersToObjects schema) (hschema : schema.Ordered)
    (hp : p ∈ (ofDocument d).mirrored schema) :
    (((ofDocument d).fragment schema).pointer? p).isSome = true := by
  have hroot : (ofDocument d).root.Ordered := Node.ordered_toJson d.root
  obtain ⟨⟨members, rfl⟩, hrefers⟩ := ((ofDocument d).mem_mirrored hroot).1 hp
  obtain ⟨-, hpointer⟩ := (hrefers.followed hroot).steps
  obtain ⟨inner, hinner⟩ := h.mirrored hschema hp
  rw [hpointer] at hinner
  have hkept : (ofDocument d).isDropped (ofDocument d).root (pointerTexts p) = false := by
    by_contra hdropped
    obtain ⟨text, htext⟩ := exists_str_of_isDropped (Bool.eq_true_of_not_eq_false hdropped)
    cases hinner.symm.trans htext
  obtain ⟨w, hw, -⟩ := exists_placed ((ofDocument d).sanitizeMembers members) hroot
    (resolved_mirroredSteps hroot _) (List.mem_map_of_mem hp) (List.prefix_refl _) hinner hkept
  rw [hpointer, fragment_eq hroot hschema rfl]
  exact Option.isSome_of_eq_some hw

/-- **Fragments are self-contained.** If references to parts of the document lead to objects, then
the worklist of a schema that is an object comes to an end, with the fragment. Every reference in a
fragment, at any depth, is a number sign and a pointer, not to the whole, that leads to a part of
the document and, in a fragment that is an object, to a part of the fragment. -/
theorem references_of_fragment (d : Document) (s : Schema)
    (hobjects : d.RefersToObjects s.node.toJson) :
    let source := ofDocument d
    let fragment := source.fragment s.node.toJson
    (∀ members, source.sanitize s.node.toJson = .obj members →
      ∃ out, fragment = .obj out ∧
        source.Gathers (source.pointers (.obj members)).reverse [] members out) ∧
    ∀ text ∈ fragment.references, ∃ p, text = "#" ++ p ∧ p ≠ "" ∧
      (d.root.toJson.pointer? p).isSome = true ∧
      (fragment.members?.isSome = true → (fragment.pointer? p).isSome = true) := by
  intro source fragment
  have hroot : source.root.Ordered := Node.ordered_toJson d.root
  have hschema : Ordered s.node.toJson := Node.ordered_toJson s.node
  refine ⟨fun members hclean => gathers_fragment hroot hclean, fun text htext => ?_⟩
  obtain ⟨p, hp, hmirrored⟩ := exists_localPointer_of_fragment hroot hschema
    (fun p hp => hobjects.mirrored hschema hp) htext
  obtain ⟨rfl, hne, hsome⟩ := localPointer?_eq_some.1 hp
  exact ⟨p, rfl, hne, hsome, fun hobject => hobjects.isSome_pointer? hschema (hmirrored hobject)⟩

/-- A document with two schemas that refer to one another, and one to another document. -/
def circular : Node :=
  .table 1 [("openapi", .word "3.1.0" 1), ("components", .table 2 [("schemas", .table 3 [
    ("Owner", .table 4 [("properties", .table 5 [
      ("pet", .pointTo 6 "#/components/schemas/Pet"),
      ("home", .pointTo 7 "places.yaml#/Home")])]),
    ("Pet", .table 8 [("not", .pointTo 9 "#/components/schemas/Owner")])])])]

theorem references_of_fragment_circular : ∃ d s, ofNode circular = .ok d ∧ s ∈ d.schemas ∧
    d.RefersToObjects s.node.toJson ∧
    let fragment := (ofDocument d).fragment s.node.toJson
    "places.yaml#/Home" ∈ s.node.toJson.references ∧
    "places.yaml#/Home" ∉ fragment.references ∧
    "#/components/schemas/Owner" ∈ fragment.references ∧
    ∃ p, "#/components/schemas/Owner" = "#" ++ p ∧ (fragment.pointer? p).isSome = true := by
  have hrun : ((ofNode circular).toOption.bind fun d => do
      let s ← d.schemas[0]?
      let fragment := (ofDocument d).fragment s.node.toJson
      return decide (d.RefersToObjects s.node.toJson ∧
        "places.yaml#/Home" ∈ s.node.toJson.references ∧
        "places.yaml#/Home" ∉ fragment.references ∧
        "#/components/schemas/Owner" ∈ fragment.references ∧
        fragment.members?.isSome = true)) = some true := by
    decide +kernel
  obtain ⟨d, hd, he⟩ := ofNode_of_toOption hrun
  obtain ⟨s, hs, he⟩ := Option.bind_eq_some_iff.1 he
  obtain ⟨hobjects, hhome, hdropped, howner, hobject⟩ := of_decide_eq_true (Option.some.inj he)
  obtain ⟨-, hreferences⟩ := references_of_fragment d s hobjects
  obtain ⟨p, hp, -, -, hsome⟩ := hreferences _ howner
  exact ⟨d, s, hd, Array.mem_of_getElem? hs, hobjects, hhome, hdropped, howner, p, hp,
    hsome hobject⟩

end Document

end ApiLint
