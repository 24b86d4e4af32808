import ApiLint.Proofs.Documents
import ApiLint.Proofs.Mirroring
import Mathlib.Algebra.BigOperators.Group.Finset.Basic
import Mathlib.Algebra.Order.BigOperators.Group.Finset

/-!
# Which parts a fragment has

The worklist of a fragment places all that the references of the schema lead to, by way of further
references, and nothing else (`FragmentSource.mem_mirrored`): there is always enough fuel
(`FragmentSource.cost_le`). A fragment is the schema with those parts placed one after the other
(`FragmentSource.fragment_eq`).
-/

set_option autoImplicit false

namespace ApiLint

open Yaml (Node)
open Json (Ordered)

namespace FragmentSource

variable (source : FragmentSource)

/-- The pointers in the part of the document at a pointer. -/
def onward (pointer : String) : List String :=
  match source.root.pointer? pointer with
  | none => []
  | some part => source.pointers (source.sanitize part)

/-- The pointers that `gather` places parts at, in order. -/
def gathered : Nat → List String → List String → List String
  | 0, _, _ => []
  | _ + 1, [], _ => []
  | fuel + 1, pointer :: pending, placed =>
    if placed.contains pointer then gathered fuel pending placed
    else pointer :: gathered fuel ((source.onward pointer).reverse ++ pending) (pointer :: placed)

/-- The pointers of the parts of the document that the fragment of a schema has, in the order in
which they are placed. -/
def mirrored (schema : Json) : List String :=
  match source.sanitize schema with
  | .obj members =>
    let n := source.root.size + schema.size + 1
    source.gathered (n * n) (source.pointers (.obj members)).reverse []
  | _ => []

/-- The references of a schema lead to the pointer, by way of further references. -/
inductive Refers (schema : Json) : String → Prop
  | own {p : String} : p ∈ source.pointers (source.sanitize schema) → Refers schema p
  | onward {p q : String} : Refers schema p → q ∈ source.onward p → Refers schema q

variable {source} {v w : Json} {p : String} {members : List (String × Json)}

/-! ## The references in a value -/

mutual

/-- The pointers in a value are those of its references that lead to parts of the document. -/
theorem pointers_eq : (v : Json) → source.pointers v = v.references.filterMap source.localPointer?
  | .obj members => by
    have hown : source.ownPointer members =
        ((Keyed.find? "$ref" members).bind Json.str?).toList.filterMap source.localPointer? := by
      unfold ownPointer
      rcases Keyed.find? "$ref" members with _ | _ | _ | _ | _ | text | _ | _
      case some.str => cases h : source.localPointer? text <;> simp [Json.str?, h]
      all_goals rfl
    rw [pointers, Json.references, List.filterMap_append, hown, pointersOfMembers_eq]
  | .arr items => by rw [pointers, Json.references, pointersOfItems_eq]
  | .null | .bool _ | .int _ | .float _ | .str _ => rfl

theorem pointersOfItems_eq : (items : List Json) →
    source.pointersOfItems items = (Json.referencesOfItems items).filterMap source.localPointer?
  | [] => rfl
  | item :: rest => by
    rw [pointersOfItems, Json.referencesOfItems, List.filterMap_append, pointers_eq,
      pointersOfItems_eq]

theorem pointersOfMembers_eq : (members : List (String × Json)) →
    source.pointersOfMembers members =
      (Json.referencesOfMembers members).filterMap source.localPointer?
  | [] => rfl
  | (_, value) :: rest => by
    rw [pointersOfMembers, Json.referencesOfMembers, List.filterMap_append, pointers_eq,
      pointersOfMembers_eq]

end

theorem mem_pointers_iff :
    p ∈ source.pointers v ↔ ∃ text ∈ v.references, source.localPointer? text = some p := by
  rw [pointers_eq, List.mem_filterMap]

theorem child?_ref_sanitize (h : v.Ordered) {text : String} :
    (source.sanitize v).child? "$ref" = some (.str text) ↔
      v.child? "$ref" = some (.str text) ∧ (source.localPointer? text).isSome = true := by
  rw [child?_sanitize h]
  cases v
  case obj members =>
    have hchild : (Json.obj members).child? "$ref" = Keyed.find? "$ref" members := rfl
    rw [hchild, dropsAt]
    cases hfind : Keyed.find? "$ref" members with
    | none => simp
    | some w =>
      cases w
      case str t =>
        by_cases ht : t = text
        · subst ht
          cases hlocal : source.localPointer? t <;> simp [drops, sanitize, hlocal]
        · simp [sanitize, ht]
      all_goals simp [drops, sanitize]
  case arr items =>
    have hstep : (Json.arr items).child? "$ref" = none := rfl
    simp [hstep]
  all_goals simp [Json.child?]

/-- Clean copies have the references that lead to parts of the document. -/
theorem mem_references_sanitize (h : v.Ordered) {text : String} :
    text ∈ (source.sanitize v).references ↔
      text ∈ v.references ∧ (source.localPointer? text).isSome = true := by
  rw [Json.mem_references_iff (ordered_sanitize h), Json.mem_references_iff h, ← exists_and_right]
  refine exists_congr fun x => ?_
  rw [Json.descend?_concat, Json.descend?_concat, descend?_sanitize h]
  cases hx : v.descend? x with
  | none => simp
  | some w =>
    simp only [Option.map_some, Option.bind_some, ← child?_ref_sanitize (h.descend hx)]
    split
    · rename_i hdropped
      obtain ⟨t, ht⟩ := exists_str_of_isDropped hdropped
      obtain rfl := Option.some.inj (hx.symm.trans ht)
      simp [sanitize, Json.child?]
    · rfl

/-- Clean copies have the same pointers. -/
theorem mem_pointers_sanitize (h : v.Ordered) :
    p ∈ source.pointers (source.sanitize v) ↔ p ∈ source.pointers v := by
  simp only [mem_pointers_iff, mem_references_sanitize h]
  refine exists_congr fun text => and_congr_left fun htext => ?_
  simp [htext]

/-! ## Pointers -/

/-- A pointer that is followed: it leads somewhere, and not to the whole document. -/
def Followed (source : FragmentSource) (p : String) : Prop :=
  p ≠ "" ∧ (source.root.pointer? p).isSome = true

/-- A reference to a part of the document is its pointer behind a number sign. -/
theorem localPointer?_eq_some {text : String} :
    source.localPointer? text = some p ↔ text = "#" ++ p ∧ source.Followed p := by
  unfold localPointer? Followed
  split
  · rename_i c rest htext
    have hp : text = "#" ++ p ↔ String.ofList (c :: rest) = p := by
      rw [← String.toList_inj, htext, ← String.toList_inj]
      simp
    rw [Option.ite_none_right_eq_some, Option.some.injEq, hp, and_comm]
    refine and_congr_right ?_
    rintro rfl
    simp [← String.toList_inj]
  · rename_i htext
    refine ⟨fun h => (nomatch h), ?_⟩
    rintro ⟨rfl, hne, -⟩
    obtain ⟨c, rest, hp⟩ := List.exists_cons_of_ne_nil (String.toList_eq_nil_iff.not.2 hne)
    exact absurd (by simp [hp]) (htext c rest)

theorem followed_of_mem_pointers (h : p ∈ source.pointers v) : source.Followed p := by
  obtain ⟨text, -, hp⟩ := mem_pointers_iff.1 h
  exact (localPointer?_eq_some.1 hp).2

/-- Such a pointer starts with a slash, and leads where its steps do. -/
theorem Followed.steps (h : source.Followed p) :
    pointerTexts p ≠ [] ∧ ∀ v : Json, v.pointer? p = v.descend? (pointerTexts p) := by
  obtain ⟨hne, hsome⟩ := h
  have hempty : p.isEmpty = false := by simpa using hne
  refine Json.pointer?_of_slash ?_
  by_contra hslash
  simp [Json.pointer?, hempty, hslash] at hsome

/-! ## The worklist -/

variable (source) in
/-- What is referred to by parts of a document refers to parts of the document. -/
theorem followed_of_mem_onward (hroot : source.root.Ordered) (hp : source.Followed p) {q : String}
    (h : q ∈ source.onward p) : source.Followed q ∧ q ∈ source.pointers source.root := by
  unfold onward at h
  split at h
  · cases h
  · rename_i part hpart
    rw [hp.steps.2] at hpart
    rw [mem_pointers_sanitize (hroot.descend hpart), mem_pointers_iff] at h
    obtain ⟨text, htext, hq⟩ := h
    exact ⟨(localPointer?_eq_some.1 hq).2,
      mem_pointers_iff.2 ⟨text, Json.mem_references_of_descend? hroot hpart htext, hq⟩⟩

/-- The parts are placed one after the other. -/
theorem gather_eq (hroot : source.root.Ordered) (fuel : Nat) {pending : List String}
    (placed : List String) (members : List (String × Json))
    (hpending : ∀ q ∈ pending, source.Followed q) :
    source.gather fuel pending placed members =
      ((source.gathered fuel pending placed).map pointerTexts).foldl source.mirror members := by
  induction fuel generalizing pending placed members with
  | zero => rfl
  | succ fuel ih =>
    cases pending with
    | nil => rfl
    | cons p pending =>
      have hp := hpending p List.mem_cons_self
      have hrest : ∀ q ∈ pending, source.Followed q := fun q hq => hpending q (.tail _ hq)
      unfold gather gathered
      split
      · exact ih placed members hrest
      · obtain ⟨part, hpart⟩ := Option.isSome_iff_exists.1 hp.2
        have honward : source.onward p = source.pointers (source.sanitize part) := by
          simp only [onward, hpart]
        have hmirror : source.mirror members (pointerTexts p) =
            Json.place (source.sanitize part) (pointerTexts p) members := by
          rw [hp.steps.2] at hpart
          simp only [mirror, hpart]
        simp only [hpart, ← honward, List.map_cons, List.foldl_cons, hmirror]
        refine ih _ _ fun q hq => ?_
        rcases List.mem_append.1 hq with hq | hq
        · exact (source.followed_of_mem_onward hroot hp (List.mem_reverse.1 hq)).1
        · exact hrest q hq

/-- Nothing is placed but what is referred to. -/
theorem forall_mem_gathered {motive : String → Prop} (fuel : Nat) {pending : List String}
    (placed : List String) (hpending : ∀ q ∈ pending, motive q)
    (honward : ∀ p, motive p → ∀ q ∈ source.onward p, motive q) :
    ∀ p ∈ source.gathered fuel pending placed, motive p := by
  induction fuel generalizing pending placed with
  | zero => exact fun p hp => by cases hp
  | succ fuel ih =>
    cases pending with
    | nil => exact fun p hp => by cases hp
    | cons p pending =>
      obtain ⟨hp, hrest⟩ := List.forall_mem_cons.1 hpending
      unfold gathered
      split
      · exact ih placed hrest
      · refine List.forall_mem_cons.2 ⟨hp, ih _ fun q hq => ?_⟩
        rcases List.mem_append.1 hq with hq | hq
        · exact honward p hp q (List.mem_reverse.1 hq)
        · exact hrest q hq

variable (source) in
/-- What the pointers not placed yet bring along, less what one of them does. -/
theorem sum_onward_eq {known : Finset String} {placed : List String} (hp : p ∈ known)
    (hnew : p ∉ placed) :
    ∑ q ∈ known.filter (· ∉ placed), (source.onward q).length =
      (source.onward p).length +
        ∑ q ∈ known.filter (· ∉ p :: placed), (source.onward q).length := by
  have hmem : p ∈ known.filter (· ∉ placed) := Finset.mem_filter.2 ⟨hp, hnew⟩
  rw [← Finset.add_sum_erase _ _ hmem]
  congr 2
  ext q
  simp only [Finset.mem_erase, Finset.mem_filter, List.mem_cons, not_or]
  tauto

/-- With fuel for all pending pointers and those that the pointers not placed yet bring along,
everything is placed that is pending, and that what is placed refers to. -/
theorem gathered_complete (known : Finset String)
    (hclosed : ∀ p ∈ known, ∀ q ∈ source.onward p, q ∈ known) (fuel : Nat)
    {pending placed : List String} (hpending : ∀ q ∈ pending, q ∈ known)
    (hfuel : pending.length +
      ∑ p ∈ known.filter (· ∉ placed), (source.onward p).length ≤ fuel) :
    (∀ q ∈ pending, q ∈ placed ∨ q ∈ source.gathered fuel pending placed) ∧
      ∀ p ∈ source.gathered fuel pending placed, ∀ q ∈ source.onward p,
        q ∈ placed ∨ q ∈ source.gathered fuel pending placed := by
  induction fuel generalizing pending placed with
  | zero =>
    obtain rfl : pending = [] := List.eq_nil_of_length_eq_zero (by omega)
    exact ⟨fun q hq => absurd hq List.not_mem_nil, fun p hp => absurd hp List.not_mem_nil⟩
  | succ fuel ih =>
    cases pending with
    | nil => exact ⟨fun q hq => absurd hq List.not_mem_nil, fun p hp => absurd hp List.not_mem_nil⟩
    | cons p pending =>
      obtain ⟨hp, hrest⟩ := List.forall_mem_cons.1 hpending
      rw [List.length_cons] at hfuel
      unfold gathered
      split
      · rename_i hplaced
        obtain ⟨hpend, honward⟩ := @ih pending placed hrest (by omega)
        exact ⟨List.forall_mem_cons.2 ⟨.inl (by simpa using hplaced), hpend⟩, honward⟩
      · rename_i hnew
        have hnew : p ∉ placed := by simpa using hnew
        have hsum := source.sum_onward_eq hp hnew
        have hadded : ∀ q ∈ (source.onward p).reverse ++ pending, q ∈ known := by
          intro q hq
          rcases List.mem_append.1 hq with hq | hq
          · exact hclosed p hp q (List.mem_reverse.1 hq)
          · exact hrest q hq
        obtain ⟨hpend, honward⟩ := @ih _ (p :: placed) hadded (by
          rw [List.length_append, List.length_reverse]
          omega)
        have hmove : ∀ {q : String} {result : List String}, q ∈ p :: placed ∨ q ∈ result →
            q ∈ placed ∨ q ∈ p :: result := by
          intro q result hq
          simp only [List.mem_cons] at hq ⊢
          tauto
        refine ⟨List.forall_mem_cons.2 ⟨.inr List.mem_cons_self, fun q hq => ?_⟩,
          List.forall_mem_cons.2 ⟨fun q hq => ?_, fun p' hp' q hq => ?_⟩⟩
        · exact hmove (hpend q (List.mem_append_right _ hq))
        · exact hmove (hpend q (List.mem_append_left _ (List.mem_reverse.2 hq)))
        · exact hmove (honward p' hp' q hq)

/-! ## Fuel -/

mutual

theorem length_pointers_le : (v : Json) → (source.pointers v).length ≤ v.size
  | .obj members => by
    have hmembers := length_pointersOfMembers_le members
    have hown : (source.ownPointer members).length ≤ 1 := by
      unfold ownPointer
      split
      · rename_i text _
        cases source.localPointer? text <;> simp
      · simp
    rw [pointers, List.length_append, Json.size]
    omega
  | .arr items => by
    have hitems := length_pointersOfItems_le items
    rw [pointers, Json.size]
    omega
  | .null | .bool _ | .int _ | .float _ | .str _ => Nat.zero_le _

theorem length_pointersOfItems_le : (items : List Json) →
    (source.pointersOfItems items).length ≤ Json.sizeItems items
  | [] => Nat.le_refl _
  | item :: rest => by
    have hitem := length_pointers_le item
    have hrest := length_pointersOfItems_le rest
    rw [pointersOfItems, List.length_append, Json.sizeItems]
    omega

theorem length_pointersOfMembers_le : (members : List (String × Json)) →
    (source.pointersOfMembers members).length ≤ Json.sizeMembers members
  | [] => Nat.le_refl _
  | (_, value) :: rest => by
    have hvalue := length_pointers_le value
    have hrest := length_pointersOfMembers_le rest
    rw [pointersOfMembers, List.length_append, Json.sizeMembers]
    omega

end

mutual

theorem size_sanitize_le : (v : Json) → (source.sanitize v).size ≤ v.size
  | .obj members => Nat.succ_le_succ (sizeMembers_sanitize_le members)
  | .arr items => Nat.succ_le_succ (sizeItems_sanitize_le items)
  | .null | .bool _ | .int _ | .float _ | .str _ => Nat.le_refl _

theorem sizeItems_sanitize_le : (items : List Json) →
    Json.sizeItems (source.sanitizeItems items) ≤ Json.sizeItems items
  | [] => Nat.le_refl _
  | item :: rest => Nat.add_le_add (size_sanitize_le item) (sizeItems_sanitize_le rest)

theorem sizeMembers_sanitize_le : (members : List (String × Json)) →
    Json.sizeMembers (source.sanitizeMembers members) ≤ Json.sizeMembers members
  | [] => Nat.le_refl _
  | (key, value) :: rest => by
    have hrest := sizeMembers_sanitize_le rest
    have hvalue := size_sanitize_le value
    unfold sanitizeMembers
    split
    · exact Nat.le_trans hrest (Nat.le_add_left _ _)
    · exact Nat.add_le_add hvalue hrest

end

theorem length_onward_le (hp : source.Followed p) :
    (source.onward p).length ≤ source.root.size := by
  unfold onward
  split
  · exact Nat.zero_le _
  · rename_i part hpart
    rw [hp.steps.2] at hpart
    exact (length_pointers_le _).trans ((size_sanitize_le _).trans (Json.size_le_of_descend? hpart))

variable (source) in
/-- The references of a schema, and of the document. -/
def known (schema : Json) : Finset String :=
  (source.pointers (source.sanitize schema) ++ source.pointers source.root).toFinset

/-- There is fuel enough for all of them. -/
theorem fuel_le (schema : Json) :
    (source.pointers (source.sanitize schema)).reverse.length +
        ∑ p ∈ (source.known schema).filter (· ∉ ([] : List String)), (source.onward p).length ≤
      (source.root.size + schema.size + 1) * (source.root.size + schema.size + 1) := by
  have hown : (source.pointers (source.sanitize schema)).length ≤ schema.size :=
    (length_pointers_le _).trans (size_sanitize_le schema)
  have hcard : ((source.known schema).filter (· ∉ ([] : List String))).card ≤
      schema.size + source.root.size := by
    refine (Finset.card_filter_le _ _).trans ((List.toFinset_card_le _).trans ?_)
    rw [List.length_append]
    exact Nat.add_le_add hown (length_pointers_le _)
  have hsum : ∑ p ∈ (source.known schema).filter (· ∉ ([] : List String)),
      (source.onward p).length ≤ (schema.size + source.root.size) * source.root.size := by
    refine (Finset.sum_le_card_nsmul _ _ source.root.size fun p hp => ?_).trans
      (Nat.mul_le_mul_right _ hcard)
    have hp : p ∈ source.known schema := (Finset.mem_filter.1 hp).1
    rw [known, List.mem_toFinset, List.mem_append] at hp
    exact length_onward_le (hp.elim followed_of_mem_pointers followed_of_mem_pointers)
  rw [List.length_reverse, Nat.succ_mul, Nat.add_comm]
  refine Nat.add_le_add (hsum.trans (Nat.mul_le_mul ?_ ?_)) ?_ <;> omega

variable (source) in
/-- **What a fragment has.** All that the references of the schema lead to is placed, and nothing
else. -/
theorem mem_mirrored (hroot : source.root.Ordered) {schema : Json} :
    p ∈ source.mirrored schema ↔ (∃ members, schema = .obj members) ∧ source.Refers schema p := by
  cases schema
  case obj members =>
    have hclean : source.mirrored (.obj members) = source.gathered
        ((source.root.size + (Json.obj members).size + 1) *
          (source.root.size + (Json.obj members).size + 1))
        (source.pointers (source.sanitize (.obj members))).reverse [] := rfl
    rw [hclean]
    have hknown : ∀ p ∈ source.known (.obj members), source.Followed p := by
      intro p hp
      rw [known, List.mem_toFinset, List.mem_append] at hp
      exact hp.elim followed_of_mem_pointers followed_of_mem_pointers
    obtain ⟨hpending, honward⟩ := gathered_complete (source.known (.obj members))
      (fun p hp q hq => List.mem_toFinset.2 (List.mem_append_right _
        (source.followed_of_mem_onward hroot (hknown p hp) hq).2)) _
      (fun q hq => List.mem_toFinset.2 (List.mem_append_left _ (List.mem_reverse.1 hq)))
      (fuel_le _)
    constructor
    · intro hp
      exact ⟨⟨members, rfl⟩, forall_mem_gathered _ []
        (fun q hq => .own (List.mem_reverse.1 hq)) (fun p hp q hq => .onward hp hq) p hp⟩
    · rintro ⟨-, hp⟩
      induction hp with
      | own hp => exact (hpending _ (List.mem_reverse.2 hp)).resolve_left List.not_mem_nil
      | onward _ hq ih => exact (honward _ ih _ hq).resolve_left List.not_mem_nil
  all_goals exact ⟨fun hp => (nomatch hp), fun ⟨⟨_, h⟩, _⟩ => (nomatch h)⟩

theorem Refers.followed (hroot : source.root.Ordered) {schema : Json}
    (h : source.Refers schema p) : source.Followed p := by
  induction h with
  | own hp => exact followed_of_mem_pointers hp
  | onward _ hq ih => exact (source.followed_of_mem_onward hroot ih hq).1

/-- A fragment is the clean copy of the schema with the parts placed in it. -/
theorem fragment_eq (hroot : source.root.Ordered) {schema : Json} (hschema : schema.Ordered)
    {members : List (String × Json)} (hclean : source.sanitize schema = .obj members) :
    source.fragment schema =
      .obj (((source.mirrored schema).map pointerTexts).foldl source.mirror members) := by
  have hordered : Ordered (.obj members) := hclean ▸ ordered_sanitize hschema
  simp only [fragment, mirrored, hclean]
  rw [gather_eq hroot _ _ _ fun q hq =>
    followed_of_mem_pointers (List.mem_reverse.1 hq)]

variable (source) in
/-- The steps that lead to the parts placed. -/
def mirroredSteps (schema : Json) : List (List String) := (source.mirrored schema).map pointerTexts

theorem resolved_mirroredSteps (hroot : source.root.Ordered) (schema : Json) :
    source.Resolved (source.mirroredSteps schema) := by
  intro r hr
  obtain ⟨p, hp, rfl⟩ := List.mem_map.1 hr
  have hfollowed := ((source.mem_mirrored hroot).1 hp).2.followed hroot
  exact ⟨hfollowed.steps.1, by rw [← hfollowed.steps.2]; exact hfollowed.2⟩

end FragmentSource

/-! ## Documents -/

namespace Document

/-- **When a part in the fragment is what the document has.** All that the references of the schema
lead to is placed in the fragment. A part of it is the clean copy of what the document has if, and
only if, the parts that are placed leave it as it is (`FragmentSource.Spares`); in whatever order,
if no part lies inside an array of it, and none is a member that clean copies do not have. There
always is something at the pointer, unless clean copies do not have it. -/
theorem pointer?_fragment_eq_iff (d : Document) (s : Schema) :
    let source := FragmentSource.ofDocument d
    let schema := s.node.toJson
    let fragment := source.fragment schema
    (∀ p, p ∈ source.mirrored schema ↔
      (∃ members, schema = .obj members) ∧ source.Refers schema p) ∧
    ∀ p ∈ source.mirrored schema,
      (fragment.pointer? p = (source.root.pointer? p).map source.sanitize ↔
        source.Spares (source.mirroredSteps schema) (pointerTexts p)) ∧
      ((∀ q ∈ source.mirrored schema, ∀ x items, pointerTexts p <+: x →
          source.root.descend? x = some (.arr items) → x <+: pointerTexts q → pointerTexts q = x) →
        (∀ q ∈ source.mirrored schema, pointerTexts p <+: pointerTexts q →
          source.isDropped source.root (pointerTexts q) = false) →
        fragment.pointer? p = (source.root.pointer? p).map source.sanitize) ∧
      (source.isDropped source.root (pointerTexts p) = false →
        ∃ w, fragment.pointer? p = some w) := by
  intro source schema fragment
  have hroot : source.root.Ordered := Node.ordered_toJson d.root
  have hschema : schema.Ordered := Node.ordered_toJson s.node
  have hmirrored : ∀ p, p ∈ source.mirrored schema ↔
      (∃ members, schema = .obj members) ∧ source.Refers schema p :=
    fun p => source.mem_mirrored hroot
  refine ⟨hmirrored, fun p hp => ?_⟩
  obtain ⟨⟨members, hobj⟩, hrefers⟩ := (hmirrored p).1 hp
  have hclean : source.sanitize schema = .obj (source.sanitizeMembers members) := by
    rw [hobj, FragmentSource.sanitize]
  have hmembers : Ordered (.obj (source.sanitizeMembers members)) :=
    hclean ▸ FragmentSource.ordered_sanitize hschema
  have hrs := FragmentSource.resolved_mirroredSteps hroot schema
  have hsteps : pointerTexts p ∈ source.mirroredSteps schema := List.mem_map_of_mem hp
  obtain ⟨-, hpointer⟩ := (hrefers.followed hroot).steps
  have hfragment : fragment = .obj ((source.mirroredSteps schema).foldl source.mirror
      (source.sanitizeMembers members)) := FragmentSource.fragment_eq hroot hschema hclean
  have hiff : fragment.pointer? p = (source.root.pointer? p).map source.sanitize ↔
      source.Spares (source.mirroredSteps schema) (pointerTexts p) := by
    rw [hpointer, hpointer, hfragment]
    exact FragmentSource.placed_eq_iff hroot hmembers hrs hsteps
  refine ⟨hiff, fun harrays hdropped => hiff.2 (.of_outside hsteps ?_ ?_), fun hkept => ?_⟩
  · exact List.forall_mem_map.2 fun q hq => harrays q hq
  · exact List.forall_mem_map.2 fun q hq => hdropped q hq
  · obtain ⟨v, hv⟩ := Option.isSome_iff_exists.1 (hrs _ hsteps).2
    obtain ⟨w, hw, -⟩ := FragmentSource.exists_placed (source.sanitizeMembers members) hroot
      hrs hsteps (List.prefix_refl _) hv hkept
    exact ⟨w, by rw [hpointer, hfragment]; exact hw⟩

/-- A document with a schema that refers to another one and to an item of an array in that one. -/
def overlapping : Node :=
  .table 1 [("openapi", .word "3.1.0" 1), ("components", .table 2 [("schemas", .table 3 [
    ("Main", .table 4 [("properties", .table 5 [
      ("a", .pointTo 6 "#/components/schemas/Pet/allOf/0"),
      ("b", .pointTo 7 "#/components/schemas/Pet")])]),
    ("Pet", .table 8 [("allOf",
      .sequence [.table 9 [("type", .word "string" 9)]] ⟨⟨9, 1⟩, ⟨9, 1⟩⟩)])])])]

theorem pointer?_fragment_eq_iff_overlapping : ∃ d s, ofNode overlapping = .ok d ∧ s ∈ d.schemas ∧
    let source := FragmentSource.ofDocument d
    let p := "/components/schemas/Pet/allOf/0"
    p ∈ source.mirrored s.node.toJson ∧
      (source.fragment s.node.toJson).pointer? p = (source.root.pointer? p).map source.sanitize ∧
      (source.isDropped source.root (pointerTexts p) = false ∧
        ∃ w, (source.fragment s.node.toJson).pointer? p = some w) := by
  have hrun : ((ofNode overlapping).toOption.bind fun d => do
      let s ← d.schemas[0]?
      let source := FragmentSource.ofDocument d
      return decide (source.mirrored s.node.toJson =
          ["/components/schemas/Pet", "/components/schemas/Pet/allOf/0"] ∧
        source.isDropped source.root (pointerTexts "/components/schemas/Pet/allOf/0") = false)) =
      some true := by
    decide +kernel
  obtain ⟨d, hd, he⟩ := ofNode_of_toOption hrun
  obtain ⟨s, hs, he⟩ := Option.bind_eq_some_iff.1 he
  obtain ⟨hmirrored, hkept⟩ := of_decide_eq_true (Option.some.inj he)
  have hp : "/components/schemas/Pet/allOf/0" ∈
      (FragmentSource.ofDocument d).mirrored s.node.toJson := by simp [hmirrored]
  have hself : ∀ q ∈ (FragmentSource.ofDocument d).mirrored s.node.toJson, ∀ x,
      pointerTexts "/components/schemas/Pet/allOf/0" <+: x → x <+: pointerTexts q →
        pointerTexts q = x ∧ q = "/components/schemas/Pet/allOf/0" := by
    have hlengths : (pointerTexts "/components/schemas/Pet").length = 3 ∧
        (pointerTexts "/components/schemas/Pet/allOf/0").length = 5 := by decide +kernel
    intro q hq x hpx hxq
    have hlower := hpx.length_le
    have hupper := hxq.length_le
    rw [hmirrored, List.mem_cons, List.mem_singleton] at hq
    rcases hq with rfl | rfl
    · omega
    · exact ⟨hpx.eq_of_length_le hupper, rfl⟩
  obtain ⟨-, hall⟩ := pointer?_fragment_eq_iff d s
  obtain ⟨-, houtside, hsome⟩ := hall _ hp
  refine ⟨d, s, hd, Array.mem_of_getElem? hs, hp, houtside ?_ ?_, hkept, hsome hkept⟩
  · exact fun q hq x _ hpx _ hxq => (hself q hq x hpx hxq).1
  · intro q hq hpq
    obtain ⟨-, rfl⟩ := hself q hq _ hpq (List.prefix_refl _)
    exact hkept

/-- In `overlapping` the array becomes an object, since its item is placed last. -/
theorem exists_part_not_copied : ∃ d s, ofNode overlapping = .ok d ∧ s ∈ d.schemas ∧
    let source := FragmentSource.ofDocument d
    ∃ p ∈ source.mirrored s.node.toJson, (source.fragment s.node.toJson).pointer? p ≠
      (source.root.pointer? p).map source.sanitize := by
  have hrun : ((ofNode overlapping).toOption.bind fun d => do
      let s ← d.schemas[0]?
      let source := FragmentSource.ofDocument d
      let items := fun v : Option Json => (v.bind (Json.get? "allOf")).bind Json.items?
      return decide (source.mirrored s.node.toJson =
          ["/components/schemas/Pet", "/components/schemas/Pet/allOf/0"] ∧
        (items ((source.fragment s.node.toJson).pointer? "/components/schemas/Pet")).isSome =
          false ∧
        (items ((source.root.pointer? "/components/schemas/Pet").map source.sanitize)).isSome =
          true)) = some true := by
    decide +kernel
  obtain ⟨d, hd, he⟩ := ofNode_of_toOption hrun
  obtain ⟨s, hs, he⟩ := Option.bind_eq_some_iff.1 he
  obtain ⟨hmirrored, hfragment, hcopy⟩ := of_decide_eq_true (Option.some.inj he)
  refine ⟨d, s, hd, Array.mem_of_getElem? hs, "/components/schemas/Pet", by simp [hmirrored], ?_⟩
  intro heq
  rw [heq, hcopy] at hfragment
  cases hfragment

end Document

end ApiLint
