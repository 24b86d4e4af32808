import ApiLint.Proofs.Declarations
import ApiLint.Proofs.Unmarked

/-!
# The order of path items

Path items in another order (`Reordered`) stand at the same places, and what is at a pointer is read
in the same order, as different path items have different pointers (`Reordered.placesAt_eq`). So the
finished document leads each reference to an object from the same place (`Document.rel_resolve`),
and what is declared at a place is the same.

A list of parameters may hold something else, though, since its references are followed as they are
met. Where the lists hold what the finished document leads to, the ambiguous pairs do not depend on
the order (`Route.ambiguous_lawful`). A path item that refers to a parameter of another one has to
come after it, or it is ambiguous with more (`Route.exists_pairs_by_order`).
-/

set_option autoImplicit false

namespace ApiLint

open Yaml (Node)

/-! ## What is read at a pointer -/

/-- The places at a pointer, without their marks. -/
def placesAt (ps : List Place) (pointer : String) : List Place :=
  (ps.map Place.unmarked).filter (·.pointer == pointer)

/-- References can lead to the place. -/
def Place.defines (p : Place) : Bool :=
  p.reference?.isNone && (p.role.target? fun _ => 0).isSome

/-- The place that references to the pointer lead to. -/
def definer? (ps : List Place) (pointer : String) : Option Place :=
  ps.find? fun p => p.pointer == pointer && p.defines

theorem Role.isSome_target? (r : Role) (count count' : Store → Nat) :
    (r.target? count).isSome = (r.target? count').isSome := by
  cases r <;> rfl

@[simp]
theorem Place.defines_unmarked (p : Place) : p.unmarked.defines = p.defines := by
  simp [defines]

theorem Place.role_eq_of_unmarked {p q : Place} (h : p.unmarked = q.unmarked) :
    p.role = q.role := by
  rw [← p.role_unmarked, h, q.role_unmarked]

theorem definer?_unmarked (ps : List Place) (pointer : String) :
    (definer? ps pointer).map Place.unmarked = (placesAt ps pointer).find? Place.defines := by
  have hplace : ∀ p : Place, (p.pointer == pointer && p.defines) =
      decide ((p.unmarked.pointer == pointer) = true ∧ p.unmarked.defines = true) := by
    intro p
    by_cases hp : p.pointer = pointer <;> simp [hp]
  rw [definer?, placesAt, List.find?_filter, List.find?_map]
  exact congrArg (fun f => (ps.find? f).map Place.unmarked) (funext hplace)

theorem definition_eq_none_iff {ps : List Place} {p : Place} :
    definition Role.target? ps p = none ↔ p.defines = false := by
  have hsome := p.role.isSome_target? (Outline.after ps).count fun _ => 0
  rw [definition, Place.defines, ← hsome]
  by_cases href : p.reference? = none <;> simp [href]

theorem undefinedAt_iff {ps : List Place} {pointer : String} :
    UndefinedAt Role.target? ps pointer ↔ ∀ p ∈ ps, p.pointer = pointer → p.defines = false := by
  constructor
  · intro h p hp hpointer
    obtain ⟨a, b, hcut⟩ := List.append_of_mem hp
    exact definition_eq_none_iff.1 (h a p b hcut hpointer)
  · intro h a p b hcut hpointer
    exact definition_eq_none_iff.2 (h p (hcut ▸ List.mem_append_cons_self) hpointer)

/-- Nothing is at a pointer that no place defines. -/
theorem objectAt?_eq_none_iff {ps : List Place} {pointer : String} :
    (Outline.after ps).pointers.objectAt? pointer = none ↔ definer? ps pointer = none := by
  rw [← (Outline.objectAt?_after ps pointer).1, undefinedAt_iff, definer?, List.find?_eq_none]
  simp

/-- The object at a pointer is that of the place that defines it. -/
theorem exists_definer {ps : List Place} {pointer : String} {t : Target}
    (h : (Outline.after ps).pointers.objectAt? pointer = some t) :
    ∃ a p b, ps = a ++ p :: b ∧ definer? ps pointer = some p ∧ p.reference? = none ∧
      p.role.target? (Outline.after a).count = some t := by
  obtain ⟨a, p, b, hcut, hundefined, hpointer, hdef⟩ :=
    ((Outline.objectAt?_after ps pointer).2 t).2 h
  have hdefines : p.defines = true := by
    by_contra hnot
    have hnone : definition Role.target? a p = none :=
      definition_eq_none_iff.2 (Bool.eq_false_of_not_eq_true hnot)
    rw [hdef] at hnone
    cases hnone
  unfold definition at hdef
  split at hdef
  · rename_i href
    refine ⟨a, p, b, hcut, ?_, href, hdef⟩
    rw [definer?, List.find?_eq_some_iff_append]
    refine ⟨by simp [hpointer, hdefines], a, b, hcut, ?_⟩
    intro q hq
    have hnone := undefinedAt_iff.1 hundefined q hq
    by_cases hqp : q.pointer = pointer
    · simp [hqp, hnone hqp]
    · simp [hqp]
  · cases hdef

/-- The reference at a pointer is the last one there. -/
theorem linkAt?_eq (ps : List Place) (pointer : String) :
    (Outline.after ps).pointers.linkAt? pointer =
      ((placesAt ps pointer).filterMap Place.reference?).getLast? := by
  induction ps using List.reverseRecOn with
  | nil => rfl
  | append_singleton ps p ih =>
    have hlast : placesAt (ps ++ [p]) pointer = placesAt ps pointer ++ placesAt [p] pointer := by
      simp [placesAt]
    rw [Outline.after_concat, Outline.linkAt?_read, ih, hlast, List.filterMap_append,
      List.getLast?_append]
    congr 1
    by_cases hp : p.pointer = pointer
    · cases href : p.reference? <;> simp [placesAt, hp, href]
    · simp [placesAt, hp]

/-! ## Where references lead -/

/-- The objects of two documents come from one place, but for its marks. -/
def Counterparts (v : SpecVersion) (root root' : Node) (t t' : Target) : Prop :=
  ∃ h p h' p', ReadAfter v root h p ∧ p.reference? = none ∧
    p.role.target? (Outline.after h).count = some t ∧ ReadAfter v root' h' p' ∧
      p'.reference? = none ∧ p'.role.target? (Outline.after h').count = some t' ∧
        p'.unmarked = p.unmarked

section
variable {v : SpecVersion} {root root' : Node}
  (hat : ∀ pointer,
    placesAt (readingOrder v root') pointer = placesAt (readingOrder v root) pointer)
include hat

/-- Where the same places are at a pointer, the objects there are counterparts. -/
theorem rel_objectAt (pointer : String) : Option.Rel (Counterparts v root root')
    ((Outline.after (readingOrder v root)).pointers.objectAt? pointer)
    ((Outline.after (readingOrder v root')).pointers.objectAt? pointer) := by
  have hdefiner : (definer? (readingOrder v root') pointer).map Place.unmarked =
      (definer? (readingOrder v root) pointer).map Place.unmarked := by
    rw [definer?_unmarked, definer?_unmarked, hat]
  cases hobject : (Outline.after (readingOrder v root)).pointers.objectAt? pointer with
  | none =>
    rw [objectAt?_eq_none_iff.1 hobject, Option.map_none, Option.map_eq_none_iff] at hdefiner
    rw [objectAt?_eq_none_iff.2 hdefiner]
    exact .none
  | some t =>
    obtain ⟨a, p, b, hcut, hp, href, ht⟩ := exists_definer hobject
    rw [hp] at hdefiner
    cases hobject' : (Outline.after (readingOrder v root')).pointers.objectAt? pointer with
    | none =>
      rw [objectAt?_eq_none_iff.1 hobject'] at hdefiner
      cases hdefiner
    | some t' =>
      obtain ⟨a', p', b', hcut', hp', href', ht'⟩ := exists_definer hobject'
      rw [hp'] at hdefiner
      exact .some ⟨a, p, a', p', readAfter_iff.2 ⟨b, hcut⟩, href, ht, readAfter_iff.2 ⟨b', hcut'⟩,
        href', ht', Option.some.inj hdefiner⟩

/-- Where the same places are at every pointer, references lead to counterparts. -/
theorem rel_resolveWithin (hops : Nat) (text : String) : Option.Rel (Counterparts v root root')
    ((Outline.after (readingOrder v root)).pointers.resolveWithin hops text)
    ((Outline.after (readingOrder v root')).pointers.resolveWithin hops text) := by
  induction hops generalizing text with
  | zero => exact .none
  | succ hops ih =>
    have hlink : (Outline.after (readingOrder v root')).pointers.linkAt? text =
        (Outline.after (readingOrder v root)).pointers.linkAt? text := by
      rw [linkAt?_eq, linkAt?_eq, hat]
    have hobject := rel_objectAt hat text
    rw [Pointers.resolveWithin, Pointers.resolveWithin, hlink]
    split
    · generalize (Outline.after (readingOrder v root)).pointers.objectAt? text = found,
        (Outline.after (readingOrder v root')).pointers.objectAt? text = found' at hobject ⊢
      cases hobject with
      | none =>
        dsimp only
        split
        · exact ih _
        · exact .none
      | some ht => exact .some ht
    · exact .none

end

/-! ## Path items in another order -/

/-- The trees are the same but for marks and for the order of the entries under `paths`. -/
structure Reordered (root root' : Node) : Prop where
  others : ∀ name, name ≠ "paths" → root'.unmarked.get? name = root.unmarked.get? name
  paths : ∃ entries entries' span span',
    root.unmarked.get? "paths" = some (.mapping entries span) ∧
      root'.unmarked.get? "paths" = some (.mapping entries' span') ∧ entries'.Perm entries

theorem location_of_mem_pathPlaces {root : Node} {p : Place} (h : p ∈ pathPlaces root) :
    p.location = (Location.root.field "paths").key p.name := by
  obtain ⟨x, -, rfl⟩ := List.mem_map.1 (List.mem_filter.1 h).1
  rfl

/-- Of two path items with different templates, one has nothing at a pointer. -/
theorem order_filter_eq_nil {root : Node} {v : SpecVersion} {p q : Place} (hp : p ∈ pathPlaces root)
    (hq : q ∈ pathPlaces root) (hne : p.name ≠ q.name) (pointer : String) :
    (p.order v).filter (·.pointer == pointer) = [] ∨
      (q.order v).filter (·.pointer == pointer) = [] := by
  have hapart : p.location.Apart q.location := by
    rw [location_of_mem_pathPlaces hp, location_of_mem_pathPlaces hq]
    exact .of_ne hne (Location.texts_key ..) (Location.texts_key ..)
  by_contra hboth
  rw [not_or] at hboth
  obtain ⟨x, hx⟩ := List.exists_mem_of_ne_nil _ hboth.1
  obtain ⟨y, hy⟩ := List.exists_mem_of_ne_nil _ hboth.2
  obtain ⟨hx, hxp⟩ := List.mem_filter.1 hx
  obtain ⟨hy, hyp⟩ := List.mem_filter.1 hy
  have htexts : x.location.texts = y.location.texts :=
    Location.pointer_eq_iff.1 ((eq_of_beq hxp).trans (eq_of_beq hyp).symm)
  have hbelow := hapart.below (Place.texts_of_mem_order hx) (Place.texts_of_mem_order hy)
  exact hbelow.1 (htexts ▸ List.prefix_refl _)

namespace Reordered

variable {root root' : Node} (h : Reordered root root')
include h

theorem places_eq {field : String} (hfield : field ≠ "paths") (role : Role) (l : Location) :
    Member.places ⟨field, .entries, role⟩ root'.unmarked l =
      Member.places ⟨field, .entries, role⟩ root.unmarked l := by
  simp only [Member.places, h.others field hfield]

theorem componentPlaces_eq (v : SpecVersion) :
    componentPlaces v root'.unmarked = componentPlaces v root.unmarked := by
  unfold componentPlaces
  split
  · refine List.flatMap_congr fun x hx => ?_
    have hsections : ∀ x ∈ Loading.swagger2Sections, x.1 ≠ "paths" := by decide
    exact h.places_eq (hsections x hx) _ _
  · rw [h.others "components" (by decide)]

theorem pathPlaces_perm : (pathPlaces root'.unmarked).Perm (pathPlaces root.unmarked) := by
  obtain ⟨entries, entries', span, span', hpaths, hpaths', hperm⟩ := h.paths
  unfold pathPlaces Member.places
  dsimp only
  rw [hpaths, hpaths']
  exact ((hperm.map _).map _).filter _

/-- Path items with different templates are read at any pointer in one order. -/
theorem placesAt_eq (hnodup : ((pathPlaces root).map Place.name).Nodup) (v : SpecVersion)
    (pointer : String) :
    placesAt (readingOrder v root') pointer = placesAt (readingOrder v root) pointer := by
  have hone : (pathPlaces root.unmarked).Pairwise fun p q =>
      (p.order v).filter (·.pointer == pointer) = [] ∨
        (q.order v).filter (·.pointer == pointer) = [] := by
    have hnames : ((pathPlaces root.unmarked).map Place.name).Nodup := by
      rw [pathPlaces_unmarked, List.map_map]
      exact hnodup
    rw [List.Nodup, List.pairwise_map] at hnames
    exact hnames.imp_of_mem fun hp hq hne => order_filter_eq_nil hp hq hne pointer
  rw [placesAt, placesAt, ← readingOrder_unmarked, ← readingOrder_unmarked]
  simp only [readingOrder, List.filter_append, List.filter_flatMap, h.componentPlaces_eq,
    flatMap_eq_of_perm h.pathPlaces_perm.symm hone]

end Reordered

/-! ## What is declared in another order -/

namespace Route

section
variable (d : Document) (p : Place)

@[simp]
theorem firstType?_unmarked (n : Node) : firstType? n.unmarked = firstType? n := by
  rw [firstType?, firstType?, Node.get?_unmarked]
  cases n.get? "type" <;> simp

@[simp]
theorem slotType?_unmarked : slotType? d p.unmarked = slotType? d p := by
  simp [slotType?]

@[simp]
theorem ownDeclaration_unmarked : ownDeclaration d p.unmarked = ownDeclaration d p := by
  simp [ownDeclaration, Place.placesOf_unmarked, Option.bind_map]

@[simp]
theorem declarationAt?_unmarked : declarationAt? d p.unmarked = declarationAt? d p := by
  simp [declarationAt?]

/-- The types of a path item do not depend on marks. -/
theorem typesAt_unmarked : typesAt d p.unmarked = typesAt d p := by
  have hat : declarationAt? d ∘ Place.unmarked = declarationAt? d :=
    funext (declarationAt?_unmarked d)
  have hlists : (p.unmarked.operations.flatMap (·.placesOf .parameters)) =
      (p.operations.flatMap (·.placesOf .parameters)).map Place.unmarked := by
    simp only [Place.operations_unmarked, List.flatMap_map, Place.placesOf_unmarked,
      List.map_flatMap]
  rw [typesAt, typesAt, hlists, Place.placesOf_unmarked, ← List.map_append, List.filterMap_map, hat]

end

theorem ownDeclaration_congr {d d' : Document} (hversion : d'.specVersion = d.specVersion)
    (htype : referredType? d' = referredType? d) : ownDeclaration d' = ownDeclaration d := by
  have hslot : slotType? d' = slotType? d := by
    funext p
    rw [slotType?, slotType?, htype]
  funext p
  rw [ownDeclaration, ownDeclaration, hversion, hslot]

/-- What is declared at a place goes by what references lead to. -/
theorem typesAt_congr {d d' : Document} (hversion : d'.specVersion = d.specVersion)
    (htype : referredType? d' = referredType? d)
    (hdeclaration : referredDeclaration? d' = referredDeclaration? d) : typesAt d' = typesAt d := by
  have hown := ownDeclaration_congr hversion htype
  have hat : declarationAt? d' = declarationAt? d := by
    funext p
    rw [declarationAt?, declarationAt?, hdeclaration, hown]
  funext p
  rw [typesAt, typesAt, hat]

end Route

namespace Document

open Route

section
variable {d d' : Document} {draft draft' : Draft} (hd : d.Loaded draft) (hd' : d'.Loaded draft')
  (hversion : d'.specVersion = d.specVersion)
include hd hd' hversion

/-- Counterparts are schemas of one type, if schemas at all. -/
theorem targetType?_eq {t t' : Target} (h : Counterparts d.specVersion d.root d'.root t t') :
    targetType? d' t' = targetType? d t := by
  obtain ⟨a, p, a', p', hp, href, ht, hp', href', ht', hplace⟩ := h
  have hrole : p'.role = p.role := Place.role_eq_of_unmarked hplace
  have htype : firstType? p'.node = firstType? p.node := by
    rw [← firstType?_unmarked, ← firstType?_unmarked p.node]
    exact congrArg (fun q : Place => firstType? q.node) hplace
  rw [(hd.of_target hp href ht).1, (hd'.of_target (hversion ▸ hp') href' ht').1, hrole, htype]

/-- Counterparts are parameters that declare the same, if parameters at all. -/
theorem targetDeclaration?_eq {t t' : Target}
    (h : Counterparts d.specVersion d.root d'.root t t')
    (htype : referredType? d' = referredType? d) :
    targetDeclaration? d' t' = targetDeclaration? d t := by
  obtain ⟨a, p, a', p', hp, href, ht, hp', href', ht', hplace⟩ := h
  have hrole : p'.role = p.role := Place.role_eq_of_unmarked hplace
  have hown : ownDeclaration d' p' = ownDeclaration d p := by
    rw [ownDeclaration_congr hversion htype, ← ownDeclaration_unmarked, hplace,
      ownDeclaration_unmarked]
  rw [(hd.of_target hp href ht).2, (hd'.of_target (hversion ▸ hp') href' ht').2, hrole, hown]

variable (h : Reordered d.root d'.root) (hnodup : ((pathPlaces d.root).map Place.name).Nodup)
include h hnodup

/-- References lead to counterparts. -/
theorem rel_resolve (text : String) :
    Option.Rel (Counterparts d.specVersion d.root d'.root) (d.resolve text) (d'.resolve text) := by
  rw [resolve, resolve, hd.pointers_eq, hd'.pointers_eq, hversion]
  exact rel_resolveWithin (h.placesAt_eq hnodup d.specVersion) Pointers.maxHops text

theorem referredType?_eq : referredType? d' = referredType? d := by
  funext text
  have hrel := rel_resolve hd hd' hversion h hnodup text
  rw [referredType?, referredType?]
  generalize d.resolve text = found, d'.resolve text = found' at hrel ⊢
  cases hrel with
  | none => rfl
  | some hcounter => exact targetType?_eq hd hd' hversion hcounter

theorem referredDeclaration?_eq : referredDeclaration? d' = referredDeclaration? d := by
  have htype := referredType?_eq hd hd' hversion h hnodup
  funext text
  have hrel := rel_resolve hd hd' hversion h hnodup text
  rw [referredDeclaration?, referredDeclaration?]
  generalize d.resolve text = found, d'.resolve text = found' at hrel ⊢
  cases hrel with
  | none => rfl
  | some hcounter => exact targetDeclaration?_eq hd hd' hversion hcounter htype

/-- **What counts of the path items** does not depend on their order, where their parameters are
settled. -/
theorem signatures_perm (hsettled : d.ParametersSettled) (hsettled' : d'.ParametersSettled) :
    (d'.paths.toList.map (signature d')).Perm (d.paths.toList.map (signature d)) := by
  have htypes : typesAt d' = typesAt d :=
    typesAt_congr hversion (referredType?_eq hd hd' hversion h hnodup)
      (referredDeclaration?_eq hd hd' hversion h hnodup)
  have hunmarked : ∀ root : Node, (pathPlaces root).map (fun p => (p.name, typesAt d p)) =
      (pathPlaces root.unmarked).map fun p => (p.name, typesAt d p) := by
    intro root
    rw [pathPlaces_unmarked, List.map_map]
    exact List.map_congr_left fun p _ => by simp [typesAt_unmarked]
  rw [hd.signatures hsettled, hd'.signatures hsettled', htypes, hunmarked, hunmarked d.root]
  exact h.pathPlaces_perm.map _

end

/-! ## Loading in another order -/

/-- The version of the document that a tree loads as. -/
def specVersion? (root : Node) : Option SpecVersion :=
  (root.get? "openapi" <|> root.get? "swagger").map fun n => .ofText (versionText n)

/-- A tree that says its version loads. -/
theorem exists_ofNode_iff {root : Node} {v : SpecVersion} :
    (∃ d, ofNode root = .ok d ∧ d.specVersion = v) ↔ specVersion? root = some v := by
  have hmapping : root.isMapping = false → specVersion? root = none := by
    intro h
    cases root with
    | mapping _ _ => cases h
    | _ => rfl
  unfold ofNode
  cases hm : root.isMapping with
  | false =>
    rw [hmapping hm]
    constructor
    · rintro ⟨d, hd, -⟩
      cases hd
    · exact nofun
  | true =>
    rw [specVersion?]
    cases hv : (root.get? "openapi" <|> root.get? "swagger") with
    | none =>
      constructor
      · rintro ⟨d, hd, -⟩
        cases hd
      · exact nofun
    | some n =>
      constructor
      · rintro ⟨d, hd, rfl⟩
        cases hd
        rfl
      · intro h
        exact ⟨_, rfl, Option.some.inj h⟩

theorem versionText_unmarked (n : Node) : versionText n.unmarked = versionText n := by
  have hkey := n.keyText_unmarked
  cases n with
  | scalar value _ => cases value <;> rfl
  | _ => exact hkey

@[simp]
theorem specVersion?_unmarked (root : Node) : specVersion? root.unmarked = specVersion? root := by
  rw [specVersion?, specVersion?, Node.get?_unmarked, Node.get?_unmarked]
  cases root.get? "openapi" <;> cases root.get? "swagger" <;> simp [versionText_unmarked]

end Document

namespace Reordered

variable {root root' : Node} (h : Reordered root root')
include h

theorem specVersion?_eq : Document.specVersion? root' = Document.specVersion? root := by
  rw [← Document.specVersion?_unmarked, ← Document.specVersion?_unmarked root]
  rw [Document.specVersion?, Document.specVersion?, h.others "openapi" (by decide),
    h.others "swagger" (by decide)]

theorem readingOrder_perm (v : SpecVersion) :
    (readingOrder v root'.unmarked).Perm (readingOrder v root.unmarked) := by
  rw [readingOrder, readingOrder, h.componentPlaces_eq]
  exact (h.pathPlaces_perm.flatMap_right _).append_left _

/-- The same references are read. -/
theorem exists_reference {v : SpecVersion} {p : Place} {text : String}
    (hp : p ∈ readingOrder v root') (href : p.reference? = some text) :
    ∃ q ∈ readingOrder v root, q.reference? = some text := by
  have hmem : p.unmarked ∈ (readingOrder v root).map Place.unmarked := by
    rw [← readingOrder_unmarked, ← (h.readingOrder_perm v).mem_iff, readingOrder_unmarked]
    exact List.mem_map_of_mem hp
  obtain ⟨q, hq, he⟩ := List.mem_map.1 hmem
  refine ⟨q, hq, ?_⟩
  rw [← href, ← p.reference?_unmarked, ← he, q.reference?_unmarked]

end Reordered

/-! ## Ambiguity -/

namespace Route

/-- **Ambiguity is symmetric and reflexive**, and declarations only take from it. So the ambiguous
pairs do not depend on the order of the path items, once these are loaded. Nor do they depend on
the order in which the items stand in the document, if the templates are different and the lists of
parameters hold what the finished document leads to. The latter is so in every order if no
reference leads below the paths. -/
theorem ambiguous_lawful (a : String) (aTypes : Types) (b : String) (bTypes : Types) :
    ambiguous a aTypes b bTypes = ambiguous b bTypes a aTypes ∧
    ambiguous a aTypes a aTypes = true ∧
    (∀ aTypes' bTypes', Restricts aTypes' aTypes → Restricts bTypes' bTypes →
      ambiguous a aTypes b bTypes = true → ambiguous a aTypes' b bTypes' = true) ∧
    (∀ (d : Document) (paths : Array PathItem), paths.toList.Perm d.paths.toList →
      (collisions { d with paths }).Perm (collisions d)) ∧
    ∀ root root' d, Reordered root root' → Document.ofNode root = .ok d →
      (d.paths.toList.map (·.template)).Nodup →
      ∃ d', Document.ofNode root' = .ok d' ∧
        (d.ParametersSettled → d'.ParametersSettled →
          ((collisions d').map (Sym2.map (·.template))).Perm
            ((collisions d).map (Sym2.map (·.template)))) ∧
        ((∀ r ∈ d.references.all, r.text.startsWith "#/paths/" = false) →
          d.ParametersSettled ∧ d'.ParametersSettled) := by
  refine ⟨ambiguous_comm .., ambiguous_self .., fun _ _ ha hb => ambiguous_of_restricts ha hb,
    fun d paths hperm => ?_, fun root root' d h hok hnodup => ?_⟩
  · rw [collisions_eq, collisions_eq]
    exact pairsBy_perm (collide_comm d) hperm
  obtain ⟨rfl, draft, hd⟩ := Document.loaded_of_ofNode hok
  have hversion' : Document.specVersion? root' = some d.specVersion := by
    rw [h.specVersion?_eq]
    exact Document.exists_ofNode_iff.1 ⟨d, hok, rfl⟩
  obtain ⟨d', hok', hversion⟩ := Document.exists_ofNode_iff.2 hversion'
  obtain ⟨rfl, draft', hd'⟩ := Document.loaded_of_ofNode hok'
  refine ⟨d', hok', fun hsettled hsettled' => ?_, fun hout => ⟨hd.parametersSettled hout, ?_⟩⟩
  · rw [hd.templates] at hnodup
    have hperm := collisions_perm <|
      Document.signatures_perm hd hd' hversion h hnodup hsettled hsettled'
    have htemplate : ∀ d : Document, (collisions d).map (Sym2.map (·.template)) =
        ((collisions d).map (Sym2.map (signature d))).map (Sym2.map Prod.fst) := by
      intro d
      rw [List.map_map, ← Sym2.map_comp]
      rfl
    rw [htemplate, htemplate]
    exact hperm.map _
  · refine hd'.parametersSettled fun r hr => ?_
    obtain ⟨p, hp, href⟩ := hd'.mem_references_iff.1 ⟨r, hr, rfl⟩
    obtain ⟨q, hq, hqref⟩ := h.exists_reference (hversion ▸ hp) href
    obtain ⟨s, hs, hsr⟩ := hd.mem_references_iff.2 ⟨q, hq, hqref⟩
    rw [← hsr]
    exact hout s hs

/-- A document with paths and what it has besides. -/
def arranged (paths others : List (String × Node)) : Node :=
  .table 1 (("openapi", .word "3.1.0" 1) :: ("paths", .table 3 paths) :: others)

theorem reordered_arranged {paths paths' : List (String × Node)} (h : paths'.Perm paths)
    (others : List (String × Node)) :
    Reordered (arranged paths others) (arranged paths' others) where
  others name hname := by
    have hpaths : ("paths" == name) = false := beq_eq_false_iff_ne.2 hname.symm
    simp [arranged, Node.table_unmarked, Node.get?, Node.entry?, Node.entries?, List.find?_cons,
      Node.str?, hpaths]
  paths := by
    have hget : ∀ paths, (arranged paths others).unmarked.get? "paths" =
        some (.mapping (paths.map fun x => (.scalar (.text x.1) Node.noSpan, x.2.unmarked))
          Node.noSpan) := by
      intro paths
      rw [arranged, Node.table_unmarked]
      exact congrArg some (Node.table_unmarked 3 paths)
    exact ⟨_, _, _, _, hget paths, hget paths', h.map _⟩

/-- A path for all pets by number, which a parameter says that stands outside of the paths, and
paths for two of them. -/
def numbered : List (String × Node) :=
  [("/pets/\x7bid\x7d", .table 4 [("parameters",
      .sequence [.pointTo 5 "#/components/parameters/Id"] ⟨⟨5, 7⟩, ⟨6, 3⟩⟩)]),
    ("/pets/42", .table 7 []),
    ("/pets/mine", .table 8 [])]

def outside : List (String × Node) :=
  [("components", .table 10 [("parameters", .table 11 [("Id", .table 12 [
    ("name", .word "id" 12), ("in", .word "path" 13),
    ("schema", .table 15 [("type", .word "integer" 15)])])])])]

theorem ambiguous_lawful_reversed : ∃ d d', Document.ofNode (arranged numbered outside) = .ok d ∧
    Document.ofNode (arranged numbered.reverse outside) = .ok d' ∧
    ambiguousPairs d = [(0, 1)] ∧ ambiguousPairs d' = [(1, 2)] ∧
    (collisions { d with paths := d.paths.reverse }).Perm (collisions d) ∧
    ((collisions d').map (Sym2.map (·.template))).Perm
      ((collisions d).map (Sym2.map (·.template))) ∧
    ambiguous "/pets/\x7bid\x7d" [] "/pets/42" [] = true := by
  have hrun : ((Document.ofNode (arranged numbered outside)).toOption.bind fun d =>
      some (ambiguousPairs d, decide (d.paths.toList.map (·.template)).Nodup,
        d.references.all.all fun r => !r.text.startsWith "#/paths/")) =
      some ([(0, 1)], true, true) := by decide +kernel
  have hrun' : ((Document.ofNode (arranged numbered.reverse outside)).toOption.bind fun d =>
      some (ambiguousPairs d)) = some [(1, 2)] := by decide +kernel
  obtain ⟨d, hd, h⟩ := Document.ofNode_of_toOption hrun
  obtain ⟨d'', hd'', h'⟩ := Document.ofNode_of_toOption hrun'
  simp only [Option.some.injEq, Prod.mk.injEq, decide_eq_true_eq, List.all_eq_true,
    Bool.not_eq_true'] at h h'
  obtain ⟨hpairs, hnodup, hout⟩ := h
  obtain ⟨-, -, hfewer, hperm, hreordered⟩ :=
    ambiguous_lawful "/pets/\x7bid\x7d" [("id", "integer")] "/pets/42" []
  obtain ⟨d', hd', hsame, hsettled⟩ :=
    hreordered _ _ d (reordered_arranged (List.reverse_perm numbered) outside) hd hnodup
  obtain ⟨hsettled, hsettled'⟩ := hsettled hout
  obtain rfl : d' = d'' := Except.ok.inj (hd'.symm.trans hd'')
  have hreverse : d.paths.reverse.toList.Perm d.paths.toList := by
    rw [Array.toList_reverse]
    exact List.reverse_perm _
  have hunnumbered : Restricts [] [("id", "integer")] := by simp [Restricts]
  exact ⟨d, d', hd, hd', hpairs, h', hperm d _ hreverse, hsame hsettled hsettled',
    hfewer _ _ hunnumbered (by simp [Restricts]) (by decide)⟩

/-- Dogs by a number, and pets by an identifier that the dogs' parameter describes. -/
def dogs : String × Node :=
  ("/dogs/\x7bid\x7d", .table 4 [("parameters", .sequence [.table 5 [
    ("name", .word "id" 5), ("in", .word "path" 6),
    ("schema", .table 8 [("type", .word "integer" 8)])]] ⟨⟨5, 7⟩, ⟨9, 3⟩⟩)])

def pets : List (String × Node) :=
  [("/pets/\x7bid\x7d", .table 10 [("parameters",
      .sequence [.pointTo 11 "#/paths/~1dogs~1\x7bid\x7d/parameters/0"] ⟨⟨11, 7⟩, ⟨12, 3⟩⟩)]),
    ("/pets/mine", .table 13 [])]

/-- With the dogs last, the pets are numbered no more, and `mine` may be one of them. -/
theorem exists_pairs_by_order : ∃ d d',
    Reordered (arranged (dogs :: pets) []) (arranged (pets ++ [dogs]) []) ∧
    Document.ofNode (arranged (dogs :: pets) []) = .ok d ∧
    Document.ofNode (arranged (pets ++ [dogs]) []) = .ok d' ∧
    (d.paths.toList.map (·.template)).Nodup ∧
    d'.resolve "#/paths/~1dogs~1\x7bid\x7d/parameters/0" = some (.parameter ⟨0⟩) ∧
    (collisions d).map (Sym2.map (·.template)) = [] ∧
    (collisions d').map (Sym2.map (·.template)) = [s("/pets/\x7bid\x7d", "/pets/mine")] := by
  have hrun : ((Document.ofNode (arranged (dogs :: pets) [])).toOption.bind fun d =>
      some (decide ((d.paths.toList.map (·.template)).Nodup ∧
        (collisions d).map (Sym2.map (·.template)) = []))) = some true := by decide +kernel
  have hrun' : ((Document.ofNode (arranged (pets ++ [dogs]) [])).toOption.bind fun d =>
      some (decide (d.resolve "#/paths/~1dogs~1\x7bid\x7d/parameters/0" = some (.parameter ⟨0⟩) ∧
        (collisions d).map (Sym2.map (·.template)) =
          [s("/pets/\x7bid\x7d", "/pets/mine")]))) = some true := by decide +kernel
  obtain ⟨d, hd, h⟩ := Document.ofNode_of_toOption hrun
  obtain ⟨d', hd', h'⟩ := Document.ofNode_of_toOption hrun'
  obtain ⟨hnodup, hnone⟩ := of_decide_eq_true (Option.some.inj h)
  obtain ⟨hresolve, hpair⟩ := of_decide_eq_true (Option.some.inj h')
  have hperm : (pets ++ [dogs]).Perm (dogs :: pets) := List.perm_append_comm
  exact ⟨d, d', reordered_arranged hperm [], hd, hd', hnodup, hresolve, hnone, hpair⟩

end Route

end ApiLint
