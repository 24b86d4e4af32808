import ApiLint.Proofs.Parting
import ApiLint.Proofs.Resolving

/-!
# The references and objects of a document

In a document that repeats no key, no reference is at or below another, and no object is at or below
a reference; in any document each object comes from one place (`ReadAfter.target?_inj`) and so has
one pointer. `Document.Separated` is all that the locator needs to know of a document.
-/

set_option autoImplicit false

namespace ApiLint

open Yaml (Node)

/-! ## Objects and their pointers -/

/-- Entries that are not looked into stand among the component entries only. -/
theorem ReadAfter.entry_of_opaque {v : SpecVersion} {root : Node} {h : List Place} {p : Place}
    (hp : ReadAfter v root h p) (hrole : p.role = .opaqueEntry) :
    ∃ ps e qs, componentPlaces v root = ps ++ e :: qs ∧
      h = ps.flatMap (Place.entryOrder v) ∧ p = e.held := by
  have hsite := hp.site
  rw [hrole] at hsite
  obtain ⟨ps, e, qs, -, he, -, rfl, rfl⟩ := hsite
  exact ⟨ps, e, qs, he, rfl, rfl⟩

/-- Component entries are read right after what they hold. -/
theorem ReadAfter.entry_of_component {v : SpecVersion} {root : Node} {h : List Place} {p : Place}
    {kind : ComponentKind} (hp : ReadAfter v root h p) (hrole : p.role = .component kind) :
    ∃ ps qs, componentPlaces v root = ps ++ p :: qs ∧
      h = ps.flatMap (Place.entryOrder v) ++ p.held.order v := by
  have hsite := hp.site
  rwa [hrole] at hsite

/-- What references to a place lead to tells how many objects there were. -/
theorem Role.target?_inj {r r' : Role} {n n' : Store → Nat} {t : Target}
    (h : r.target? n = some t) (h' : r'.target? n' = some t) :
    r = .opaqueEntry ∧ r' = .opaqueEntry ∧ n .components = n' .components ∨
      ∃ s, r.store? = some s ∧ n s = n' s := by
  cases r <;> simp only [target?, Option.some.injEq, reduceCtorEq] at h <;> subst h <;>
    cases r' <;> simp_all [target?, store?]

namespace ReadAfter

variable {v : SpecVersion} {root : Node} {h h' : List Place} {p p' : Place}

/-- Of two entries that are not looked into, the component of the first is counted before the
second. -/
theorem count_components_lt {e : List Place} (hp : ReadAfter v root h p)
    (hp' : ReadAfter v root (h ++ p :: e) p') (hrole : p.role = .opaqueEntry)
    (hrole' : p'.role = .opaqueEntry) :
    (Outline.after h).count .components < (Outline.after (h ++ p :: e)).count .components := by
  obtain ⟨ps, x, qs, hcut, rfl, -⟩ := hp.entry_of_opaque hrole
  obtain ⟨ps', x', qs', hcut', he, -⟩ := hp'.entry_of_opaque hrole'
  rcases append_eq_append_cons (hcut.symm.trans hcut') with ⟨e', rfl, hx⟩ | ⟨e', rfl, -⟩
  · cases e' with
    | nil =>
      have hlen := congrArg List.length he
      simp at hlen
    | cons y e' =>
      obtain ⟨rfl, -⟩ := List.cons.inj hx
      obtain ⟨kind, hkind⟩ := role_of_mem_componentPlaces (hcut ▸ List.mem_append_cons_self)
      have href : x.reference? = none := by simp [Place.reference?, Role.isSlot, hkind]
      have hcount := Outline.count_concat (s := .components)
        (ps.flatMap (Place.entryOrder v) ++ x.held.order v) href (by simp [Role.store?, hkind])
      have hle := Outline.count_le_append (ps.flatMap (Place.entryOrder v)) (x.held.order v)
        .components
      have hle' := Outline.count_le_append
        (ps.flatMap (Place.entryOrder v) ++ x.held.order v ++ [x])
        (e'.flatMap (Place.entryOrder v)) .components
      rw [he]
      simp only [List.flatMap_append, List.flatMap_cons, Place.entryOrder, List.append_assoc]
        at hcount hle' ⊢
      omega
  · have hlen := congrArg List.length he
    simp only [List.flatMap_append, List.length_append, List.length_cons] at hlen
    omega

/-- Later places become other objects. -/
theorem target?_ne {e : List Place} (hp : ReadAfter v root h p)
    (hp' : ReadAfter v root (h ++ p :: e) p') (href : p.reference? = none) {t : Target}
    (ht : p.role.target? (Outline.after h).count = some t) :
    p'.role.target? (Outline.after (h ++ p :: e)).count ≠ some t := by
  intro ht'
  rcases Role.target?_inj ht ht' with ⟨hrole, hrole', hcount⟩ | ⟨s, hs, hcount⟩
  · exact absurd hcount (Nat.ne_of_lt (count_components_lt hp hp' hrole hrole'))
  · have hone := Outline.count_concat h href hs
    have hle := Outline.count_le_append (h ++ [p]) e s
    rw [List.append_assoc, List.singleton_append] at hle
    omega

/-- An object comes from one place. -/
theorem target?_inj (hp : ReadAfter v root h p) (hp' : ReadAfter v root h' p')
    (href : p.reference? = none) (href' : p'.reference? = none) {t : Target}
    (ht : p.role.target? (Outline.after h).count = some t)
    (ht' : p'.role.target? (Outline.after h').count = some t) : p = p' := by
  obtain ⟨b, hb⟩ := readAfter_iff.1 hp
  obtain ⟨b', hb'⟩ := readAfter_iff.1 hp'
  rcases append_eq_append_cons (hb.symm.trans hb') with ⟨e, rfl, he⟩ | ⟨e, rfl, -⟩
  · cases e with
    | nil => exact (List.cons.inj he).1
    | cons q e =>
      obtain ⟨rfl, -⟩ := List.cons.inj he
      exact absurd ht' (hp.target?_ne hp' href ht)
  · exact absurd ht (hp'.target?_ne hp href' ht')

end ReadAfter

/-- The references met are those of the places read. -/
theorem Outline.met_after (ps : List Place) :
    (after ps).met.toList = ps.filterMap fun p => p.reference?.map (·, p.origin) := by
  induction ps using List.reverseRecOn with
  | nil => rfl
  | append_singleton ps p ih =>
    rw [after_concat, List.filterMap_append, ← ih]
    unfold read
    cases href : p.reference? with
    | some text => simp [link, href]
    | none =>
      have hreg : ((after ps).register p).met = (after ps).met := by
        unfold register
        split <;> rfl
      simp [bump, hreg, href]

/-! ## Documents -/

namespace Document

/-- The references and objects of a document lie apart. -/
structure Separated (d : Document) : Prop where
  /-- No reference is at or below another. -/
  references : d.references.all.Pairwise fun r s => r.origin.location.Apart s.origin.location
  /-- No object is at or below a reference. -/
  objects : ∀ r ∈ d.references.all, ∀ l t, d.objectAt? l = some t →
    ¬r.origin.location.texts <+: l.texts
  /-- An object has one pointer. -/
  pointers : ∀ l m t, d.objectAt? l = some t → d.objectAt? m = some t → l.texts = m.texts
  plain : ∀ r ∈ d.references.all, r.origin.location.isPlain = true

/-- What is registered at a pointer comes from a place there. -/
theorem Loaded.place_of_pointer {d : Document} {draft : Draft} (hd : d.Loaded draft)
    {pointer : String} {t : Target} (h : d.pointers.objectAt? pointer = some t) :
    ∃ h p, ReadAfter d.specVersion d.root h p ∧ p.reference? = none ∧
      p.role.target? (Outline.after h).count = some t ∧ p.pointer = pointer := by
  rw [hd.pointers_eq] at h
  obtain ⟨ps, p, b, horder, -, hpointer, hdef⟩ := ((Outline.objectAt?_after _ _).2 t).2 h
  unfold definition at hdef
  split at hdef
  · rename_i href
    exact ⟨ps, p, readAfter_iff.2 ⟨b, horder⟩, href, hdef, hpointer⟩
  · cases hdef

/-- An object comes from a place at its pointer. -/
theorem Loaded.place_of_objectAt {d : Document} {draft : Draft} (hd : d.Loaded draft)
    {l : Location} {t : Target} (h : d.objectAt? l = some t) :
    ∃ h p, ReadAfter d.specVersion d.root h p ∧ p.reference? = none ∧
      p.role.target? (Outline.after h).count = some t ∧ p.location.texts = l.texts := by
  obtain ⟨ps, p, hp, href, ht, hpointer⟩ := hd.place_of_pointer h
  exact ⟨ps, p, hp, href, ht, Location.pointer_eq_iff.1 hpointer⟩

/-- The references are those of the places read. -/
theorem Loaded.origins_references {d : Document} {draft : Draft} (hd : d.Loaded draft) :
    d.references.all.map (·.origin) =
      (readingOrder d.specVersion d.root).filterMap fun p => p.reference?.map fun _ => p.origin := by
  rw [hd.references, hd.met_eq, Outline.met_after, List.map_map, List.map_filterMap]
  refine List.filterMap_congr fun p _ => ?_
  cases p.reference? <;> rfl

theorem Loaded.place_of_reference {d : Document} {draft : Draft} (hd : d.Loaded draft)
    {r : Reference} (hr : r ∈ d.references.all) :
    ∃ p ∈ readingOrder d.specVersion d.root, p.reference? ≠ none ∧ p.location = r.origin.location := by
  have hr := List.mem_map_of_mem (f := fun r : Reference => r.origin) hr
  rw [hd.origins_references, List.mem_filterMap] at hr
  obtain ⟨p, hp, ho⟩ := hr
  obtain ⟨text, href, ho⟩ := Option.map_eq_some_iff.1 ho
  exact ⟨p, hp, by simp [href], congrArg Origin.location ho⟩

theorem role_ne_component {p : Place} (href : p.reference? ≠ none) (kind : ComponentKind) :
    p.role ≠ .component kind := by
  intro hrole
  exact href (by simp [Place.reference?, Role.isSlot, hrole])

section
variable {d : Document} {draft : Draft} (hd : d.Loaded draft)
include hd

/-- No reference is at or below another. -/
theorem Loaded.references_apart (hkeys : d.root.keysDistinct = true) :
    d.references.all.Pairwise fun r s => r.origin.location.Apart s.origin.location := by
  rw [← List.pairwise_map (f := fun r : Reference => r.origin)
    (R := fun o o' => o.location.Apart o'.location), hd.origins_references, List.pairwise_filterMap]
  refine (readingOrder_clear d.specVersion hkeys).imp fun {p q} hpq o ho o' ho' => ?_
  obtain ⟨text, hp, rfl⟩ := Option.map_eq_some_iff.1 ho
  obtain ⟨text', hq, rfl⟩ := Option.map_eq_some_iff.1 ho'
  have hp : p.reference? ≠ none := by simp [hp]
  have hq : q.reference? ≠ none := by simp [hq]
  exact ⟨hpq.1 hp (role_ne_component hq), hpq.2 hq⟩

/-- No object is at or below a reference. -/
theorem Loaded.objects_clear (hkeys : d.root.keysDistinct = true) {r : Reference} {l : Location}
    {t : Target} (hr : r ∈ d.references.all) (ht : d.objectAt? l = some t) :
    ¬r.origin.location.texts <+: l.texts := by
  obtain ⟨p, hp, href, hpl⟩ := hd.place_of_reference hr
  obtain ⟨h, q, hq, hqref, hqt, hql⟩ := hd.place_of_objectAt ht
  obtain ⟨b, horder⟩ := readAfter_iff.1 hq
  rw [← hql, ← hpl]
  refine not_prefix_of_reference hkeys hp (horder ▸ List.mem_append_cons_self) href hqref ?_
  intro kind hrole
  simp [hrole, Role.target?] at hqt

/-- **A document that repeats no key** keeps its references and objects apart. -/
theorem Loaded.separated (hkeys : d.root.keysDistinct = true) : d.Separated where
  references := hd.references_apart hkeys
  objects r hr l t ht := hd.objects_clear hkeys hr ht
  pointers l m t hl hm := by
    obtain ⟨h, p, hp, href, ht, htexts⟩ := hd.place_of_objectAt hl
    obtain ⟨h', p', hp', href', ht', htexts'⟩ := hd.place_of_objectAt hm
    rw [← htexts, ← htexts', hp.target?_inj hp' href href' ht ht']
  plain r hr := by
    obtain ⟨p, hp, -, hpl⟩ := hd.place_of_reference hr
    rw [← hpl]
    exact isPlain_of_mem_readingOrder hp

end

end Document

end ApiLint
