import ApiLint.Proofs.Documents
import Mathlib.Data.List.Induction

/-!
# Where a place is read

`ReadAfter v root h p`: the place `p` is read right after the places `h`. It follows the structure
of a document, and says the same as that `h` and `p` come one after the other in `readingOrder`
(`readAfter_iff`). Every object of a document comes from a place (`Document.Loaded.place_of_arena`).
-/

set_option autoImplicit false

namespace ApiLint

open Yaml (Node)

/-- The place is read right after the places `h`. -/
inductive ReadAfter (v : SpecVersion) (root : Node) : List Place → Place → Prop
  | entry {ps qs : List Place} {e : Place} : componentPlaces v root = ps ++ e :: qs →
      ReadAfter v root (ps.flatMap (Place.entryOrder v)) e.held
  | component {ps qs : List Place} {e : Place} : componentPlaces v root = ps ++ e :: qs →
      ReadAfter v root (ps.flatMap (Place.entryOrder v) ++ e.held.order v) e
  | path {ps qs : List Place} {e : Place} : pathPlaces root = ps ++ e :: qs →
      ReadAfter v root ((componentPlaces v root).flatMap (Place.entryOrder v) ++
        ps.flatMap (Place.order v)) e
  | own {h : List Place} {q : Place} : ReadAfter v root h q → q.isOwnSchema v = true →
      ReadAfter v root (h ++ [q]) { q with role := .ownSchema }
  | part {h ps qs : List Place} {q r : Place} : ReadAfter v root h q →
      q.parts v = ps ++ r :: qs →
      ReadAfter v root (h ++ q :: (q.own v ++ ps.flatMap (Place.order v))) r

namespace ReadAfter

variable {v : SpecVersion} {root : Node}

theorem role_of_mem_componentPlaces {e : Place} (h : e ∈ componentPlaces v root) :
    ∃ kind, e.role = .component kind := by
  rcases exists_of_mem_componentPlaces h with ⟨x, -, he⟩ | ⟨node, kind, -, he⟩
  · exact ⟨x.2, Follows.role_of_mem_places he⟩
  · exact ⟨kind, Follows.role_of_mem_places he⟩

theorem role_of_mem_pathPlaces {e : Place} (h : e ∈ pathPlaces root) : e.role = .pathItem :=
  Follows.role_of_mem_places (List.mem_filter.1 h).1

/-- Component entries, and schemas that stand for a parameter or header, have no parts. -/
theorem order_eq_singleton {p : Place} (hrole : p.role = .ownSchema ∨ ∃ k, p.role = .component k) :
    p.order v = [p] := by
  have hne : p.role ≠ .parameter ∧ p.role ≠ .header ∧ p.role ≠ .pathItem ∧
      p.reference? = none ∧ p.members v = [] := by
    rcases hrole with hrole | ⟨k, hrole⟩ <;>
      simp [hrole, Place.reference?, Role.isSlot, Place.members]
  obtain ⟨hparameter, hheader, hpath, href, hmembers⟩ := hne
  rw [Follows.order_object href hpath, Follows.own_eq_nil hparameter hheader, hmembers]
  rfl

/-- All that stands below a place is read right after it. -/
theorem readingOrder_eq {h : List Place} {p : Place} (hp : ReadAfter v root h p) :
    ∃ b, readingOrder v root = h ++ p.order v ++ b := by
  induction hp with
  | entry he => exact ⟨_, by simp [readingOrder, he, Place.entryOrder]; rfl⟩
  | @component ps qs e he =>
    have horder : e.order v = [e] :=
      order_eq_singleton (.inr (role_of_mem_componentPlaces (he ▸ List.mem_append_cons_self)))
    exact ⟨_, by simp [readingOrder, he, Place.entryOrder, horder]; rfl⟩
  | path he => exact ⟨_, by simp [readingOrder, he]; rfl⟩
  | @own h q _ hself ih =>
    obtain ⟨b, hb⟩ := ih
    rw [order_eq_singleton (.inl rfl)]
    rw [hb, Place.order_eq, Place.own, if_pos hself]
    exact ⟨_, by simp; rfl⟩
  | part _ hq ih =>
    obtain ⟨b, hb⟩ := ih
    exact ⟨_, by rw [hb, Place.order_eq, hq]; simp; rfl⟩

/-- All that a place is read with is read. -/
theorem of_order {h a b : List Place} {q p : Place} (hq : ReadAfter v root h q)
    (hp : q.order v = a ++ p :: b) : ReadAfter v root (h ++ a) p := by
  rw [Place.order_eq] at hp
  rcases List.cons_eq_append_iff.1 hp with ⟨rfl, hhead⟩ | ⟨a, rfl, htail⟩
  · obtain ⟨rfl, -⟩ := List.cons.inj hhead
    rwa [List.append_nil]
  rcases append_eq_append_cons htail with ⟨e, rfl, hparts⟩ | ⟨e, hown, -⟩
  · obtain ⟨ps, r, qs, a', b', hq', hr, rfl⟩ := flatMap_eq_append_cons hparts
    have hlt : r.node.size < q.node.size :=
      Place.size_lt_of_mem_parts (hq' ▸ List.mem_append_cons_self)
    simpa using of_order (hq.part hq') hr
  · unfold Place.own at hown
    split at hown
    · rename_i hself
      obtain ⟨rfl, rfl⟩ := singleton_eq_append_cons hown
      exact hq.own hself
    · simp at hown
termination_by q.node.size

end ReadAfter

/-- Where places are read can be told from the order, and the other way round. -/
theorem readAfter_iff {v : SpecVersion} {root : Node} {h : List Place} {p : Place} :
    ReadAfter v root h p ↔ ∃ b, readingOrder v root = h ++ p :: b := by
  constructor
  · intro hp
    obtain ⟨b, hb⟩ := hp.readingOrder_eq
    rw [Place.order_eq] at hb
    exact ⟨_, by rw [hb, List.append_assoc]; rfl⟩
  · rintro ⟨b, hb⟩
    unfold readingOrder at hb
    rcases append_eq_append_cons hb with ⟨e, rfl, hpaths⟩ | ⟨e, hcomponents, -⟩
    · obtain ⟨ps, r, qs, a', b', hcut, hr, rfl⟩ := flatMap_eq_append_cons hpaths
      simpa using (ReadAfter.path hcut).of_order hr
    · obtain ⟨ps, r, qs, a', b', hcut, hr, rfl⟩ := flatMap_eq_append_cons hcomponents
      rcases append_eq_append_cons hr with ⟨e, rfl, hlast⟩ | ⟨e, hheld, -⟩
      · obtain ⟨rfl, rfl⟩ := singleton_eq_append_cons hlast
        simpa using ReadAfter.component hcut
      · exact (ReadAfter.entry hcut).of_order hheld

/-- What is read before one of several places side by side. -/
theorem mem_moments {v : SpecVersion} {h qs h' : List Place} {q : Place}
    (hq : (h', q) ∈ moments v h qs) :
    ∃ ps rs, qs = ps ++ q :: rs ∧ h' = h ++ ps.flatMap (Place.order v) := by
  induction qs generalizing h with
  | nil => cases hq
  | cons r qs ih =>
    rcases List.mem_cons.1 hq with he | hq
    · obtain ⟨rfl, rfl⟩ := Prod.mk.inj he
      exact ⟨[], qs, rfl, by simp⟩
    · obtain ⟨ps, rs, rfl, rfl⟩ := ih hq
      exact ⟨r :: ps, rs, rfl, by simp⟩

/-- A place is read at its moment among those that it stands with. -/
theorem mem_moments_of_cut (v : SpecVersion) (h : List Place) {as bs cs ps qs : List Place}
    {p : Place} (hcut : as ++ bs ++ cs = ps ++ p :: qs) (has : p ∉ as) (hcs : p ∉ cs) :
    (h ++ ps.flatMap (Place.order v), p) ∈ moments v (h ++ as.flatMap (Place.order v)) bs := by
  rw [List.append_assoc] at hcut
  rcases append_eq_append_cons hcut with ⟨e, rfl, hrest⟩ | ⟨e, rfl, -⟩
  · rcases append_eq_append_cons hrest with ⟨e', -, rfl⟩ | ⟨e', rfl, -⟩
    · exact absurd List.mem_append_cons_self hcs
    · simp [moments_append, moments]
  · exact absurd List.mem_append_cons_self has

namespace ReadAfter

variable {v : SpecVersion} {root : Node} {h : List Place} {p q : Place}

/-- Path items are read after the component entries. -/
theorem of_mem_paths (hp : (h, p) ∈ moments v ((componentPlaces v root).flatMap
    (Place.entryOrder v)) (pathPlaces root)) : ReadAfter v root h p ∧ p.role = .pathItem := by
  obtain ⟨ps, rs, hcut, rfl⟩ := mem_moments hp
  exact ⟨.path hcut, role_of_mem_pathPlaces (hcut ▸ List.mem_append_cons_self)⟩

/-- Parts side by side are read after what is before them. -/
theorem of_mem_moments {ps qs rs h' : List Place} (hp : ReadAfter v root h p)
    (hparts : p.parts v = ps ++ qs ++ rs)
    (hq : (h', q) ∈ moments v (h ++ p :: (p.own v ++ ps.flatMap (Place.order v))) qs) :
    ReadAfter v root h' q := by
  obtain ⟨as, bs, rfl, rfl⟩ := mem_moments hq
  have hcut : p.parts v = (ps ++ as) ++ q :: (bs ++ rs) := by simpa using hparts
  simpa using hp.part hcut

/-- The operations of a path item are read after its parameters. -/
theorem of_mem_operations (hp : ReadAfter v root h p) (hrole : p.role = .pathItem)
    {h' : List Place} (hq : (h', q) ∈ moments v
      (h ++ [p] ++ (p.placesOf .parameters).flatMap (Place.order v)) p.operations) :
    ReadAfter v root h' q := by
  have hown : p.own v = [] := Follows.own_eq_nil (by simp [hrole]) (by simp [hrole])
  have hparts : p.parts v = p.placesOf .parameters ++ p.operations ++ [] := by
    simp [Place.parts, Place.reference?, Role.isSlot, hrole, Place.members, Place.placesOf]
  exact hp.of_mem_moments hparts (by simpa [hown] using hq)

end ReadAfter

/-- Every object counted comes from a place. -/
theorem Outline.exists_place_of_lt {ps : List Place} {s : Store} {i : Nat}
    (h : i < (after ps).count s) :
    ∃ a p b, ps = a ++ p :: b ∧ p.reference? = none ∧ p.role.store? = some s ∧
      (after a).count s = i := by
  induction ps using List.reverseRecOn with
  | nil => cases h
  | append_singleton ps p ih =>
    by_cases hlt : i < (after ps).count s
    · obtain ⟨a, q, b, rfl, hq⟩ := ih hlt
      exact ⟨a, q, b ++ [p], by simp, hq⟩
    · rw [after_concat, count_read] at h
      split at h
      · rename_i hp
        exact ⟨ps, p, [], rfl, hp.1, hp.2, by omega⟩
      · exact absurd h hlt

namespace Document.Loaded

variable {d : Document} {draft : Draft}

/-- An object comes from a place that it has been built from. -/
theorem place_of_arena_built (hd : d.Loaded draft) {s : Store} {i : Nat} {x : s.Object}
    (hx : (draft.arena s)[i]? = some x) :
    ∃ h p, ReadAfter d.specVersion d.root h p ∧ p.reference? = none ∧ p.role.store? = some s ∧
      (Outline.after h).count s = i ∧ p.Describes d.specVersion h s x ∧ p.ReadOff s x ∧
        p.ReadsBranches s x := by
  have hlt : i < (Outline.after (readingOrder d.specVersion d.root)).count s := by
    rw [← hd.hasRead.count]
    exact (Array.getElem?_eq_some_iff.1 hx).1
  obtain ⟨h, p, b, horder, href, hs, rfl⟩ := Outline.exists_place_of_lt hlt
  obtain ⟨y, hy, hdesc⟩ := hd.built h p b horder href s hs
  obtain rfl := Option.some.inj (hx.symm.trans hy)
  exact ⟨h, p, readAfter_iff.2 ⟨b, horder⟩, href, hs, rfl, hdesc⟩

/-- An object comes from a place that it is described by and read off. -/
theorem place_of_arena_readOff (hd : d.Loaded draft) {s : Store} {i : Nat} {x : s.Object}
    (hx : (draft.arena s)[i]? = some x) :
    ∃ h p, ReadAfter d.specVersion d.root h p ∧ p.reference? = none ∧ p.role.store? = some s ∧
      (Outline.after h).count s = i ∧ p.Describes d.specVersion h s x ∧ p.ReadOff s x := by
  obtain ⟨h, p, hp, href, hs, hi, hdesc, hread, -⟩ := hd.place_of_arena_built hx
  exact ⟨h, p, hp, href, hs, hi, hdesc, hread⟩

/-- An object comes from a place that it is described by. -/
theorem place_of_arena (hd : d.Loaded draft) {s : Store} {i : Nat} {x : s.Object}
    (hx : (draft.arena s)[i]? = some x) :
    ∃ h p, ReadAfter d.specVersion d.root h p ∧ p.reference? = none ∧ p.role.store? = some s ∧
      (Outline.after h).count s = i ∧ p.Describes d.specVersion h s x := by
  obtain ⟨h, p, hp, href, hs, hi, hdesc, -⟩ := hd.place_of_arena_readOff hx
  exact ⟨h, p, hp, href, hs, hi, hdesc⟩

/-- A schema comes from a place, and has its node and its origin. -/
theorem exists_place_of_schema (hd : d.Loaded draft) {s : Schema} (hs : s ∈ d.schemas) :
    ∃ h p, ReadAfter d.specVersion d.root h p ∧ s.node = p.node ∧ s.origin = p.origin ∧
      p.ReadOff .schemas s ∧ p.ReadsBranches .schemas s := by
  rw [hd.schemas] at hs
  obtain ⟨i, hi⟩ := Array.mem_iff_getElem?.1 hs
  obtain ⟨h, p, hp, -, -, -, hdesc, hread, hbranches⟩ := hd.place_of_arena_built (s := .schemas) hi
  refine ⟨h, p, hp, ?_, hdesc.2.1, hread, hbranches⟩
  rw [hread]
  rfl

/-- What a schema keeps of the fields of its node. -/
theorem fields_of_mem_schemas (hd : d.Loaded draft) {s : Schema} (hs : s ∈ d.schemas) :
    s.keywordMarks = Keyed.ofList (s.node.fields.map fun field => (field.1, field.2.1.mark)) ∧
    s.extensions = (s.node.fields.filter fun field =>
      field.1.startsWith "x-" || field.1.startsWith "X-").map fun field =>
        (field.1, field.2.2) := by
  obtain ⟨-, p, -, -, -, hread, -⟩ := hd.exists_place_of_schema hs
  rw [hread]
  exact ⟨rfl, rfl⟩

/-- A schema without anything under its combinators is not composed of others. -/
theorem branches_eq_nil (hd : d.Loaded draft) {s : Schema} (hs : s ∈ d.schemas)
    (h : ∀ keyword slots, (keyword, slots) ∈ s.combinators → s.node.get? keyword = none) :
    s.branches = [] := by
  obtain ⟨-, p, -, hnode, -, -, hbranches⟩ := hd.exists_place_of_schema hs
  rw [Schema.branches_eq]
  refine List.flatMap_eq_nil_iff.2 fun (keyword, slots) hslots => ?_
  have hnone : p.node.itemsAt? keyword = none := by
    rw [Node.itemsAt?, ← hnode, h keyword slots hslots]
    rfl
  have hplaces : p.placesOf (.combinator keyword) = [] := by
    simp [Place.placesOf, Member.places, Member.combinator, hnone]
  simpa [hplaces] using hbranches keyword slots hslots

/-- A place that is no reference has become an object. -/
theorem object (hd : d.Loaded draft) {h : List Place} {p : Place}
    (hp : ReadAfter d.specVersion d.root h p) (href : p.reference? = none) {s : Store}
    (hs : p.role.store? = some s) :
    ∃ x, (draft.arena s)[(Outline.after h).count s]? = some x ∧ p.Describes d.specVersion h s x := by
  obtain ⟨b, horder⟩ := readAfter_iff.1 hp
  obtain ⟨x, hx, hdesc, -⟩ := hd.built h p b horder href s hs
  exact ⟨x, hx, hdesc⟩

end Document.Loaded

end ApiLint
