import ApiLint.Proofs.Locations
import ApiLint.Proofs.Occurrences

/-!
# How the places of a document lie apart

In a document that repeats no key (`Node.keysDistinct`), two places lie below one another, or their
locations part at some step (`Location.Apart`, `readingOrder_precedes`). So nothing that is read
stands at or below a reference (`readingOrder_clear`), other than the component entry whose content
it is, and no two places that references can lead to share a pointer (`ReadAfter.eq_of_texts`).
-/

set_option autoImplicit false

namespace ApiLint

open Yaml (Node)

/-! ## Locations that part -/

namespace Location

/-- Neither location is at or below the other, as far as pointers tell. -/
def Apart (l m : Location) : Prop := ¬l.texts <+: m.texts ∧ ¬m.texts <+: l.texts

theorem Apart.symm {l m : Location} (h : l.Apart m) : m.Apart l := ⟨h.2, h.1⟩

/-- What lies below locations that part does, too. -/
theorem Apart.below {l m l' m' : Location} (h : l.Apart m) (hl : l.texts <+: l'.texts)
    (hm : m.texts <+: m'.texts) : l'.Apart m' := by
  constructor
  · intro hle
    rcases List.prefix_or_prefix_of_prefix (hl.trans hle) hm with h' | h'
    · exact h.1 h'
    · exact h.2 h'
  · intro hle
    rcases List.prefix_or_prefix_of_prefix hl (hm.trans hle) with h' | h'
    · exact h.1 h'
    · exact h.2 h'

/-- Locations part where their next steps have different texts. -/
theorem Apart.of_ne {l m : Location} {xs ys zs : List String} {a b : String} (h : a ≠ b)
    (hl : l.texts = xs ++ a :: ys) (hm : m.texts = xs ++ b :: zs) : l.Apart m := by
  unfold Apart
  rw [hl, hm]
  simp [List.prefix_append_right_inj, List.cons_prefix_cons, h, h.symm]

theorem isPlain_child {l : Location} {s : Segment} :
    (l.child s).isPlain = true ↔ l.isPlain = true ∧ s.isPlain = true := by
  simp [isPlain, child]

end Location

/-! ## The members of a node -/

theorem toString_inj {i j : Nat} (h : toString i = toString j) : i = j :=
  toDigits_inj (String.ofList_injective h)

namespace Member

/-- The places of a member stand below it. -/
theorem texts_of_mem_places {m : Member} {node : Node} {l : Location} {q : Place}
    (h : q ∈ m.places node l) : ∃ xs, q.location.texts = l.texts ++ m.name :: xs := by
  cases holds_of_mem_places h with
  | value _ => exact ⟨[], Location.texts_field l m.name⟩
  | @entry _ _ _ name _ _ => exact ⟨[name], by simp [Place.location, Origin.ofEntry]⟩
  | @item _ i _ =>
    exact ⟨[toString i], by simp [Place.location, Origin.ofItem, Origin.ofEntry]⟩

/-- The entries of a member stand two steps below its node. -/
theorem length_texts_of_mem_places {m : Member} (hm : m.shape = .entries) {node : Node}
    {l : Location} {q : Place} (h : q ∈ m.places node l) :
    q.location.texts.length = l.texts.length + 2 := by
  unfold places at h
  simp only [hm, List.mem_map] at h
  obtain ⟨x, -, rfl⟩ := h
  simp [Place.location, Origin.ofEntry]

/-- The places of different members part. -/
theorem apart_of_ne {m n : Member} {node node' : Node} {l : Location} {p q : Place}
    (hne : m.name ≠ n.name) (hp : p ∈ m.places node l) (hq : q ∈ n.places node' l) :
    p.location.Apart q.location := by
  obtain ⟨xs, hp⟩ := texts_of_mem_places hp
  obtain ⟨ys, hq⟩ := texts_of_mem_places hq
  exact .of_ne hne hp hq

/-- The places of a member have plain locations, if it and its node have. -/
theorem isPlain_of_mem_places {m : Member} {node : Node} {l : Location} {q : Place}
    (hm : (Segment.field m.name).isPlain = true) (hl : l.isPlain = true)
    (h : q ∈ m.places node l) : q.location.isPlain = true := by
  have hfield : (l.field m.name).isPlain = true := Location.isPlain_child.2 ⟨hl, hm⟩
  cases holds_of_mem_places h with
  | value _ => exact hfield
  | entry _ _ => exact Location.isPlain_child.2 ⟨hfield, rfl⟩
  | item _ => exact Location.isPlain_child.2 ⟨hfield, rfl⟩

theorem keysDistinct_of_mem_places {m : Member} {node : Node} {l : Location} {q : Place}
    (hd : node.keysDistinct = true) (h : q ∈ m.places node l) : q.node.keysDistinct = true := by
  cases holds_of_mem_places h with
  | value he => exact Node.keysDistinct_of_entry hd he
  | entry hmap he => exact Node.keysDistinct_of_mem_fields (Node.keysDistinct_of_get hd hmap) he
  | item he => exact Node.keysDistinct_of_mem_itemsAt hd (List.fst_mem_of_mem_zipIdx he)

/-- The places of a member part below it. -/
theorem places_apart (m : Member) {node : Node} (l : Location) (hd : node.keysDistinct = true) :
    (m.places node l).Pairwise fun p q => p.location.Apart q.location := by
  have hentry : (node.entry? m.name).toList.length ≤ 1 := by
    cases node.entry? m.name <;> simp
  have hitems : (((node.itemsAt? m.name).getD []).zipIdx).Pairwise fun x y => x.2 ≠ y.2 := by
    rw [← List.pairwise_map (f := Prod.snd), List.zipIdx_map_snd]
    exact List.nodup_range'
  have hitem : ∀ x y : Node × Nat, x.2 ≠ y.2 →
      ((l.field m.name).index x.2).Apart ((l.field m.name).index y.2) := fun x y hne =>
    .of_ne (fun he => hne (toString_inj he)) (Location.texts_index ..) (Location.texts_index ..)
  unfold places
  cases m.shape
  case value =>
    exact pairwise_of_length_le (by rwa [List.length_map])
  case mapping =>
    refine pairwise_of_length_le ?_
    rw [List.length_map]
    exact Nat.le_trans (List.length_filter_le ..) hentry
  case entries =>
    rw [List.pairwise_map]
    cases hg : node.get? m.name with
    | none => exact .nil
    | some map =>
      have hnodup := Node.fields_nodup (Node.keysDistinct_of_get hd hg)
      rw [List.Nodup, List.pairwise_map] at hnodup
      exact hnodup.imp fun {x y} hne =>
        .of_ne hne (Location.texts_key ..) (Location.texts_key ..)
  case items =>
    rw [List.pairwise_map]
    exact hitems.imp fun {x y} hne => hitem x y hne
  case mappings =>
    rw [List.pairwise_map]
    exact (hitems.filter _).imp fun {x y} hne => hitem x y hne

end Member

/-! ## The parts of a place -/

/-- What the parts of places are read as. -/
def Role.isPart : Role → Bool
  | .ownSchema | .opaqueEntry | .component _ | .pathItem => false
  | _ => true

namespace Place

variable {v : SpecVersion} {p q : Place}

theorem methods_ne_parameters {method : String} (h : Loading.methods.contains method = true) :
    method ≠ "parameters" := by
  rintro rfl
  revert h
  decide

/-- All members that a place can have. -/
def memberTables : List (List Member) :=
  [[], Member.ofSchema, Member.ofSchema ++ [.examples, .content], [.schema, .examples, .content],
   [.schema, .examples], [.content], [.headers, .content], [.headers, .content, .schema],
   [.parameters, .requestBody, .responses], [.parameters]]

theorem members_mem_tables (v : SpecVersion) (p : Place) : p.members v ∈ memberTables := by
  unfold members memberTables
  cases p.role <;> dsimp only <;> first | (split <;> simp) | simp

/-- The members of a place have different names. -/
theorem members_nodup (v : SpecVersion) (p : Place) : ((p.members v).map Member.name).Nodup :=
  (by decide : ∀ ms ∈ memberTables, (ms.map Member.name).Nodup) _ (members_mem_tables v p)

theorem isPlain_of_mem_members {m : Member} (h : m ∈ p.members v) :
    (Segment.field m.name).isPlain = true :=
  (by decide : ∀ ms ∈ memberTables, ∀ m ∈ ms, (Segment.field m.name).isPlain = true) _
    (members_mem_tables v p) m h

theorem isPart_of_mem_parts (h : q ∈ p.parts v) : q.role.isPart = true := by
  rcases (mem_parts h).2 with ⟨m, hm, hq⟩ | ⟨-, hq⟩
  · have hroles : ∀ ms ∈ memberTables, ∀ m ∈ ms, m.role.isPart = true := by decide
    rw [Follows.role_of_mem_places hq]
    exact hroles _ (members_mem_tables v p) m hm
  · rw [role_of_mem_operations hq]
    rfl

/-- The parts of a place stand below it. -/
theorem texts_of_mem_parts (h : q ∈ p.parts v) :
    ∃ name xs, q.location.texts = p.location.texts ++ name :: xs := by
  rcases (mem_parts h).2 with ⟨m, -, hq⟩ | ⟨-, hq⟩
  · exact ⟨m.name, Member.texts_of_mem_places hq⟩
  · obtain ⟨method, _, _, -, -, rfl⟩ := mem_operations hq
    exact ⟨method, [], Location.texts_field ..⟩

theorem isPlain_of_mem_parts (hp : p.location.isPlain = true) (h : q ∈ p.parts v) :
    q.location.isPlain = true := by
  rcases (mem_parts h).2 with ⟨m, hm, hq⟩ | ⟨-, hq⟩
  · exact Member.isPlain_of_mem_places (isPlain_of_mem_members hm) hp hq
  · obtain ⟨method, _, _, -, hmethod, rfl⟩ := mem_operations hq
    have hplain : ∀ m ∈ Loading.methods, (Segment.field m).isPlain = true := by decide
    exact Location.isPlain_child.2 ⟨hp, hplain method (List.contains_iff_mem.1 hmethod)⟩

theorem keysDistinct_of_mem_parts (hd : p.node.keysDistinct = true) (h : q ∈ p.parts v) :
    q.node.keysDistinct = true := by
  rcases (mem_parts h).2 with ⟨m, -, hq⟩ | ⟨-, hq⟩
  · exact Member.keysDistinct_of_mem_places hd hq
  · obtain ⟨method, key, value, hfield, -, rfl⟩ := mem_operations hq
    exact Node.keysDistinct_of_mem_fields hd hfield

/-- The parts of a place part below it. -/
theorem parts_apart (v : SpecVersion) (hd : p.node.keysDistinct = true) :
    (p.parts v).Pairwise fun q r => q.location.Apart r.location := by
  unfold parts
  split
  · exact .nil
  rw [List.pairwise_append, List.pairwise_flatMap]
  refine ⟨⟨fun m _ => m.places_apart p.location hd, ?_⟩, ?_, fun q hq r hr => ?_⟩
  · have hnames := members_nodup v p
    rw [List.Nodup, List.pairwise_map] at hnames
    exact hnames.imp fun {m n} hne q hq r hr => Member.apart_of_ne hne hq hr
  · split
    · unfold operations
      have hnames := Node.fields_nodup hd
      rw [List.Nodup, List.pairwise_map] at hnames
      rw [List.pairwise_map]
      exact (hnames.filter _).imp fun {x y} hne =>
        .of_ne hne (Location.texts_field ..) (Location.texts_field ..)
    · exact .nil
  · -- the only member of a path item is no operation of it
    split at hr
    · rename_i hrole
      obtain ⟨m, hm, hq⟩ := List.mem_flatMap.1 hq
      obtain rfl : m = .parameters := by simpa [members, hrole] using hm
      obtain ⟨xs, hq⟩ := Member.texts_of_mem_places hq
      obtain ⟨method, _, _, -, hmethod, rfl⟩ := mem_operations hr
      exact .of_ne (methods_ne_parameters hmethod).symm hq (Location.texts_field ..)
    · cases hr

/-! ## All that is read below a place -/

/-- What passes from a place to the same place read as a schema, and to its parts, holds of all that
is read with it. -/
theorem forall_mem_order {motive : Place → Prop}
    (hown : ∀ q, motive q → motive { q with role := .ownSchema })
    (hparts : ∀ q r, motive q → r ∈ q.parts v → motive r) {p : Place} (hp : motive p) :
    ∀ q ∈ p.order v, motive q := by
  intro q hq
  rw [order_eq, List.mem_cons, List.mem_append] at hq
  rcases hq with rfl | hq | hq
  · exact hp
  · unfold own at hq
    split at hq
    · obtain rfl := List.mem_singleton.1 hq
      exact hown p hp
    · cases hq
  · obtain ⟨r, hr, hq⟩ := List.mem_flatMap.1 hq
    have hlt : r.node.size < p.node.size := size_lt_of_mem_parts hr
    exact forall_mem_order hown hparts (hparts p r hp hr) q hq
termination_by p.node.size

theorem texts_of_mem_order (h : q ∈ p.order v) : p.location.texts <+: q.location.texts := by
  refine forall_mem_order (motive := fun q => p.location.texts <+: q.location.texts)
    (fun q hq => hq) (fun q r hq hr => hq.trans ?_) (List.prefix_refl _) q h
  obtain ⟨name, xs, hr⟩ := texts_of_mem_parts hr
  exact ⟨name :: xs, hr.symm⟩

theorem isPlain_of_mem_order (hp : p.location.isPlain = true) (h : q ∈ p.order v) :
    q.location.isPlain = true :=
  forall_mem_order (motive := fun q => q.location.isPlain = true) (fun _ hq => hq)
    (fun _ _ hq hr => isPlain_of_mem_parts hq hr) hp q h

theorem texts_of_mem_order_parts {r : Place} (hr : r ∈ p.parts v) (h : q ∈ r.order v) :
    ¬q.location.texts <+: p.location.texts := by
  obtain ⟨name, xs, htexts⟩ := texts_of_mem_parts hr
  have hle := (texts_of_mem_order h).length_le
  intro hge
  have hge := hge.length_le
  rw [htexts] at hle
  simp only [List.length_append, List.length_cons] at hle
  omega

/-- How a place stands to one that is read later: their locations part, or the later one is below it,
or it is the entry of a component that the earlier one belongs to. The only place at the location of
an earlier one is that one read as a schema. -/
inductive Precedes (p q : Place) : Prop
  | apart : p.location.Apart q.location → Precedes p q
  | above : p.reference? = none → p.location.texts <+: q.location.texts →
      (q.location.texts = p.location.texts → q.role = .ownSchema) → Precedes p q
  | entry {kind : ComponentKind} : q.role = .component kind → Precedes p q

/-- Of two places one after the other, neither is at or below the other if that is a reference;
component entries are read right after what they hold. -/
def Clear (p q : Place) : Prop :=
  (p.reference? ≠ none → (∀ kind, q.role ≠ .component kind) →
    ¬p.location.texts <+: q.location.texts) ∧
  (q.reference? ≠ none → ¬q.location.texts <+: p.location.texts)

theorem Precedes.clear (h : p.Precedes q) : p.Clear q := by
  cases h with
  | apart h => exact ⟨fun _ _ => h.1, fun _ => h.2⟩
  | above href hle hrole =>
    refine ⟨fun hp => absurd href hp, fun hq hge => hq ?_⟩
    have htexts := hge.eq_of_length (Nat.le_antisymm hge.length_le hle.length_le)
    simp [Place.reference?, Role.isSlot, hrole htexts]
  | entry hrole =>
    refine ⟨fun _ h => absurd hrole (h _), fun hq => absurd ?_ hq⟩
    simp [Place.reference?, Role.isSlot, hrole]

/-- Two places at one location are read in either order only if one of them is read as a schema or is
an entry. -/
theorem Precedes.role_of_texts_eq (h : p.Precedes q) (htexts : q.location.texts = p.location.texts) :
    q.role = .ownSchema ∨ ∃ kind, q.role = .component kind := by
  cases h with
  | apart h => exact absurd (htexts ▸ List.prefix_refl _) h.1
  | above _ _ hrole => exact .inl (hrole htexts)
  | entry hrole => exact .inr ⟨_, hrole⟩

theorem mem_own (h : q ∈ p.own v) :
    p.reference? = none ∧ q.reference? = none ∧ q.location = p.location ∧ q.role = .ownSchema := by
  unfold own at h
  split at h
  · rename_i hself
    obtain rfl := List.mem_singleton.1 h
    simp only [isOwnSchema, Bool.and_eq_true, Option.isNone_iff_eq_none] at hself
    exact ⟨hself.1.1.1.1, rfl, rfl, rfl⟩
  · cases h

/-- What is read below two locations that part does, too. -/
theorem precedes_of_mem_order {p' q' : Place} (h : p.location.Apart q.location)
    (hp : p' ∈ p.order v) (hq : q' ∈ q.order v) : p'.Precedes q' :=
  .apart (h.below (texts_of_mem_order hp) (texts_of_mem_order hq))

/-- What is read with a part of a place stands below the place. -/
theorem precedes_of_mem_order_parts {o r : Place} (href : o.reference? = none)
    (hl : o.location = p.location) (hr : r ∈ p.parts v) (hq : q ∈ r.order v) : o.Precedes q := by
  have hbelow := texts_of_mem_order_parts hr hq
  obtain ⟨name, xs, htexts⟩ := texts_of_mem_parts hr
  have hpr : p.location.texts <+: r.location.texts := ⟨name :: xs, htexts.symm⟩
  have hle := hpr.trans (texts_of_mem_order hq)
  rw [← hl] at hbelow hle
  exact .above href hle fun he => absurd (he ▸ List.prefix_refl _) hbelow

theorem order_precedes (v : SpecVersion) (p : Place) (hd : p.node.keysDistinct = true) :
    (p.order v).Pairwise Precedes := by
  rw [order_eq, List.pairwise_cons, List.pairwise_append, List.pairwise_flatMap]
  refine ⟨fun q hq => ?_, ?_, ⟨fun r hr => ?_, ?_⟩, fun o ho q hq => ?_⟩
  · rcases List.mem_append.1 hq with hq | hq
    · obtain ⟨hp, -, hl, hrole⟩ := mem_own hq
      exact .above hp (hl ▸ List.prefix_refl _) fun _ => hrole
    · obtain ⟨r, hr, hq⟩ := List.mem_flatMap.1 hq
      exact precedes_of_mem_order_parts (mem_parts hr).1 rfl hr hq
  · refine pairwise_of_length_le ?_
    unfold own
    split <;> simp
  · have hlt : r.node.size < p.node.size := size_lt_of_mem_parts hr
    exact order_precedes v r (keysDistinct_of_mem_parts hd hr)
  · exact (parts_apart v hd).imp fun {r s} hrs x hx y hy => precedes_of_mem_order hrs hx hy
  · obtain ⟨-, ho, hl, -⟩ := mem_own ho
    obtain ⟨r, hr, hq⟩ := List.mem_flatMap.1 hq
    exact precedes_of_mem_order_parts ho hl hr hq
termination_by p.node.size

end Place

/-! ## Places by their roles -/

namespace ReadAfter

variable {v : SpecVersion} {root : Node} {h : List Place} {p : Place}

/-- The place is what a component entry holds. -/
def IsHeld (v : SpecVersion) (root : Node) (h : List Place) (p : Place) : Prop :=
  ∃ ps e qs kind, componentPlaces v root = ps ++ e :: qs ∧ e.role = .component kind ∧
    h = ps.flatMap (Place.entryOrder v) ∧ p = e.held

/-- The place is a part of one that is read before. -/
def IsPart (v : SpecVersion) (root : Node) (h : List Place) (p : Place) : Prop :=
  ∃ h' q ps qs, ReadAfter v root h' q ∧ q.parts v = ps ++ p :: qs ∧
    h = h' ++ q :: (q.own v ++ ps.flatMap (Place.order v))

/-- Where a place of a role is read. -/
def Site (v : SpecVersion) (root : Node) (h : List Place) (p : Place) : Role → Prop
  | .component _ => ∃ ps qs, componentPlaces v root = ps ++ p :: qs ∧
      h = ps.flatMap (Place.entryOrder v) ++ p.held.order v
  | .pathItem => (h, p) ∈ moments v ((componentPlaces v root).flatMap (Place.entryOrder v))
      (pathPlaces root)
  | .ownSchema => ∃ h' q, h = h' ++ [q] ∧ p = { q with role := .ownSchema } ∧
      ReadAfter v root h' q ∧ q.isOwnSchema v = true
  | .opaqueEntry => IsHeld v root h p
  | .schema | .parameter | .header | .mediaType | .namedExample | .requestBody | .response
  | .operation => IsHeld v root h p ∨ IsPart v root h p

/-- **The role of a place tells where it is read.** -/
theorem site (hp : ReadAfter v root h p) : Site v root h p p.role := by
  cases hp with
  | @entry ps qs e he =>
    obtain ⟨kind, hkind⟩ := role_of_mem_componentPlaces (he ▸ List.mem_append_cons_self)
    have hheld : IsHeld v root (ps.flatMap (Place.entryOrder v)) e.held :=
      ⟨ps, e, qs, kind, he, hkind, rfl, rfl⟩
    have hrole : e.held.role = kind.role := by rw [Place.held, hkind]
    rw [hrole]
    cases kind <;> first | exact hheld | exact .inl hheld
  | @component ps qs _ he =>
    obtain ⟨kind, hkind⟩ := role_of_mem_componentPlaces (he ▸ List.mem_append_cons_self)
    rw [hkind]
    exact ⟨ps, qs, he, rfl⟩
  | @path ps qs _ he =>
    rw [role_of_mem_pathPlaces (he ▸ List.mem_append_cons_self)]
    have hcut : [] ++ pathPlaces root ++ [] = ps ++ p :: qs := by simpa using he
    simpa [Site] using mem_moments_of_cut v ((componentPlaces v root).flatMap (Place.entryOrder v))
      hcut List.not_mem_nil List.not_mem_nil
  | @own h' q hq hself => exact ⟨h', q, rfl, rfl, hq, hself⟩
  | @part h' ps qs q _ hq hcut =>
    have hpart : IsPart v root _ p := ⟨h', q, ps, qs, hq, hcut, rfl⟩
    have hrole := Place.isPart_of_mem_parts (hcut ▸ List.mem_append_cons_self)
    cases hp : p.role <;> rw [hp] at hrole <;> first | exact .inr hpart | cases hrole

end ReadAfter

/-! ## The places of a document -/

@[simp]
theorem Place.origin_held (e : Place) : e.held.origin = e.origin := by
  unfold held
  split <;> rfl

@[simp]
theorem Place.location_held (e : Place) : e.held.location = e.location :=
  congrArg Origin.location e.origin_held

@[simp]
theorem Place.node_held (e : Place) : e.held.node = e.node := by
  unfold held
  split <;> rfl

theorem ComponentKind.isPlain_name (kind : ComponentKind) :
    (Segment.field kind.name).isPlain = true := by
  cases kind <;> decide

section
variable {v : SpecVersion} {root : Node}

/-- Component entries stand below the root at fields of their own. -/
theorem componentPlaces_apart (v : SpecVersion) (hd : root.keysDistinct = true) :
    (componentPlaces v root).Pairwise fun p q => p.location.Apart q.location := by
  unfold componentPlaces
  split
  · rw [List.pairwise_flatMap]
    refine ⟨fun x _ => Member.places_apart _ _ hd, ?_⟩
    have hnames : Loading.swagger2Sections.Pairwise fun x y => x.1 ≠ y.1 := by decide
    exact hnames.imp fun {x y} hne p hp q hq => Member.apart_of_ne hne hp hq
  · cases hg : root.get? "components" with
    | none => exact .nil
    | some node =>
      dsimp only
      rw [List.pairwise_flatMap]
      refine ⟨fun x _ => Member.places_apart _ _ (Node.keysDistinct_of_get hd hg), ?_⟩
      have hnames : ComponentKind.all.Pairwise fun x y => x.name ≠ y.name := by decide
      exact hnames.imp fun {x y} hne p hp q hq => Member.apart_of_ne hne hp hq

/-- Component entries all stand at one depth. -/
theorem length_texts_of_mem_componentPlaces {e f : Place} (he : e ∈ componentPlaces v root)
    (hf : f ∈ componentPlaces v root) : e.location.texts.length = f.location.texts.length := by
  unfold componentPlaces at he hf
  split at he
  · rename_i hv
    rw [if_pos hv] at hf
    obtain ⟨x, -, he⟩ := List.mem_flatMap.1 he
    obtain ⟨y, -, hf⟩ := List.mem_flatMap.1 hf
    rw [Member.length_texts_of_mem_places rfl he, Member.length_texts_of_mem_places rfl hf]
  · rename_i hv
    rw [if_neg hv] at hf
    cases hg : root.get? "components" with
    | none => simp [hg] at he
    | some node =>
      simp only [hg] at he hf
      obtain ⟨x, -, he⟩ := List.mem_flatMap.1 he
      obtain ⟨y, -, hf⟩ := List.mem_flatMap.1 hf
      rw [Member.length_texts_of_mem_places rfl he, Member.length_texts_of_mem_places rfl hf]

/-- Component entries stand at no path. -/
theorem texts_of_mem_componentPlaces {e : Place} (h : e ∈ componentPlaces v root) :
    e.location.isPlain = true ∧
      ∃ name xs, name ≠ "paths" ∧ e.location.texts = name :: xs := by
  rcases exists_of_mem_componentPlaces h with ⟨x, hx, he⟩ | ⟨node, kind, -, he⟩
  · have hplain : ∀ x ∈ Loading.swagger2Sections,
        (Segment.field x.1).isPlain = true ∧ x.1 ≠ "paths" := by decide
    obtain ⟨xs, htexts⟩ := Member.texts_of_mem_places he
    exact ⟨Member.isPlain_of_mem_places (hplain x hx).1 rfl he, x.1, xs, (hplain x hx).2, htexts⟩
  · obtain ⟨xs, htexts⟩ := Member.texts_of_mem_places he
    exact ⟨Member.isPlain_of_mem_places kind.isPlain_name (by decide) he, "components", _,
      by decide, htexts⟩

theorem texts_of_mem_pathPlaces {p : Place} (h : p ∈ pathPlaces root) :
    p.location.isPlain = true ∧ ∃ xs, p.location.texts = "paths" :: xs := by
  have h := (List.mem_filter.1 h).1
  exact ⟨Member.isPlain_of_mem_places (by decide) rfl h, Member.texts_of_mem_places h⟩

theorem keysDistinct_of_mem_componentPlaces (hd : root.keysDistinct = true) {e : Place}
    (h : e ∈ componentPlaces v root) : e.node.keysDistinct = true := by
  rcases exists_of_mem_componentPlaces h with ⟨x, -, he⟩ | ⟨node, kind, hg, he⟩
  · exact Member.keysDistinct_of_mem_places hd he
  · exact Member.keysDistinct_of_mem_places (Node.keysDistinct_of_get hd hg) he

theorem mem_entryOrder {e q : Place} (h : q ∈ e.entryOrder v) :
    q ∈ e.held.order v ∨ q = e := by
  simpa [Place.entryOrder] using h

theorem texts_of_mem_entryOrder {e q : Place} (h : q ∈ e.entryOrder v) :
    e.location.texts <+: q.location.texts := by
  rcases mem_entryOrder h with h | rfl
  · simpa using Place.texts_of_mem_order h
  · exact List.prefix_refl _

theorem entryOrder_precedes {e : Place} (hd : e.node.keysDistinct = true) {kind : ComponentKind}
    (he : e.role = .component kind) : (e.entryOrder v).Pairwise Place.Precedes := by
  unfold Place.entryOrder
  rw [List.pairwise_append]
  refine ⟨Place.order_precedes v e.held (by rwa [Place.node_held]), List.pairwise_singleton _ _, ?_⟩
  intro q hq e' he'
  obtain rfl := List.mem_singleton.1 he'
  exact .entry he

/-- All places stand to those read later as `Place.Precedes` says. -/
theorem readingOrder_precedes (v : SpecVersion) (hd : root.keysDistinct = true) :
    (readingOrder v root).Pairwise Place.Precedes := by
  unfold readingOrder
  rw [List.pairwise_append, List.pairwise_flatMap, List.pairwise_flatMap]
  refine ⟨⟨fun e he => ?_, ?_⟩, ⟨fun p hp => ?_, ?_⟩, fun x hx y hy => ?_⟩
  · obtain ⟨kind, hkind⟩ := ReadAfter.role_of_mem_componentPlaces he
    exact entryOrder_precedes (keysDistinct_of_mem_componentPlaces hd he) hkind
  · refine (componentPlaces_apart v hd).imp fun {e f} hef x hx y hy => ?_
    exact .apart (hef.below (texts_of_mem_entryOrder hx) (texts_of_mem_entryOrder hy))
  · exact Place.order_precedes v p (Member.keysDistinct_of_mem_places hd (List.mem_filter.1 hp).1)
  · exact ((Member.places_apart _ _ hd).filter _).imp fun {p q} hpq x hx y hy =>
      Place.precedes_of_mem_order hpq hx hy
  · obtain ⟨e, he, hx⟩ := List.mem_flatMap.1 hx
    obtain ⟨p, hp, hy⟩ := List.mem_flatMap.1 hy
    obtain ⟨-, name, xs, hne, hname⟩ := texts_of_mem_componentPlaces he
    obtain ⟨-, ys, hpath⟩ := texts_of_mem_pathPlaces hp
    have hep : e.location.Apart p.location :=
      @Location.Apart.of_ne _ _ [] xs ys _ _ hne hname hpath
    exact .apart (hep.below (texts_of_mem_entryOrder hx) (Place.texts_of_mem_order hy))

/-- **Nothing is read at or below a reference.** -/
theorem readingOrder_clear (v : SpecVersion) (hd : root.keysDistinct = true) :
    (readingOrder v root).Pairwise Place.Clear :=
  (readingOrder_precedes v hd).imp Place.Precedes.clear

/-- No object stands at or below a reference, whichever of the two is read first. -/
theorem not_prefix_of_reference (hd : root.keysDistinct = true) {p q : Place}
    (hp : p ∈ readingOrder v root) (hq : q ∈ readingOrder v root) (href : p.reference? ≠ none)
    (hqref : q.reference? = none) (hrole : ∀ kind, q.role ≠ .component kind) :
    ¬p.location.texts <+: q.location.texts := by
  obtain ⟨a, b, horder⟩ := List.append_of_mem hq
  have hclear := readingOrder_clear v hd
  rw [horder, List.pairwise_append, List.pairwise_cons] at hclear
  obtain ⟨-, ⟨hafter, -⟩, hbefore⟩ := hclear
  rw [horder] at hp
  rcases List.mem_append.1 hp with hp | hp
  · exact (hbefore p hp q List.mem_cons_self).1 href hrole
  · rcases List.mem_cons.1 hp with rfl | hp
    · exact absurd hqref href
    · exact (hafter p hp).2 href

/-- The places that references can lead to have different pointers. -/
theorem ReadAfter.eq_of_texts (hd : root.keysDistinct = true) {h h' : List Place} {p p' : Place}
    {n n' : Store → Nat} {t t' : Target} (hp : ReadAfter v root h p) (hp' : ReadAfter v root h' p')
    (ht : p.role.target? n = some t) (ht' : p'.role.target? n' = some t')
    (htexts : p.location.texts = p'.location.texts) : h = h' ∧ p = p' := by
  have hrole : ∀ {q : Place} {n : Store → Nat} {t : Target}, q.role.target? n = some t →
      ¬(q.role = .ownSchema ∨ ∃ kind, q.role = .component kind) := by
    rintro q n t ht (hq | ⟨kind, hq⟩) <;> simp [hq, Role.target?] at ht
  obtain ⟨b, hb⟩ := readAfter_iff.1 hp
  obtain ⟨b', hb'⟩ := readAfter_iff.1 hp'
  have hprecedes := readingOrder_precedes v hd
  have hlater : ∀ {a c e : List Place} {x y : Place}, readingOrder v root = a ++ x :: (e ++ y :: c) →
      x.Precedes y := by
    intro a c e x y horder
    rw [horder, List.pairwise_append, List.pairwise_cons] at hprecedes
    exact hprecedes.2.1.1 y (by simp)
  rcases append_eq_append_cons (hb.symm.trans hb') with ⟨e, rfl, he⟩ | ⟨e, rfl, rfl⟩
  · cases e with
    | nil => exact ⟨by simp, (List.cons.inj he).1⟩
    | cons q e =>
      obtain ⟨rfl, rfl⟩ := List.cons.inj he
      exact absurd ((hlater hb).role_of_texts_eq htexts.symm) (hrole ht')
  · exact absurd ((hlater (by simpa using hb')).role_of_texts_eq htexts) (hrole ht)

/-- All that is read has a plain location. -/
theorem isPlain_of_mem_readingOrder {q : Place} (h : q ∈ readingOrder v root) :
    q.location.isPlain = true := by
  rcases List.mem_append.1 h with h | h
  · obtain ⟨e, he, hq⟩ := List.mem_flatMap.1 h
    have hplain := (texts_of_mem_componentPlaces he).1
    rcases mem_entryOrder hq with hq | rfl
    · exact Place.isPlain_of_mem_order (by rwa [Place.location_held]) hq
    · exact hplain
  · obtain ⟨p, hp, hq⟩ := List.mem_flatMap.1 h
    exact Place.isPlain_of_mem_order (texts_of_mem_pathPlaces hp).1 hq

end

end ApiLint
