import ApiLint.Proofs.Compiling
import ApiLint.Proofs.Fragments
import ApiLint.Proofs.PlainSchemas

/-!
# What plain schemas compile to

A plain schema is a fragment by itself (`FragmentSource.fragment_plain`), satisfies the schema of
draft 4 (`JsonSchema.satisfies_plain`) and compiles to keywords whose violations are the
mismatches of the value (`JsonSchema.exists_compiled_plain`). Reading goes down the schema and
checking down the value: one level of a plain schema is read member by member
(`JsonSchema.exists_readsMember`), given what holds of the schemas in it.
-/

set_option autoImplicit false

namespace ApiLint

open Json (PlainMember Mismatch Ordered)

/-! ## Kinds -/

namespace Json

theorem kind?_eq_some {value : Json} {kind : JsonKind} :
    value.kind? = some kind ↔ value = .str kind.name := by
  constructor
  · intro h
    obtain ⟨name, hname, hkind⟩ := Option.bind_eq_some_iff.1 h
    obtain rfl := str?_eq_some.1 hname
    have hfound := List.find?_some hkind
    rw [beq_iff_eq.1 hfound]
  · rintro rfl
    exact JsonKind.ofName?_name kind

theorem mapM_kind?_eq_some {items : List Json} {kinds : List JsonKind} :
    items.mapM kind? = some kinds ↔ items = kinds.map fun k => .str k.name := by
  induction items generalizing kinds with
  | nil => cases kinds <;> simp
  | cons item items ih =>
    simp only [List.mapM_cons, Option.bind_eq_bind, Option.pure_def, Option.bind_eq_some_iff, ih,
      kind?_eq_some, Option.some.injEq]
    cases kinds with
    | nil => simp
    | cons kind kinds => simp

/-- A `type` is the name of a kind, or several names. -/
theorem kinds?_cases {word : Json} {kinds : List JsonKind} (h : word.kinds? = some kinds) :
    (∃ kind : JsonKind, word = .str kind.name ∧ kinds = [kind]) ∨
      ∃ named : List JsonKind, word = .arr (named.map fun k => .str k.name) ∧ named ≠ [] ∧
        named.Nodup ∧ kinds = JsonKind.all.filter named.contains := by
  unfold kinds? at h
  split at h
  · rename_i name
    obtain ⟨kind, hkind, rfl⟩ := Option.map_eq_some_iff.1 h
    have hword : (Json.str name).kind? = some kind := hkind
    exact .inl ⟨kind, kind?_eq_some.1 hword, rfl⟩
  · obtain ⟨named, hnamed, h⟩ := Option.bind_eq_some_iff.1 h
    obtain ⟨⟨hne, hnodup⟩, hkinds⟩ := Option.ite_none_right_eq_some.1 h
    exact .inr ⟨named, congrArg _ (mapM_kind?_eq_some.1 hnamed), hne, hnodup,
      (Option.some.inj hkinds).symm⟩
  · cases h

end Json

/-! ## Fragments -/

namespace FragmentSource

variable (source : FragmentSource)

/-- A clean copy of the value is the value, and it refers to nothing. -/
def IsClean (v : Json) : Prop := source.sanitize v = v ∧ source.pointers v = []

variable {source}

theorem isClean_obj (hversion : source.version ≠ .swagger2) {members : List (String × Json)}
    (h : ∀ m ∈ members, source.IsClean m.2 ∧ ∀ text, m ≠ ("$ref", .str text)) :
    source.IsClean (.obj members) := by
  have hown : source.ownPointer members = [] := by
    unfold ownPointer
    split
    · rename_i text hfind
      exact absurd rfl ((h _ (Keyed.mem_of_find? hfind)).2 text)
    · rfl
  have hdrops : ∀ m ∈ members, source.drops m.1 m.2 = false := by
    rintro ⟨key, value⟩ hm
    cases value with
    | str text =>
      have hkey : key ≠ "$ref" := fun hkey => (h _ hm).2 text (hkey ▸ rfl)
      simp [drops, hkey, hversion]
    | _ => rfl
  have hmembers : source.sanitizeMembers members = members ∧
      source.pointersOfMembers members = [] := by
    clear hown
    induction members with
    | nil => exact ⟨rfl, rfl⟩
    | cons m members ih =>
      obtain ⟨hm, hrest⟩ := List.forall_mem_cons.1 h
      obtain ⟨hdrop, hdrops⟩ := List.forall_mem_cons.1 hdrops
      obtain ⟨hmembers, hpointers⟩ := ih hrest hdrops
      obtain ⟨hvalue, hnone⟩ := hm.1
      rw [sanitizeMembers, if_neg (by simp [hdrop]), hvalue, hmembers, pointersOfMembers, hnone,
        hpointers]
      exact ⟨rfl, rfl⟩
  rw [IsClean, sanitize, hmembers.1, pointers, hown, hmembers.2]
  exact ⟨rfl, rfl⟩

theorem isClean_kinds {word : Json} {kinds : List JsonKind} (h : word.kinds? = some kinds) :
    source.IsClean word := by
  rcases Json.kinds?_cases h with ⟨kind, rfl, -⟩ | ⟨named, rfl, -⟩
  · exact ⟨rfl, rfl⟩
  · have hitems : source.pointersOfItems (named.map fun k => .str k.name) = [] := by
      clear h
      induction named with
      | nil => rfl
      | cons k named ih =>
        rw [List.map_cons, pointersOfItems, ih]
        rfl
    refine ⟨?_, by rwa [pointers]⟩
    rw [sanitize, sanitizeItems_eq, List.map_map]
    rfl

theorem isClean_plain (hversion : source.version ≠ .swagger2) {schema : Json}
    (h : schema.isPlain = true) : source.IsClean schema := by
  induction hsize : schema.size using Nat.strong_induction_on generalizing schema with
  | _ size ih =>
    subst hsize
    obtain ⟨members, rfl, hmembers⟩ := Json.exists_members_of_isPlain h
    refine isClean_obj hversion fun m hm => ⟨?_, ?_⟩
    · have hsmaller := Json.size_lt_of_mem_members hm
      obtain ⟨key, value⟩ := m
      cases hmembers _ hm with
      | type hkinds => exact isClean_kinds hkinds
      | nullable flag => exact ⟨rfl, rfl⟩
      | items hpart => exact ih _ hsmaller hpart rfl
      | properties hparts =>
        refine isClean_obj hversion fun p hp => ⟨?_, ?_⟩
        · exact ih _ ((Json.size_lt_of_mem_members hp).trans hsmaller) (hparts p hp) rfl
        · rintro text rfl
          cases hparts _ hp
    · rintro text rfl
      have hkey : "$ref" ∈ ["items", "nullable", "properties", "type"] := (hmembers _ hm).key_mem
      exact absurd hkey (by decide)

/-- A plain schema is a fragment by itself. -/
theorem fragment_plain (hversion : source.version ≠ .swagger2) {schema : Json}
    (h : schema.isPlain = true) : source.fragment schema = schema := by
  obtain ⟨hclean, hpointers⟩ := isClean_plain hversion h
  obtain ⟨members, rfl, -⟩ := Json.exists_members_of_isPlain h
  have hgather : ∀ fuel, source.gather fuel [] [] members = members := by
    rintro (_ | fuel) <;> rfl
  simp only [fragment, hclean, hpointers, List.reverse_nil, hgather]

end FragmentSource

namespace JsonSchema

/-! ## The schema of schemas -/

/-- A value has no violations under a part of the schema of draft 4, as far as `n` levels show. -/
def Satisfies (n : Nat) (schema : JsonSchema) (value : Json) : Prop :=
  ∀ v, v ∉ violationsAt .draft4 [("", metaDraft4)] n schema value

theorem Satisfies.of_keywords {n : Nat} {keywords : List Keyword} {value : Json}
    (h : ∀ m < n, ∀ k ∈ keywords, ∀ v,
      v ∉ violationsBy .draft4 [("", metaDraft4)] m keywords k value) :
    Satisfies n (.object keywords) value := by
  intro v hv
  cases n with
  | zero => cases hv
  | succ n =>
    obtain ⟨k, hk, hv⟩ := mem_violationsAt_object.1 hv
    exact h n (Nat.lt_succ_self n) k hk v hv

theorem Satisfies.of_anyOf {n : Nat} {schemas : List JsonSchema} {schema : JsonSchema}
    {value : Json} (hschema : schema ∈ schemas) (h : ∀ m < n, Satisfies m schema value) :
    Satisfies n (.object [.anyOf schemas]) value := by
  refine .of_keywords fun m hm k hk v hv => ?_
  obtain rfl := List.mem_singleton.1 hk
  exact (mem_violationsBy_anyOf.1 hv).1 schema hschema (List.eq_nil_iff_forall_not_mem.2 (h m hm))

/-- The value is a schema of draft 4, as far as less than `n` levels show. -/
def IsSchemaBelow (n : Nat) (value : Json) : Prop := ∀ m < n, Satisfies m metaDraft4 value

theorem IsSchemaBelow.mono {m n : Nat} {value : Json} (h : IsSchemaBelow n value) (hmn : m ≤ n) :
    IsSchemaBelow m value := fun l hl => h l (Nat.lt_of_lt_of_le hl hmn)

theorem IsSchemaBelow.schema {n : Nat} {value : Json} (h : IsSchemaBelow n value) :
    Satisfies n Meta.schema value := by
  refine .of_keywords fun m hm k hk v hv => ?_
  obtain rfl := List.mem_singleton.1 hk
  obtain ⟨s, hs, hv⟩ := mem_violationsBy_reference.1 hv
  obtain rfl : metaDraft4 = s := Option.some.inj hs
  exact h m hm v hv

theorem IsSchemaBelow.items {n : Nat} {value : Json} (h : IsSchemaBelow n value) :
    Satisfies n (.object [.anyOf [Meta.schema, Meta.schemas]]) value :=
  .of_anyOf List.mem_cons_self fun _ hm => (h.mono hm.le).schema

theorem satisfies_mapOf_schema {n : Nat} {schemas : List (String × Json)}
    (h : ∀ p ∈ schemas, IsSchemaBelow n p.2) :
    Satisfies n (Meta.mapOf Meta.schema) (.obj schemas) := by
  refine .of_keywords fun m hm k hk v hv => ?_
  rcases List.mem_cons.1 hk with rfl | hk
  · obtain ⟨members, hmembers, p, hp, hv⟩ := mem_violationsBy_additionalProperties.1 hv
    obtain rfl := Json.obj.inj hmembers
    exact ((h p hp).mono hm.le).schema v hv
  · obtain rfl := List.mem_singleton.1 hk
    cases (mem_violationsBy_types.1 hv).1

theorem same_name (a b : JsonKind) : (Json.str a.name).same (.str b.name) = (a == b) := by
  cases a <;> cases b <;> simp [Json.same, JsonKind.name]

theorem satisfies_kind (n : Nat) (kind : JsonKind) : Satisfies n Meta.kind (.str kind.name) := by
  refine .of_keywords fun m hm k hk v hv => ?_
  obtain rfl := List.mem_singleton.1 hk
  have hlisted : kindNames.any ((Json.str kind.name).same ·) = true := by
    simp only [kindNames, List.any_map, Function.comp_def, same_name]
    cases kind <;> rfl
  exact absurd (mem_violationsBy_enumeration.1 hv).1 (by simp [hlisted])

theorem allDistinct_names {named : List JsonKind} (h : named.Nodup) :
    Json.allDistinct (named.map fun k => .str k.name) = true := by
  induction named with
  | nil => rfl
  | cons kind named ih =>
    obtain ⟨hkind, hnamed⟩ := List.nodup_cons.1 h
    simp only [List.map_cons, Json.allDistinct, List.any_map, Function.comp_def, same_name,
      ih hnamed, Bool.and_true, Bool.not_eq_true', List.any_eq_false, beq_iff_eq]
    rintro other hother rfl
    exact hkind hother

theorem satisfies_kinds {word : Json} {kinds : List JsonKind} (h : word.kinds? = some kinds)
    (n : Nat) : Satisfies n Meta.kinds word := by
  rcases Json.kinds?_cases h with ⟨kind, rfl, -⟩ | ⟨named, rfl, hne, hnodup, -⟩
  · exact .of_anyOf List.mem_cons_self fun m _ => satisfies_kind m kind
  · -- The second choice asks for several distinct names.
    refine .of_anyOf (List.mem_cons_of_mem _ List.mem_cons_self) fun l _ =>
      .of_keywords fun m hm k hk v hv => ?_
    simp only [List.mem_cons, List.not_mem_nil, or_false] at hk
    rcases hk with rfl | rfl | rfl | rfl
    · obtain ⟨items, hitems, item, hitem, hv⟩ := mem_violationsBy_items.1 hv
      obtain rfl := Json.arr.inj hitems
      obtain ⟨kind, -, rfl⟩ := List.mem_map.1 hitem
      exact satisfies_kind m kind v hv
    · obtain ⟨items, hitems, hlength, -⟩ := mem_violationsBy_minItems.1 hv
      obtain rfl := Json.arr.inj hitems
      have hpos := List.length_pos_iff.2 hne
      rw [List.length_map] at hlength
      omega
    · cases (mem_violationsBy_types.1 hv).1
    · obtain ⟨items, hitems, hrepeated, -⟩ := mem_violationsBy_uniqueItems.1 hv
      obtain rfl := Json.arr.inj hitems
      rw [allDistinct_names hnodup] at hrepeated
      cases hrepeated

/-- Plain schemas are schemas of draft 4. -/
theorem satisfies_plain {schema : Json} (h : schema.isPlain = true) (n : Nat) :
    Satisfies n metaDraft4 schema := by
  induction n using Nat.strong_induction_on generalizing schema with
  | _ n ih =>
    obtain ⟨members, rfl, hmembers⟩ := Json.exists_members_of_isPlain h
    have hfind : ∀ {key : String} {w : Json}, Keyed.find? key members = some w →
        PlainMember key w := fun hw => hmembers _ (Keyed.mem_of_find? hw)
    refine .of_keywords fun m hm k hk v hv => ?_
    simp only [List.mem_cons, List.not_mem_nil, or_false] at hk
    rcases hk with rfl | rfl | rfl
    · obtain ⟨members', hmembers', p, hp, w, hw, hv⟩ := mem_violationsBy_properties.1 hv
      obtain rfl := Json.obj.inj hmembers'
      obtain ⟨key, s⟩ := p
      have hbelow : ∀ {part : Json}, part.isPlain = true → IsSchemaBelow m part :=
        fun hpart l hl => ih l (by omega) hpart
      cases hfind hw with
      | type hkinds =>
        obtain rfl : s = Meta.kinds := by simpa using hp
        exact satisfies_kinds hkinds m v hv
      | nullable flag => simp at hp
      | items hpart =>
        obtain rfl : s = .object [.anyOf [Meta.schema, Meta.schemas]] := by simpa using hp
        exact (hbelow hpart).items v hv
      | properties hparts =>
        obtain rfl : s = Meta.mapOf Meta.schema := by simpa using hp
        exact satisfies_mapOf_schema (fun p hp => hbelow (hparts p hp)) v hv
    · cases (mem_violationsBy_types.1 hv).1
    · obtain ⟨members', hmembers', p, hp, hfound, -⟩ := mem_violationsBy_dependent.1 hv
      obtain rfl := Json.obj.inj hmembers'
      obtain ⟨w, hw⟩ := Option.isSome_iff_exists.1 hfound
      have hkey := (hfind hw).key_mem
      simp only [List.mem_cons, List.not_mem_nil, or_false] at hp
      rcases hp with rfl | rfl <;> simp at hkey

/-! ## Reading -/

theorem run_mapM_map {α β γ : Type} {f : α → Reading β} {g : γ → α} {y : γ → β}
    (h : ∀ x l, (f (g x)).run l = .ok (y x, l)) (xs : List γ) (l : Library) :
    ((xs.map g).mapM f).run l = .ok (xs.map y, l) := by
  induction xs with
  | nil => rfl
  | cons x xs ih =>
    rw [List.map_cons, List.mapM_cons]
    exact run_bind_eq_ok.2 ⟨_, l, h x l, run_bind_eq_ok.2 ⟨_, l, ih, rfl⟩⟩

/-- Readings that succeed and read no targets go through a list. -/
theorem exists_run_mapM {α β : Type} {f : α → Reading β} {P : α → β → Prop} {xs : List α}
    (h : ∀ x ∈ xs, ∃ y, (∀ l, (f x).run l = .ok (y, l)) ∧ P x y) :
    ∃ ys, (∀ l, (xs.mapM f).run l = .ok (ys, l)) ∧
      (∀ x ∈ xs, ∃ y ∈ ys, P x y) ∧ ∀ y ∈ ys, ∃ x ∈ xs, P x y := by
  induction xs with
  | nil => exact ⟨[], fun _ => rfl, by simp, by simp⟩
  | cons x xs ih =>
    obtain ⟨⟨y, hy, hP⟩, hxs⟩ := List.forall_mem_cons.1 h
    obtain ⟨ys, hys, hleft, hright⟩ := ih hxs
    refine ⟨y :: ys, fun l => ?_, List.forall_mem_cons.2 ⟨⟨y, List.mem_cons_self, hP⟩, ?_⟩,
      List.forall_mem_cons.2 ⟨⟨x, List.mem_cons_self, hP⟩, ?_⟩⟩
    · rw [List.mapM_cons]
      exact run_bind_eq_ok.2 ⟨_, l, hy l, run_bind_eq_ok.2 ⟨_, l, hys l, rfl⟩⟩
    · exact fun z hz => (hleft z hz).imp fun w hw => ⟨List.mem_cons_of_mem _ hw.1, hw.2⟩
    · exact fun w hw => (hright w hw).imp fun z hz => ⟨List.mem_cons_of_mem _ hz.1, hz.2⟩

theorem run_readKinds {word : Json} {kinds : List JsonKind} (h : word.kinds? = some kinds)
    (l : Library) : (readKinds word).run l = .ok (kinds, l) := by
  rcases Json.kinds?_cases h with ⟨kind, rfl, rfl⟩ | ⟨named, rfl, hne, -, rfl⟩
  · simp only [readKinds, JsonKind.ofName?_name]
    rfl
  · rcases named with _ | ⟨kind, _ | ⟨next, rest⟩⟩
    · exact absurd rfl hne
    · have hone : JsonKind.all.filter [kind].contains = [kind] := by cases kind <;> rfl
      rw [hone]
      simp only [readKinds, List.map_cons, List.map_nil, JsonKind.ofName?_name]
      rfl
    · refine run_bind_eq_ok.2 ⟨(kind :: next :: rest).map id, l,
        run_mapM_map (g := fun k : JsonKind => Json.str k.name) (fun k l => ?_)
          (kind :: next :: rest) l, ?_⟩
      · simp only [JsonKind.ofName?_name]
        rfl
      · rw [List.map_id]
        rfl

/-- What the violations of a value under a compiled schema are, at every level that is deep enough:
the mismatches with the plain schema that it has been read from. -/
def Means (plain : Json) (schema : JsonSchema) : Prop :=
  ∀ library n value, value.size ≤ n → ∀ v, v ∈ violationsAt .draft4 library n schema value ↔
    ∃ t, Mismatch plain value t v

/-- The plain schema is read as one that means it. -/
def ReadsAs (source : Source) (depth : Nat) (plain : Json) (schema : JsonSchema) : Prop :=
  (∀ l, (readAt source depth plain).run l = .ok (schema, l)) ∧ Means plain schema

/-- The mismatches of a value under one member of a plain schema. -/
inductive MismatchUnder (schema : Json) (key : String) : Json → Violation → Prop
  | type {value : Json} {kinds : List JsonKind} : key = "type" →
    schema.askedKinds? = some kinds → kinds.any (·.admits .draft4 value) = false →
    MismatchUnder schema key value (.ofKinds value kinds)
  | property {part value t : Json} {schemas values : List (String × Json)} {name : String}
      {v : Violation} : key = "properties" → schema.get? "properties" = some (.obj schemas) →
    Keyed.find? name schemas = some part → Keyed.find? name values = some value →
    Mismatch part value t v → MismatchUnder schema key (.obj values) v
  | item {part item t : Json} {items : List Json} {v : Violation} : key = "items" →
    schema.get? "items" = some part → item ∈ items → Mismatch part item t v →
    MismatchUnder schema key (.arr items) v

theorem exists_mismatch_iff {schema value : Json} {v : Violation} :
    (∃ t, Mismatch schema value t v) ↔ ∃ key, MismatchUnder schema key value v := by
  constructor
  · rintro ⟨t, h⟩
    cases h with
    | type hkinds hvalue => exact ⟨_, .type rfl hkinds hvalue⟩
    | property hschemas hpart hvalue h => exact ⟨_, .property rfl hschemas hpart hvalue h⟩
    | item hpart hitem h => exact ⟨_, .item rfl hpart hitem h⟩
  · rintro ⟨key, h⟩
    cases h with
    | type _ hkinds hvalue => exact ⟨_, .type hkinds hvalue⟩
    | property _ hschemas hpart hvalue h => exact ⟨_, .property hschemas hpart hvalue h⟩
    | item _ hpart hitem h => exact ⟨_, .item hpart hitem h⟩

/-- The mismatches are those under a member that there is. -/
theorem MismatchUnder.exists_member {members : List (String × Json)} {key : String} {value : Json}
    {v : Violation} (h : MismatchUnder (.obj members) key value v) :
    ∃ w, Keyed.find? key members = some w := by
  cases h with
  | type hkey hkinds _ =>
    obtain ⟨w, hw, -⟩ := Option.bind_eq_some_iff.1 hkinds
    exact ⟨w, hkey ▸ hw⟩
  | property hkey hschemas _ _ _ => exact ⟨_, hkey ▸ hschemas⟩
  | item hkey hpart _ _ => exact ⟨_, hkey ▸ hpart⟩

theorem mismatchUnder_type_iff {schema value : Json} {v : Violation} :
    MismatchUnder schema "type" value v ↔ ∃ kinds, schema.askedKinds? = some kinds ∧
      kinds.any (·.admits .draft4 value) = false ∧ v = .ofKinds value kinds := by
  constructor
  · intro h
    cases h with
    | type _ hkinds hvalue => exact ⟨_, hkinds, hvalue, rfl⟩
    | property hkey => exact absurd hkey (by decide)
    | item hkey => exact absurd hkey (by decide)
  · rintro ⟨kinds, hkinds, hvalue, rfl⟩
    exact .type rfl hkinds hvalue

theorem mismatchUnder_properties_iff {schema value : Json} {v : Violation} :
    MismatchUnder schema "properties" value v ↔ ∃ schemas values name part x,
      schema.get? "properties" = some (.obj schemas) ∧ value = .obj values ∧
      Keyed.find? name schemas = some part ∧ Keyed.find? name values = some x ∧
      ∃ t, Mismatch part x t v := by
  constructor
  · intro h
    cases h with
    | type hkey => exact absurd hkey (by decide)
    | property _ hschemas hpart hx h => exact ⟨_, _, _, _, _, hschemas, rfl, hpart, hx, _, h⟩
    | item hkey => exact absurd hkey (by decide)
  · rintro ⟨schemas, values, name, part, x, hschemas, rfl, hpart, hx, t, h⟩
    exact .property rfl hschemas hpart hx h

theorem mismatchUnder_items_iff {schema value : Json} {v : Violation} :
    MismatchUnder schema "items" value v ↔ ∃ part items, schema.get? "items" = some part ∧
      value = .arr items ∧ ∃ item ∈ items, ∃ t, Mismatch part item t v := by
  constructor
  · intro h
    cases h with
    | type hkey => exact absurd hkey (by decide)
    | property hkey => exact absurd hkey (by decide)
    | item _ hpart hitem h => exact ⟨_, _, hpart, rfl, _, hitem, _, h⟩
  · rintro ⟨part, items, hpart, rfl, item, hitem, t, h⟩
    exact .item rfl hpart hitem h

theorem not_mismatchUnder_nullable {schema value : Json} {v : Violation} :
    ¬MismatchUnder schema "nullable" value v := by
  intro h
  cases h with
  | type hkey => exact absurd hkey (by decide)
  | property hkey => exact absurd hkey (by decide)
  | item hkey => exact absurd hkey (by decide)

section
variable {source : Source} {depth : Nat} {members : List (String × Json)}

theorem find?_eq_none (hmembers : ∀ m ∈ members, PlainMember m.1 m.2) {key : String}
    (hkey : key ∉ ["items", "nullable", "properties", "type"]) :
    Keyed.find? key members = none := by
  rw [Option.eq_none_iff_forall_ne_some]
  exact fun w hw => hkey (hmembers _ (Keyed.mem_of_find? hw)).key_mem

/-- The member is read as keywords whose violations are the mismatches under it. -/
def ReadsMember (source : Source) (depth : Nat) (members : List (String × Json)) (m : String × Json)
    (keywords : List Keyword) : Prop :=
  (∀ l, (readKeyword source (readAt source depth) members m.1 m.2).run l = .ok (keywords, l)) ∧
    ∀ library n all value, value.size ≤ n + 1 → ∀ v,
      (∃ k ∈ keywords, v ∈ violationsBy .draft4 library n all k value) ↔
        MismatchUnder (.obj members) m.1 value v

theorem readsMember_type {word : Json} {kinds : List JsonKind}
    (hfind : Keyed.find? "type" members = some word) (hkinds : word.kinds? = some kinds) :
    ReadsMember source depth members ("type", word) [.types kinds] := by
  refine ⟨fun l => ?_, fun library n all value _ v => ?_⟩
  · simp only [readKeyword]
    exact run_bind_eq_ok.2 ⟨kinds, l, run_readKinds hkinds l, rfl⟩
  · have hasked : (Json.obj members).askedKinds? = some kinds := by
      rw [Json.askedKinds?, Json.get?, hfind, Option.bind_some, hkinds]
    simp only [List.mem_singleton, exists_eq_left, mem_violationsBy_types, mismatchUnder_type_iff,
      hasked, Option.some.injEq, exists_eq_left']

theorem readsMember_nullable (hdraft : source.draft = .draft4) (flag : Bool) :
    ReadsMember source depth members ("nullable", .bool flag) [] := by
  refine ⟨fun l => ?_, fun library n all value _ v => ?_⟩
  · simp only [readKeyword, hdraft, readKeywordDraft4]
    rfl
  · exact iff_of_false (by simp) not_mismatchUnder_nullable

theorem readsMember_items (hdraft : source.draft = .draft4) {part : Json} {schema : JsonSchema}
    (hfind : Keyed.find? "items" members = some part) (hplain : part.isPlain = true)
    (hpart : ReadsAs source depth part schema) :
    ReadsMember source depth members ("items", part) [.items 0 schema] := by
  obtain ⟨hread, hmeans⟩ := hpart
  refine ⟨fun l => ?_, fun library n all value hsize v => ?_⟩
  · -- An object is read as the schema of all items.
    obtain ⟨inner, rfl, -⟩ := Json.exists_members_of_isPlain hplain
    simp only [readKeyword, hdraft, readKeywordDraft4, readItemsDraft4]
    exact run_bind_eq_ok.2 ⟨schema, l, hread l, rfl⟩
  · have hget : (Json.obj members).get? "items" = some part := hfind
    simp only [List.mem_singleton, exists_eq_left, mem_violationsBy_items, List.drop_zero,
      mismatchUnder_items_iff, hget, Option.some.injEq, exists_and_left, exists_eq_left']
    refine exists_congr fun items => and_congr_right fun hvalue => exists_congr fun item =>
      and_congr_right fun hitem => hmeans library n item ?_ v
    have hlt := Json.size_lt_of_mem_items hitem
    subst hvalue
    omega

theorem readsMember_properties {schemas : List (String × Json)}
    (hfind : Keyed.find? "properties" members = some (.obj schemas))
    (hmembers : ∀ m ∈ members, PlainMember m.1 m.2) (hsorted : Keyed.Sorted schemas)
    (hparts : ∀ p ∈ schemas, ∃ schema, ReadsAs source depth p.2 schema) :
    ∃ keywords, ReadsMember source depth members ("properties", .obj schemas) keywords := by
  have hrestricts : restrictsProperties members = false := by
    rw [restrictsProperties, find?_eq_none hmembers (by decide)]
  have hnamed : ∀ p ∈ schemas, ∃ q : String × JsonSchema,
      (∀ l, (do return (p.1, ← readAt source depth p.2) : Reading _).run l = .ok (q, l)) ∧
        q.1 = p.1 ∧ Means p.2 q.2 := by
    intro p hp
    obtain ⟨schema, hread, hmeans⟩ := hparts p hp
    exact ⟨(p.1, schema), fun l => run_bind_eq_ok.2 ⟨schema, l, hread l, rfl⟩, rfl, hmeans⟩
  obtain ⟨named, hread, hleft, hright⟩ := exists_run_mapM hnamed
  refine ⟨[.properties named], fun l => ?_, fun library n all value hsize v => ?_⟩
  · simp only [readKeyword, hrestricts, readNamedSchemas, readMembers]
    exact run_bind_eq_ok.2 ⟨named, l, hread l, rfl⟩
  · simp only [List.mem_singleton, exists_eq_left, mem_violationsBy_properties,
      mismatchUnder_properties_iff]
    constructor
    · rintro ⟨values, rfl, q, hq, x, hx, hv⟩
      obtain ⟨p, hp, hname, hmeans⟩ := hright q hq
      have hlt := Json.size_lt_of_mem_members (Keyed.mem_of_find? hx)
      exact ⟨schemas, values, p.1, p.2, x, hfind, rfl, hsorted.find?_eq_some.2 hp, hname ▸ hx,
        (hmeans library n x (by omega) v).1 hv⟩
    · rintro ⟨schemas', values, name, part, x, hschemas, rfl, hfound, hx, hmismatch⟩
      obtain rfl := Json.obj.inj (Option.some.inj (hfind.symm.trans hschemas))
      obtain ⟨q, hq, hname, hmeans⟩ := hleft _ (Keyed.mem_of_find? hfound)
      have hlt := Json.size_lt_of_mem_members (Keyed.mem_of_find? hx)
      exact ⟨values, rfl, q, hq, x, hname ▸ hx, (hmeans library n x (by omega) v).2 hmismatch⟩

/-- Each member of a plain schema is read so, given what holds of the schemas in it. -/
theorem exists_readsMember (hdraft : source.draft = .draft4) (hordered : Ordered (.obj members))
    (hmembers : ∀ m ∈ members, PlainMember m.1 m.2)
    (ih : ∀ part : Json, part.isPlain = true → part.Ordered →
      part.size < (Json.obj members).size → ∃ schema, ReadsAs source depth part schema)
    {m : String × Json} (hm : m ∈ members) :
    ∃ keywords, ReadsMember source depth members m keywords := by
  have hfind := hordered.sorted.find?_eq_some.2 hm
  have hsmaller := Json.size_lt_of_mem_members hm
  have hchild : (Json.obj members).child? m.1 = some m.2 := hfind
  have hpart := hordered.child hchild
  obtain ⟨key, w⟩ := m
  cases hmembers _ hm with
  | type hkinds => exact ⟨_, readsMember_type hfind hkinds⟩
  | nullable flag => exact ⟨_, readsMember_nullable hdraft flag⟩
  | items hplain =>
    obtain ⟨schema, hreads⟩ := ih _ hplain hpart hsmaller
    exact ⟨_, readsMember_items hdraft hfind hplain hreads⟩
  | properties hparts =>
    refine readsMember_properties hfind hmembers hpart.sorted fun p hp => ?_
    have hfound := hpart.sorted.find?_eq_some.2 hp
    exact ih _ (hparts p hp) (hpart.child hfound)
      ((Json.size_lt_of_mem_members hp).trans hsmaller)

end

/-- Plain schemas are read as ones that mean them. -/
theorem exists_readsAs {source : Source} (hdraft : source.draft = .draft4) {schema : Json}
    (h : schema.isPlain = true) (hordered : schema.Ordered) {depth : Nat}
    (hdepth : schema.size ≤ depth) : ∃ compiled, ReadsAs source depth schema compiled := by
  induction depth generalizing schema with
  | zero =>
    obtain ⟨members, rfl, -⟩ := Json.exists_members_of_isPlain h
    rw [Json.size] at hdepth
    omega
  | succ depth ih =>
    obtain ⟨members, rfl, hmembers⟩ := Json.exists_members_of_isPlain h
    obtain ⟨keywords, hread, hleft, hright⟩ := exists_run_mapM fun m hm =>
      exists_readsMember hdraft hordered hmembers
        (fun part hpart hpartOrdered hsize => ih hpart hpartOrdered (by omega)) hm
    refine ⟨.object keywords.flatten, fun l => ?_, fun library n value hsize v => ?_⟩
    · have href : Keyed.find? "$ref" members = none := find?_eq_none hmembers (by decide)
      simp only [readAt, hdraft, href]
      exact run_bind_eq_ok.2 ⟨keywords, l, hread l, rfl⟩
    · obtain ⟨n, rfl⟩ : ∃ m, n = m + 1 :=
        Nat.exists_eq_succ_of_ne_zero (Nat.ne_of_gt (Nat.lt_of_lt_of_le value.size_pos hsize))
      rw [mem_violationsAt_object, exists_mismatch_iff]
      constructor
      · rintro ⟨k, hk, hv⟩
        obtain ⟨own, hown, hk⟩ := List.mem_flatten.1 hk
        obtain ⟨m, -, hmeans⟩ := hright own hown
        exact ⟨m.1, (hmeans library n _ value hsize v).1 ⟨k, hk, hv⟩⟩
      · rintro ⟨key, hkey⟩
        obtain ⟨w, hw⟩ := hkey.exists_member
        obtain ⟨own, hown, hmeans⟩ := hleft _ (Keyed.mem_of_find? hw)
        obtain ⟨k, hk, hv⟩ := (hmeans library n keywords.flatten value hsize v).2 hkey
        exact ⟨k, List.mem_flatten_of_mem hown hk, hv⟩

/-- **What a plain schema compiles to**: a schema whose violations are the mismatches of the
value. -/
theorem exists_compiled_plain {schema : Json} (h : schema.isPlain = true)
    (hordered : schema.Ordered) : ∃ compiled, compileChecked .draft4 schema = .ok compiled ∧
      ∀ value v, v ∈ compiled.violations .draft4 schema.size value ↔
        ∃ t, Mismatch schema value t v := by
  have hlarge : ∀ a b : Nat, a ≤ (b + 1) * (a + 1) := fun a b =>
    (Nat.le_succ a).trans (Nat.le_mul_of_pos_left _ b.succ_pos)
  have hdraft : (Source.mk .draft4 schema).draft = .draft4 := rfl
  obtain ⟨read, hread, hmeans⟩ := exists_readsAs hdraft h hordered
    (hlarge schema.size schema.size)
  refine ⟨⟨read, []⟩, ?_, fun value v => hmeans [] _ value (hlarge _ _) v⟩
  have hsound : Compiled.violations .draft4 ⟨metaDraft4, [("", metaDraft4)]⟩ metaSize schema = [] :=
    List.eq_nil_iff_forall_not_mem.2 (satisfies_plain h _)
  simp only [compileChecked, metaSchema, hsound]
  exact compile_eq_ok_iff.2 (hread [])

end JsonSchema

end ApiLint
