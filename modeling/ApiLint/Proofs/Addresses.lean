import ApiLint.Proofs.DeadEnds
import ApiLint.Proofs.JsonTrees
import ApiLint.Proofs.Memos

/-!
# Locations address the nodes that objects are built from

An origin addresses a node (`Origin.Addresses`) if the steps of its location lead there from the
root, it covers the same part of the text, and its pointer leads to the same part of the JSON value
of the tree. In a document that repeats no key this holds

* **at every place** that is read (`addresses_of_mem_readingOrder`), because it holds at the root and
  passes from a node to the places of its members (`Member.addresses_of_mem_places`);
* and so **of every object** of the document (`Document.origins_address`), each of which is built
  from the node of a place.

Trees that are nested too deep are cut off as JSON; above that depth, the value of a node is the
same wherever it stands (`Node.toJsonAt_eq_toJson`).
-/

set_option autoImplicit false

namespace ApiLint

open Yaml (Node)

/-! ## Following steps -/

namespace Yaml.Node

/-- The node one step below: under the first key with the text of the step, or at its position. -/
def step? (n : Node) : Segment → Option Node
  | .field name | .key name => (n.fields.lookup name).map (·.2)
  | .index i => n.items?.bind (·[i]?)

/-- The node that the steps of a location lead to. -/
def at? (n : Node) (l : Location) : Option Node := l.segments.foldlM step? n

theorem at?_child (n : Node) (l : Location) (s : Segment) :
    n.at? (l.child s) = (n.at? l).bind (·.step? s) := by
  simp [at?, Location.child, List.foldlM_append]

theorem mem_fields_of_entry {n key value : Node} {text : String}
    (h : n.entry? text = some (key, value)) : (text, key, value) ∈ n.fields := by
  obtain ⟨entries, span, rfl, hmem⟩ := mem_of_entry h
  have hkey : key.str? = some text := by simpa using List.find?_some h
  have htext : key.keyText = text := by
    cases key with
    | scalar v _ => cases v <;> simp_all [str?, keyText, scalarKey]
    | sequence _ _ => cases hkey
    | mapping _ _ => cases hkey
  exact List.mem_map.2 ⟨(key, value), hmem, by rw [htext]⟩

section
variable {n key value : Node} {text : String} (hd : n.keysDistinct = true)
include hd

theorem lookup_fields (h : (text, key, value) ∈ n.fields) :
    (n.fields.lookup text).map (·.2) = some value := by
  rw [lookup_of_mem_of_nodup (fields_nodup hd) h]
  rfl

theorem step?_of_entry (h : n.entry? text = some (key, value)) :
    n.step? (.field text) = some value :=
  lookup_fields hd (mem_fields_of_entry h)

theorem step?_of_get (h : n.get? text = some value) : n.step? (.field text) = some value :=
  let ⟨_, he⟩ := entry_of_get h
  step?_of_entry hd he

/-- An item stands two steps below the node whose field its sequence is. -/
theorem at?_of_mem_itemsAt {root : Node} {l : Location} {i : Nat} (hn : root.at? l = some n)
    (h : (value, i) ∈ ((n.itemsAt? text).getD []).zipIdx) :
    root.at? ((l.field text).index i) = some value := by
  cases hg : n.get? text with
  | none => simp [itemsAt?, hg] at h
  | some m =>
    have hm : root.at? (l.field text) = some m := by
      rw [Location.field, at?_child, hn]
      exact step?_of_get hd hg
    have hi : ((n.itemsAt? text).getD [])[i]? = some value :=
      List.mem_zipIdx_iff_getElem?.1 h
    rw [Location.index, at?_child, hm]
    cases m with
    | scalar _ _ => simp [itemsAt?, hg, items?] at hi
    | mapping _ _ => simp [itemsAt?, hg, items?] at hi
    | sequence items _ => simpa [itemsAt?, hg, items?, step?] using hi

end

/-! ## Trees as JSON -/

mutual

/-- How many levels of values there are below a node. -/
def height : Node → Nat
  | scalar _ _ => 0
  | sequence items _ => itemsHeight items
  | mapping entries _ => entriesHeight entries

def itemsHeight : List Node → Nat
  | [] => 0
  | item :: rest => max (height item + 1) (itemsHeight rest)

def entriesHeight : List (Node × Node) → Nat
  | [] => 0
  | (_, value) :: rest => max (height value + 1) (entriesHeight rest)

end

theorem height_lt_of_mem_items {item : Node} {items : List Node} (h : item ∈ items) :
    item.height < itemsHeight items := by
  induction items with
  | nil => cases h
  | cons i items ih =>
    rw [itemsHeight]
    rcases List.mem_cons.1 h with rfl | h
    · omega
    · have := ih h; omega

theorem height_lt_of_mem_entries {key value : Node} {entries : List (Node × Node)}
    (h : (key, value) ∈ entries) : value.height < entriesHeight entries := by
  induction entries with
  | nil => cases h
  | cons e entries ih =>
    obtain ⟨k, x⟩ := e
    rw [entriesHeight]
    rcases List.mem_cons.1 h with h | h
    · cases h; omega
    · have := ih h; omega

theorem itemsAt_eq_map (depth : Nat) (items : List Node) :
    itemsAt depth items = items.map (toJsonAt depth) := by
  induction items with
  | nil => rfl
  | cons item items ih => rw [itemsAt, ih, List.map_cons]

/-- The members of a mapping are its entries under the texts of their keys. -/
theorem membersAt_eq_ofList (depth : Nat) (entries : List (Node × Node)) :
    membersAt depth entries [] =
      Keyed.ofList (entries.map fun e => (e.1.keyText, toJsonAt depth e.2)) := by
  have hfold : ∀ members, membersAt depth entries members =
      (entries.map fun e => (e.1.keyText, toJsonAt depth e.2)).foldl
        (fun out p => Keyed.insert p.1 p.2 out) members := by
    induction entries with
    | nil => intro members; rfl
    | cons e entries ih =>
      intro members
      obtain ⟨key, value⟩ := e
      cases key <;> exact ih _
  exact hfold []

/-- **The value of a node** that is not cut off is the same wherever the node stands. -/
theorem toJsonAt_eq_toJson {depth : Nat} {n : Node} (h : depth + n.height ≤ maxJsonDepth) :
    toJsonAt depth n = n.toJson := by
  have hdepth : ¬depth > maxJsonDepth := by omega
  have hzero : ¬0 > maxJsonDepth := by omega
  cases n with
  | scalar v span => simp only [toJson, toJsonAt, hdepth, hzero, ↓reduceIte]
  | sequence items span =>
    have hitem : ∀ item ∈ items, toJsonAt (depth + 1) item = toJsonAt (0 + 1) item := by
      intro item hitem
      have hlt : item.height < height (.sequence items span) := height_lt_of_mem_items hitem
      have hsize : item.size < size (.sequence items span) :=
        Nat.lt_succ_of_le (size_le_of_mem_items hitem)
      rw [toJsonAt_eq_toJson (by omega), toJsonAt_eq_toJson (by omega)]
    simp only [toJson, toJsonAt, hdepth, hzero, ↓reduceIte, itemsAt_eq_map]
    rw [List.map_congr_left hitem]
  | mapping entries span =>
    have hentry : ∀ e ∈ entries,
        (e.1.keyText, toJsonAt (depth + 1) e.2) = (e.1.keyText, toJsonAt (0 + 1) e.2) := by
      intro e he
      have hlt : e.2.height < height (.mapping entries span) := height_lt_of_mem_entries he
      have hsize : e.2.size < size (.mapping entries span) :=
        Nat.lt_succ_of_le (size_le_of_mem_entries he)
      rw [toJsonAt_eq_toJson (by omega), toJsonAt_eq_toJson (by omega)]
    simp only [toJson, toJsonAt, hdepth, hzero, ↓reduceIte, membersAt_eq_ofList]
    rw [List.map_congr_left hentry]
termination_by n.size

theorem mem_of_lookup_fields {n value : Node} {text : String}
    (h : (n.fields.lookup text).map (·.2) = some value) : ∃ key, (text, key, value) ∈ n.fields := by
  obtain ⟨⟨key, x⟩, hlookup, rfl⟩ := Option.map_eq_some_iff.1 h
  exact ⟨key, mem_of_lookup hlookup⟩

/-- A step through a tree is a step through its value. -/
theorem child?_toJson {n m : Node} {s : Segment} (hd : n.keysDistinct = true)
    (hh : n.height ≤ maxJsonDepth) (h : n.step? s = some m) :
    n.toJson.child? s.text = some m.toJson ∧ m.keysDistinct = true ∧ m.height < n.height := by
  have hzero : ¬0 > maxJsonDepth := by omega
  have hfield : ∀ text, (n.fields.lookup text).map (·.2) = some m →
      n.toJson.child? text = some m.toJson ∧ m.keysDistinct = true ∧ m.height < n.height := by
    intro text hlookup
    obtain ⟨key, hmem⟩ := mem_of_lookup_fields hlookup
    have hnodup := fields_nodup hd
    have hdistinct := keysDistinct_of_mem_fields hd hmem
    cases n with
    | scalar _ _ => cases hmem
    | sequence _ _ => cases hmem
    | mapping entries span =>
      obtain ⟨e, he, hkey⟩ := List.mem_map.1 hmem
      obtain ⟨rfl, he'⟩ := Prod.mk.inj hkey
      obtain ⟨rfl, rfl⟩ := Prod.mk.inj he'
      have hlt : e.2.height < height (.mapping entries span) := height_lt_of_mem_entries he
      refine ⟨?_, hdistinct, hlt⟩
      simp only [toJson, toJsonAt, hzero, ↓reduceIte, membersAt_eq_ofList, Json.child?]
      rw [Keyed.find?_ofList_of_mem (v := toJsonAt (0 + 1) e.2), toJsonAt_eq_toJson (by omega)]
      · rfl
      · simpa [fields, entries?, Function.comp_def] using hnodup
      · exact List.mem_map_of_mem (f := fun e : Node × Node => (e.1.keyText, toJsonAt (0 + 1) e.2)) he
  cases s with
  | field name => exact hfield name h
  | key name => exact hfield name h
  | index i =>
    cases n with
    | scalar _ _ => cases h
    | mapping _ _ => cases h
    | sequence items span =>
      have hi : items[i]? = some m := h
      have hmem : m ∈ items := List.mem_of_getElem? hi
      have hlt : m.height < height (.sequence items span) := height_lt_of_mem_items hmem
      refine ⟨?_, keysDistinct_of_mem_items (by rwa [keysDistinct] at hd) hmem, hlt⟩
      simp only [toJson, toJsonAt, hzero, ↓reduceIte, itemsAt_eq_map, Json.child?, Segment.text,
        Json.position?_eq_some.2 rfl]
      simp only [Option.bind_eq_bind, Option.bind_some, List.getElem?_map, hi, Option.map_some]
      rw [toJsonAt_eq_toJson (by omega)]
      rfl

/-- The steps of a location lead through the value of a tree as they lead through the tree. -/
theorem descend?_toJson {n m : Node} {l : Location} (hd : n.keysDistinct = true)
    (hh : n.height ≤ maxJsonDepth) (h : n.at? l = some m) :
    n.toJson.descend? l.texts = some m.toJson := by
  obtain ⟨segments⟩ := l
  change segments.foldlM step? n = some m at h
  change n.toJson.descend? (segments.map Segment.text) = some m.toJson
  induction segments generalizing n with
  | nil =>
    obtain rfl := Option.some.inj h
    rfl
  | cons s segments ih =>
    rw [List.foldlM_cons] at h
    obtain ⟨k, hk, hrest⟩ := Option.bind_eq_some_iff.1 h
    obtain ⟨hchild, hdistinct, hlt⟩ := child?_toJson hd hh hk
    rw [List.map_cons, Json.descend?_cons, hchild]
    exact ih hdistinct (by omega) hrest

end Yaml.Node

/-! ## Reading pointers -/

/-- Each step of a pointer is a piece of it. -/
theorem splitAt_pointer (ss : List Segment) :
    Text.splitAt (· == '/') (ss.flatMap Segment.pointer) =
      [] :: ss.map fun s => s.text.toList.flatMap Segment.escapePointer := by
  induction ss with
  | nil => rfl
  | cons s ss ih =>
    have hs : ∀ c ∈ s.text.toList.flatMap Segment.escapePointer, (c == '/') = false := by
      intro c hc
      rw [beq_eq_false_iff_ne]
      rintro rfl
      exact slash_notMem_escapePointer _ hc
    rw [List.flatMap_cons, Segment.pointer, List.cons_append, Text.splitAt, Text.splitAt_append hs
      ih]
    simp

/-- **The pointer of a location**, without its `#`, reads as the texts of the location's steps. -/
theorem Location.exists_pointer_eq (l : Location) :
    ∃ p, l.pointer = "#" ++ p ∧ ∀ v : Json, v.pointer? p = v.descend? l.texts := by
  refine ⟨String.ofList (l.segments.flatMap Segment.pointer), ?_, fun v => ?_⟩
  · rw [← String.toList_inj]
    simp [Location.pointer]
  obtain ⟨segments⟩ := l
  cases segments with
  | nil => rfl
  | cons s ss =>
    set p := String.ofList ((s :: ss).flatMap Segment.pointer) with hp
    have htexts : pointerTexts p = texts ⟨s :: ss⟩ := by
      rw [pointerTexts, hp, String.toList_ofList, splitAt_pointer]
      simp [texts, unescapePointer_escape]
    have hslash : p.startsWith "/" = true := by
      refine String.startsWith_string_iff.2
        ⟨s.text.toList.flatMap Segment.escapePointer ++ ss.flatMap Segment.pointer, ?_⟩
      simp [hp, Segment.pointer]
    rw [(Json.pointer?_of_slash hslash).2, htexts]

/-! ## Places stand where their locations lead -/

/-- The origin is that of the node: its location leads there, step by step through the tree and by
its pointer through the JSON value of the tree, unless that is cut off. -/
structure Origin.Addresses (root : Node) (o : Origin) (n : Node) : Prop where
  node : root.at? o.location = some n
  mark : o.mark = n.mark
  stop : o.stop = n.stop
  json : root.height ≤ 500 →
    ∃ p, o.location.pointer = "#" ++ p ∧ root.toJson.pointer? p = some n.toJson

section
variable {root : Node} (hd : root.keysDistinct = true)
include hd

theorem Origin.Addresses.ofEntry {l : Location} {key value : Node} (h : root.at? l = some value) :
    (Origin.ofEntry l key value).Addresses root value where
  node := h
  mark := rfl
  stop := rfl
  json hh := by
    obtain ⟨p, hp, hpointer⟩ := l.exists_pointer_eq
    exact ⟨p, hp, (hpointer _).trans (Node.descend?_toJson hd hh h)⟩

theorem Member.addresses_of_mem_places {m : Member} {node : Node} {l : Location} {q : Place}
    (hnode : node.keysDistinct = true) (hl : root.at? l = some node) (h : q ∈ m.places node l) :
    q.origin.Addresses root q.node := by
  have hfield : ∀ {key value : Node}, node.entry? m.name = some (key, value) →
      root.at? (l.field m.name) = some value := by
    intro key value he
    rw [Location.field, Node.at?_child, hl]
    exact Node.step?_of_entry hnode he
  cases holds_of_mem_places h with
  | value he => exact .ofEntry hd (hfield he)
  | entry hmap he =>
    obtain ⟨key', hentry⟩ := Node.entry_of_get hmap
    refine .ofEntry hd ?_
    rw [Location.key, Node.at?_child, hfield hentry]
    exact Node.lookup_fields (Node.keysDistinct_of_get hnode hmap) he
  | item he => exact .ofEntry hd (Node.at?_of_mem_itemsAt hnode hl he)

namespace Place

theorem addresses_of_mem_parts {v : SpecVersion} {p q : Place} (hp : p.node.keysDistinct = true)
    (haddr : p.origin.Addresses root p.node) (h : q ∈ p.parts v) :
    q.origin.Addresses root q.node := by
  rcases (mem_parts h).2 with ⟨m, -, hq⟩ | ⟨-, hq⟩
  · exact Member.addresses_of_mem_places hd hp haddr.node hq
  · obtain ⟨method, key, value, hfield, -, rfl⟩ := mem_operations hq
    refine .ofEntry hd ?_
    rw [Location.field, Node.at?_child, Place.location, haddr.node]
    exact Node.lookup_fields hp hfield

theorem addresses_of_mem_order {v : SpecVersion} {p q : Place} (hp : p.node.keysDistinct = true)
    (haddr : p.origin.Addresses root p.node) (h : q ∈ p.order v) :
    q.origin.Addresses root q.node :=
  (forall_mem_order
    (motive := fun q => q.node.keysDistinct = true ∧ q.origin.Addresses root q.node)
    (fun _ hq => hq)
    (fun _ _ hq hr => ⟨keysDistinct_of_mem_parts hq.1 hr, addresses_of_mem_parts hd hq.1 hq.2 hr⟩)
    ⟨hp, haddr⟩ q h).2

end Place

theorem addresses_of_mem_componentPlaces {v : SpecVersion} {e : Place}
    (h : e ∈ componentPlaces v root) : e.origin.Addresses root e.node := by
  rcases exists_of_mem_componentPlaces h with ⟨x, -, he⟩ | ⟨node, kind, hg, he⟩
  · exact Member.addresses_of_mem_places hd hd rfl he
  · refine Member.addresses_of_mem_places hd (Node.keysDistinct_of_get hd hg) ?_ he
    rw [Location.field, Node.at?_child]
    exact Node.step?_of_get hd hg

/-- **Every place stands where its location leads.** -/
theorem addresses_of_mem_readingOrder {v : SpecVersion} {p : Place}
    (h : p ∈ readingOrder v root) : p.origin.Addresses root p.node := by
  rcases List.mem_append.1 h with h | h
  · obtain ⟨e, he, hp⟩ := List.mem_flatMap.1 h
    have haddr := addresses_of_mem_componentPlaces hd he
    have hdistinct := keysDistinct_of_mem_componentPlaces hd he
    rcases mem_entryOrder hp with hp | rfl
    · refine Place.addresses_of_mem_order hd (p := e.held) ?_ ?_ hp
      · rwa [Place.node_held]
      · rwa [Place.node_held, Place.origin_held]
    · exact haddr
  · obtain ⟨q, hq, hp⟩ := List.mem_flatMap.1 h
    have hq := (List.mem_filter.1 hq).1
    exact Place.addresses_of_mem_order hd (Member.keysDistinct_of_mem_places hd hq)
      (Member.addresses_of_mem_places hd hd rfl hq) hp

theorem ReadAfter.addresses {v : SpecVersion} {h : List Place} {p : Place}
    (hp : ReadAfter v root h p) : p.origin.Addresses root p.node := by
  obtain ⟨b, hb⟩ := readAfter_iff.1 hp
  exact addresses_of_mem_readingOrder hd (hb ▸ List.mem_append_cons_self)

end

/-! ## The objects of a document -/

theorem mem_componentsOf {v : SpecVersion} {h es : List Place} {c : Component}
    (hc : c ∈ componentsOf v h es) :
    ∃ ps e qs kind, es = ps ++ e :: qs ∧ e.role = .component kind ∧
      c = componentOf kind (h ++ ps.flatMap (Place.entryOrder v)) e := by
  induction es generalizing h with
  | nil => cases hc
  | cons e es ih =>
    rw [componentsOf] at hc
    rcases List.mem_append.1 hc with hc | hc
    · split at hc
      · rename_i kind hkind
        obtain rfl := List.mem_singleton.1 hc
        exact ⟨[], e, es, kind, rfl, hkind, by simp⟩
      · cases hc
    · obtain ⟨ps, e', qs, kind, rfl, hkind, rfl⟩ := ih hc
      exact ⟨e :: ps, e', qs, kind, rfl, hkind, by simp⟩

namespace Document

/-- The object is what became of a place with that node. -/
def BuiltFrom (d : Document) : (s : Store) → s.Object → Node → Prop
  | .components, x, n => ∃ ps e qs kind, componentPlaces d.specVersion d.root = ps ++ e :: qs ∧
      e.role = .component kind ∧ e.node = n ∧
      x = followed d.pointers (componentOf kind (ps.flatMap (Place.entryOrder d.specVersion)) e)
  | s, x, n => ∃ h p, ReadAfter d.specVersion d.root h p ∧ p.reference? = none ∧
      p.role.store? = some s ∧ p.node = n ∧ p.Describes d.specVersion h s x ∧ p.ReadOff s x

/-- The path item is what became of a place with that node. -/
def PathItemFrom (d : Document) (item : PathItem) (n : Node) : Prop :=
  ∃ h p, ReadAfter d.specVersion d.root h p ∧ p.role = .pathItem ∧ p.node = n ∧
    item = p.pathItemOf d.specVersion d.entries h

/-- The operation is what became of a place with that node. -/
def OperationFrom (d : Document) (op : Operation) (n : Node) : Prop :=
  ∃ h p, ReadAfter d.specVersion d.root h p ∧ p.role = .operation ∧ p.node = n ∧
    op = p.operationOf d.specVersion d.entries h

namespace Loaded

variable {d : Document} {draft : Draft} (hd : d.Loaded draft)
include hd

theorem exists_builtFrom (hkeys : d.root.keysDistinct = true) {s : Store} {x : s.Object}
    (hx : x ∈ d.arena s) :
    ∃ n, d.BuiltFrom s x n ∧ (s.originOf x).Addresses d.root n := by
  by_cases hs : s = .components
  · subst hs
    have hx : x ∈ d.components := hx
    rw [hd.components, hd.hasRead.components, Array.mem_map] at hx
    obtain ⟨c, hc, rfl⟩ := hx
    obtain ⟨ps, e, qs, kind, hcut, hkind, rfl⟩ := mem_componentsOf (List.mem_toArray.1 hc)
    refine ⟨e.node, ⟨ps, e, qs, kind, hcut, hkind, rfl, by rw [hd.pointers]; rfl⟩, ?_⟩
    have horigin := (names_followed draft.pointers (componentOf kind
      ([] ++ ps.flatMap (Place.entryOrder d.specVersion)) e)).2.2
    have haddr := addresses_of_mem_componentPlaces hkeys (hcut ▸ List.mem_append_cons_self)
    rwa [show e.origin = _ from horigin.symm] at haddr
  · rw [hd.arena_eq hs] at hx
    obtain ⟨i, hi⟩ := Array.mem_iff_getElem?.1 hx
    obtain ⟨h, p, hp, href, hstore, -, hdesc, hread⟩ := hd.place_of_arena_readOff hi
    refine ⟨p.node, ?_, ?_⟩
    · cases s
      case components => exact absurd rfl hs
      all_goals exact ⟨h, p, hp, href, hstore, rfl, hdesc, hread⟩
    · rw [hdesc.originOf hs]
      exact hp.addresses hkeys

theorem exists_place_of_item {item : PathItem} (hitem : item ∈ d.paths) :
    ∃ h p, ReadAfter d.specVersion d.root h p ∧ p.role = .pathItem ∧
      item = p.pathItemOf d.specVersion d.entries h := by
  have hitem := Array.mem_toList_iff.2 hitem
  rw [hd.filled.paths] at hitem
  obtain ⟨⟨h, p⟩, hp, rfl⟩ := List.mem_map.1 hitem
  obtain ⟨hread, hrole⟩ := ReadAfter.of_mem_paths hp
  exact ⟨h, p, hread, hrole, rfl⟩

theorem exists_place_of_operation {item : PathItem} {op : Operation}
    (hop : (item, op) ∈ d.operations) :
    ∃ h p, ReadAfter d.specVersion d.root h p ∧ p.role = .operation ∧
      op = p.operationOf d.specVersion d.entries h := by
  obtain ⟨item', hitem, hpair⟩ := List.mem_flatMap.1 hop
  obtain ⟨op', hin, he⟩ := List.mem_map.1 hpair
  obtain ⟨rfl, rfl⟩ := Prod.mk.inj he
  obtain ⟨h, p, hp, hrole, rfl⟩ := hd.exists_place_of_item (Array.mem_toList_iff.1 hitem)
  obtain ⟨⟨h', q⟩, hq, rfl⟩ := List.mem_map.1 hin
  have hmem : q ∈ p.operations := by
    obtain ⟨ps, rs, hcut, -⟩ := mem_moments hq
    exact hcut ▸ List.mem_append_cons_self
  exact ⟨h', q, hp.of_mem_operations hrole hq, Place.role_of_mem_operations hmem, rfl⟩

end Loaded

/-- **Origins address the nodes that objects are built from**, in a document that repeats no key. -/
theorem origins_address (root : Node) (d : Document) (h : ofNode root = .ok d)
    (hkeys : root.keysDistinct = true) :
    (∀ s, ∀ x ∈ d.arena s, ∃ n, d.BuiltFrom s x n ∧ (s.originOf x).Addresses root n) ∧
    (∀ item ∈ d.paths, ∃ n, d.PathItemFrom item n ∧ item.origin.Addresses root n) ∧
    ∀ item op, (item, op) ∈ d.operations →
      ∃ n, d.OperationFrom op n ∧ op.origin.Addresses root n := by
  obtain ⟨rfl, draft, hd⟩ := loaded_of_ofNode h
  refine ⟨fun s x hx => hd.exists_builtFrom hkeys hx, fun item hitem => ?_, fun item op hop => ?_⟩
  · obtain ⟨h, p, hp, hrole, rfl⟩ := hd.exists_place_of_item hitem
    exact ⟨p.node, ⟨h, p, hp, hrole, rfl, rfl⟩, hp.addresses hkeys⟩
  · obtain ⟨h, p, hp, hrole, rfl⟩ := hd.exists_place_of_operation hop
    exact ⟨p.node, ⟨h, p, hp, hrole, rfl, rfl⟩, hp.addresses hkeys⟩

/-- A document with a schema behind an item that is none, below a key with a slash and a tilde. -/
def nested : Node :=
  .table 1 [("openapi", .word "3.1.0" 1),
    ("paths", .table 3 [("/pets~", .table 4 [("get", .table 5 [
      ("parameters", .sequence [.table 7 [
        ("schema", .table 8 [
          ("allOf", .sequence [.word "none" 10, .table 11 []] ⟨⟨10, 1⟩, ⟨12, 1⟩⟩)])]]
        ⟨⟨7, 1⟩, ⟨13, 1⟩⟩)])])])]

theorem origins_address_nested : ∃ d, ofNode nested = .ok d ∧ ∃ x, d.schemas[1]? = some x ∧
    ∃ n, d.BuiltFrom .schemas x n ∧ nested.at? x.origin.location = some n ∧
      nested.toJson.pointer? "/paths/~1pets~0/get/parameters/0/schema/allOf/1" =
        some n.toJson := by
  have hrun : ((ofNode nested).toOption.bind fun d =>
      d.schemas[1]?.map fun x => x.origin.location.pointer) =
        some "#/paths/~1pets~0/get/parameters/0/schema/allOf/1" := by decide +kernel
  obtain ⟨d, hd, he⟩ := ofNode_of_toOption hrun
  obtain ⟨x, hx, hpointer⟩ := Option.map_eq_some_iff.1 he
  obtain ⟨hobjects, -, -⟩ := origins_address nested d hd (by decide +kernel)
  obtain ⟨n, hbuilt, haddr⟩ := hobjects .schemas x (Array.mem_of_getElem? hx)
  obtain ⟨p, hp, hjson⟩ := haddr.json (by decide +kernel)
  have hp : p = "/paths/~1pets~0/get/parameters/0/schema/allOf/1" := by
    have hp : "#" ++ "/paths/~1pets~0/get/parameters/0/schema/allOf/1" = "#" ++ p :=
      hpointer.symm.trans hp
    simpa [← String.toList_inj] using hp.symm
  exact ⟨d, hd, x, hx, n, hbuilt, haddr.node, hp ▸ hjson⟩

end Document

end ApiLint
