import ApiLint.Proofs.Following

/-!
# Trees without their marks

`Node.unmarked` is a tree as if nothing was said of where in the text it stands. What is read off a
node is the same but for marks (`Node.keyText_unmarked`, `Node.texts_unmarked`, …), and what stands
below it is without marks, too. So the places of a tree without marks are those of the tree, in the
same order (`Place.order_unmarked`, `componentPlaces_unmarked`, `pathPlaces_unmarked`).
-/

set_option autoImplicit false

namespace ApiLint

open Yaml (Mark Node Span)

/-! ## Nodes -/

namespace Yaml.Node

def noMark : Mark := ⟨0, 0⟩

def noSpan : Span := ⟨noMark, noMark⟩

mutual

/-- The tree without its marks. -/
def unmarked : Node → Node
  | scalar value _ => scalar value noSpan
  | sequence items _ => sequence (unmarkedItems items) noSpan
  | mapping entries _ => mapping (unmarkedEntries entries) noSpan

def unmarkedItems : List Node → List Node
  | [] => []
  | item :: rest => unmarked item :: unmarkedItems rest

def unmarkedEntries : List (Node × Node) → List (Node × Node)
  | [] => []
  | (key, value) :: rest => (unmarked key, unmarked value) :: unmarkedEntries rest

end

/-- An entry without its marks. -/
def unmarkedEntry (e : Node × Node) : Node × Node := (e.1.unmarked, e.2.unmarked)

theorem unmarkedItems_eq (items : List Node) : unmarkedItems items = items.map unmarked := by
  induction items with
  | nil => rfl
  | cons item rest ih => rw [unmarkedItems, ih, List.map_cons]

theorem unmarkedEntries_eq (entries : List (Node × Node)) :
    unmarkedEntries entries = entries.map unmarkedEntry := by
  induction entries with
  | nil => rfl
  | cons e rest ih =>
    obtain ⟨key, value⟩ := e
    rw [unmarkedEntries, ih, List.map_cons, unmarkedEntry]

/-! ## Texts and values -/

theorem membersAt_cons (depth : Nat) (key value : Node) (rest : List (Node × Node))
    (members : List (String × Json)) :
    membersAt depth ((key, value) :: rest) members =
      membersAt depth rest (Keyed.insert key.keyText (toJsonAt depth value) members) := by
  cases key <;> rfl

theorem keyText_unmarked_of_toJson {n : Node} (h : toJsonAt 0 n.unmarked = toJsonAt 0 n) :
    n.unmarked.keyText = n.keyText := by
  cases n with
  | scalar _ _ => rfl
  | sequence _ _ => exact congrArg Json.compact h
  | mapping _ _ => exact congrArg Json.compact h

mutual

theorem toJsonAt_unmarked (depth : Nat) : (n : Node) →
    toJsonAt depth n.unmarked = toJsonAt depth n
  | scalar _ _ => rfl
  | sequence items _ => by
    rw [unmarked, toJsonAt, toJsonAt, itemsAt_unmarked (depth + 1) items]
  | mapping entries _ => by
    rw [unmarked, toJsonAt, toJsonAt, membersAt_unmarked (depth + 1) entries []]

theorem itemsAt_unmarked (depth : Nat) : (items : List Node) →
    itemsAt depth (unmarkedItems items) = itemsAt depth items
  | [] => rfl
  | item :: rest => by
    rw [unmarkedItems, itemsAt, itemsAt, toJsonAt_unmarked depth item, itemsAt_unmarked depth rest]

theorem membersAt_unmarked (depth : Nat) : (entries : List (Node × Node)) →
    (members : List (String × Json)) →
    membersAt depth (unmarkedEntries entries) members = membersAt depth entries members
  | [], _ => rfl
  | (key, value) :: rest, members => by
    have hkey := keyText_unmarked_of_toJson (toJsonAt_unmarked 0 key)
    rw [unmarkedEntries, membersAt_cons, membersAt_cons, hkey, toJsonAt_unmarked depth value,
      membersAt_unmarked depth rest]

end

section
variable (n : Node) (key : String)

@[simp]
theorem keyText_unmarked : n.unmarked.keyText = n.keyText :=
  keyText_unmarked_of_toJson (toJsonAt_unmarked 0 n)

@[simp]
theorem str?_unmarked : n.unmarked.str? = n.str? := by
  cases n with
  | scalar x _ => cases x <;> rfl
  | sequence _ _ => rfl
  | mapping _ _ => rfl

@[simp]
theorem texts_unmarked : n.unmarked.texts = n.texts := by
  cases n with
  | scalar x _ => cases x <;> rfl
  | sequence items _ =>
    rw [unmarked, texts, texts, unmarkedItems_eq, List.map_map]
    exact List.map_congr_left fun item _ => keyText_unmarked item
  | mapping entries span =>
    show [(mapping entries span).unmarked.keyText] = [(mapping entries span).keyText]
    rw [keyText_unmarked]

/-! ## Parts of nodes -/

theorem entries?_unmarked : n.unmarked.entries? = n.entries?.map (List.map unmarkedEntry) := by
  cases n with
  | scalar _ _ => rfl
  | sequence _ _ => rfl
  | mapping entries _ => exact congrArg some (unmarkedEntries_eq entries)

theorem items?_unmarked : n.unmarked.items? = n.items?.map (List.map unmarked) := by
  cases n with
  | scalar _ _ => rfl
  | sequence items _ => exact congrArg some (unmarkedItems_eq items)
  | mapping _ _ => rfl

@[simp]
theorem isMapping_unmarked : n.unmarked.isMapping = n.isMapping := by
  rw [isMapping, isMapping, entries?_unmarked, Option.isSome_map]

@[simp]
theorem entry?_unmarked : n.unmarked.entry? key = (n.entry? key).map unmarkedEntry := by
  have hkey : (fun e : Node × Node => (unmarkedEntry e).1.str? == some key) =
      fun e => e.1.str? == some key := funext fun e => by rw [unmarkedEntry, str?_unmarked]
  unfold entry?
  rw [entries?_unmarked]
  cases n.entries? with
  | none => rfl
  | some entries =>
    show (entries.map unmarkedEntry).find? _ = (entries.find? _).map unmarkedEntry
    rw [List.find?_map]
    exact congrArg (fun p => (entries.find? p).map unmarkedEntry) hkey

@[simp]
theorem get?_unmarked : n.unmarked.get? key = (n.get? key).map unmarked := by
  rw [get?, get?, entry?_unmarked, Option.map_map, Option.map_map]
  rfl

@[simp]
theorem hasKey_unmarked : n.unmarked.hasKey key = n.hasKey key := by
  rw [hasKey, hasKey, entry?_unmarked, Option.isSome_map]

@[simp]
theorem textAt?_unmarked : n.unmarked.textAt? key = n.textAt? key := by
  rw [textAt?, textAt?, get?_unmarked]
  cases n.get? key <;> simp

@[simp]
theorem reference?_unmarked : n.unmarked.reference? = n.reference? := textAt?_unmarked n "$ref"

@[simp]
theorem itemsAt?_unmarked : n.unmarked.itemsAt? key = (n.itemsAt? key).map (List.map unmarked) := by
  rw [itemsAt?, itemsAt?, get?_unmarked]
  cases n.get? key <;> simp [items?_unmarked]

@[simp]
theorem fields_unmarked : n.unmarked.fields =
    n.fields.map fun (name, e) => (name, unmarkedEntry e) := by
  rw [fields, fields, entries?_unmarked]
  cases n.entries? <;> simp [unmarkedEntry]

end

/-- A table without its marks does not tell on which line it stood. -/
theorem table_unmarked (line : Nat) (entries : List (String × Node)) :
    (table line entries).unmarked =
      mapping (entries.map fun x => (scalar (.text x.1) noSpan, x.2.unmarked)) noSpan := by
  rw [table, unmarked, unmarkedEntries_eq, List.map_map]
  conv_rhs => rw [← entries.zipIdx_map_fst 0, List.map_map]
  rfl

end Yaml.Node

/-! ## Places -/

def Origin.unmarked (o : Origin) : Origin := ⟨o.location, Node.noMark, Node.noMark, Node.noMark⟩

theorem Origin.ofEntry_unmarked (l : Location) (key value : Node) :
    Origin.ofEntry l key.unmarked value.unmarked = (Origin.ofEntry l key value).unmarked := by
  cases key <;> cases value <;> rfl

namespace Place

/-- The place in the tree without its marks. -/
def unmarked (p : Place) : Place := ⟨p.role, p.name, p.node.unmarked, p.origin.unmarked⟩

section
variable (v : SpecVersion) (p : Place)

@[simp]
theorem role_unmarked : p.unmarked.role = p.role := rfl

@[simp]
theorem name_unmarked : p.unmarked.name = p.name := rfl

@[simp]
theorem node_unmarked : p.unmarked.node = p.node.unmarked := rfl

@[simp]
theorem location_unmarked : p.unmarked.location = p.location := rfl

@[simp]
theorem pointer_unmarked : p.unmarked.pointer = p.pointer := rfl

@[simp]
theorem reference?_unmarked : p.unmarked.reference? = p.reference? := by
  rw [reference?, reference?, node_unmarked, Node.reference?_unmarked, role_unmarked]

@[simp]
theorem isOwnSchema_unmarked : p.unmarked.isOwnSchema v = p.isOwnSchema v := by
  simp [isOwnSchema]

@[simp]
theorem members_unmarked : p.unmarked.members v = p.members v := by
  simp only [members, role_unmarked, isOwnSchema_unmarked]

end

end Place

theorem Member.places_unmarked (m : Member) (node : Node) (l : Location) :
    m.places node.unmarked l = (m.places node l).map Place.unmarked := by
  have hplace : ∀ (l : Location) (name : String) (key value : Node),
      Place.mk m.role name value.unmarked (Origin.ofEntry l key.unmarked value.unmarked) =
        (Place.mk m.role name value (Origin.ofEntry l key value)).unmarked := by
    intro l name key value
    rw [Origin.ofEntry_unmarked]
    rfl
  have hitems : ((node.unmarked.itemsAt? m.name).getD []).zipIdx =
      ((node.itemsAt? m.name).getD []).zipIdx.map (Prod.map Node.unmarked id) := by
    rw [Node.itemsAt?_unmarked, ← List.zipIdx_map]
    cases node.itemsAt? m.name <;> rfl
  unfold places
  cases m.shape with
  | value =>
    rw [Node.entry?_unmarked]
    cases node.entry? m.name with
    | none => rfl
    | some e => simp [Node.unmarkedEntry, hplace]
  | mapping =>
    rw [Node.entry?_unmarked]
    cases node.entry? m.name with
    | none => rfl
    | some e => cases h : e.2.isMapping <;> simp [Node.unmarkedEntry, hplace, h]
  | entries =>
    rw [Node.get?_unmarked]
    cases node.get? m.name with
    | none => rfl
    | some map => simp [Node.unmarkedEntry, hplace]
  | items =>
    dsimp only
    rw [hitems, List.map_map, List.map_map]
    exact List.map_congr_left fun x _ => hplace _ "" x.1 x.1
  | mappings =>
    have hmapping : (fun x : Node × Nat => x.1.isMapping) ∘ Prod.map Node.unmarked id =
        fun x => x.1.isMapping := funext fun x => Node.isMapping_unmarked x.1
    dsimp only
    rw [hitems, List.filter_map, List.map_map, List.map_map, hmapping]
    exact List.map_congr_left fun x _ => hplace _ "" x.1 x.1

namespace Place

variable (v : SpecVersion) (p : Place)

theorem placesOf_unmarked (m : Member) :
    p.unmarked.placesOf m = (p.placesOf m).map unmarked := m.places_unmarked p.node p.location

theorem own_unmarked : p.unmarked.own v = (p.own v).map unmarked := by
  rw [own, own, isOwnSchema_unmarked]
  cases p.isOwnSchema v <;> rfl

theorem operations_unmarked : p.unmarked.operations = p.operations.map unmarked := by
  have hplace : ∀ x : String × Node × Node,
      Place.mk .operation x.1 x.2.2.unmarked
          (Origin.ofEntry (p.location.field x.1) x.2.1.unmarked x.2.2.unmarked) =
        (Place.mk .operation x.1 x.2.2
          (Origin.ofEntry (p.location.field x.1) x.2.1 x.2.2)).unmarked := by
    intro x
    rw [Origin.ofEntry_unmarked]
    rfl
  rw [operations, operations, node_unmarked, Node.fields_unmarked, List.filter_map, List.map_map,
    List.map_map]
  exact List.map_congr_left fun x _ => hplace x

theorem parts_unmarked : p.unmarked.parts v = (p.parts v).map unmarked := by
  have hmembers : ∀ m : Member, m.places p.unmarked.node p.unmarked.location =
      (m.places p.node p.location).map unmarked := fun m => p.placesOf_unmarked m
  unfold parts
  rw [reference?_unmarked, members_unmarked, role_unmarked, operations_unmarked]
  simp only [hmembers]
  split
  · rfl
  · rw [List.map_append, List.map_flatMap]
    split <;> rfl

/-- Without marks the same places are read in the same order. -/
theorem order_unmarked (v : SpecVersion) (p : Place) :
    p.unmarked.order v = (p.order v).map unmarked := by
  have hparts : (p.parts v).flatMap (fun q => q.unmarked.order v) =
      (p.parts v).flatMap fun q => (q.order v).map unmarked := by
    refine List.flatMap_congr fun q hq => ?_
    have hlt : q.node.size < p.node.size := size_lt_of_mem_parts hq
    exact order_unmarked v q
  rw [order_eq, order_eq, own_unmarked, parts_unmarked, List.flatMap_map, hparts, List.map_cons,
    List.map_append, List.map_flatMap]
termination_by p.node.size

theorem held_unmarked : p.unmarked.held = p.held.unmarked := by
  rw [held, held, role_unmarked]
  cases p.role <;> rfl

theorem entryOrder_unmarked : p.unmarked.entryOrder v = (p.entryOrder v).map unmarked := by
  rw [entryOrder, entryOrder, held_unmarked, order_unmarked, List.map_append, List.map_singleton]

end Place

theorem componentPlaces_unmarked (v : SpecVersion) (root : Node) :
    componentPlaces v root.unmarked = (componentPlaces v root).map Place.unmarked := by
  unfold componentPlaces
  simp only [Member.places_unmarked, Node.get?_unmarked]
  split
  · rw [List.map_flatMap]
  · cases root.get? "components" with
    | none => rfl
    | some node =>
      simp only [Option.map_some, Member.places_unmarked, List.map_flatMap]

theorem pathPlaces_unmarked (root : Node) :
    pathPlaces root.unmarked = (pathPlaces root).map Place.unmarked := by
  rw [pathPlaces, pathPlaces, Member.places_unmarked, List.filter_map]
  rfl

theorem readingOrder_unmarked (v : SpecVersion) (root : Node) :
    readingOrder v root.unmarked = (readingOrder v root).map Place.unmarked := by
  simp only [readingOrder, componentPlaces_unmarked, pathPlaces_unmarked, List.flatMap_map,
    List.map_append, List.map_flatMap, Place.entryOrder_unmarked, Place.order_unmarked]

end ApiLint
