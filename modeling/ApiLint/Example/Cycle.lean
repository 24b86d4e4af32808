import ApiLint.Schema.Walk

/-!
# Schemas that loop

Whether some sub-schema of a schema leads back to it or to a schema on the way. The search goes
down a bounded number of levels, and through no schema twice that was found free of loops.
-/

set_option autoImplicit false

namespace ApiLint

/-- What a search for loops has found out. -/
structure LoopSearch where
  /-- Schemas below which there is no loop. -/
  cleared : List SchemaId := []
  /-- The search was cut at the lowest level. -/
  truncated : Bool := false

namespace LoopSearch

/-- How many levels are searched. -/
def maxDepth : Nat := 40

/-- Searches the schemas in slots one after the other. -/
def throughSlots (d : Document) (below : List SchemaId → LoopSearch → Schema → Bool × LoopSearch)
    (trail : List SchemaId) : LoopSearch → List SchemaSlot → Bool × LoopSearch
  | search, [] => (false, search)
  | search, slot :: rest =>
    match d.slotSchema? slot with
    | none => throughSlots d below trail search rest
    | some child =>
      if trail.contains child.id then (true, search)
      else if search.cleared.contains child.id then throughSlots d below trail search rest
      else
        let (looped, after) := below (child.id :: trail) { search with truncated := false } child
        if looped then (true, after)
        else
          throughSlots d below trail
            { cleared := if after.truncated then after.cleared else child.id :: after.cleared
              truncated := after.truncated || search.truncated }
            rest

/-- Searches below a schema; the trail holds it and the schemas above. -/
def below (d : Document) : Nat → List SchemaId → LoopSearch → Schema → Bool × LoopSearch
  | 0, _, search, _ => (false, { search with truncated := true })
  | levels + 1, trail, search, s =>
    throughSlots d (below d levels) trail search s.children

end LoopSearch

/-- Some sub-schema of the schema leads back to one of its ancestors. -/
def Document.isLooping (d : Document) (s : Schema) : Bool :=
  (LoopSearch.below d LoopSearch.maxDepth [s.id] {} s).1

end ApiLint
