import ApiLint.Document.Basic

/-!
# Equivalent paths

A node inside an object that is referred to can also be addressed through each reference to that
object. `Document.locate` collects these paths, those through chains of references included; a
chain passes no object twice and no reference inside the object that it leads to.
-/

set_option autoImplicit false

namespace ApiLint

/-- A path and all the paths to the same node: that one first, the others in ascending order. -/
structure Located where
  path : String
  paths : List String
  deriving Repr, DecidableEq

/-- The paths, if there is more than one. -/
def Located.alternates? (l : Located) : Option (List String) :=
  if l.paths.length > 1 then some l.paths else none

/-- Adds a text to an ascending list, once. -/
def insertAscending (s : String) : List String → List String
  | [] => [s]
  | t :: rest =>
    if s = t then t :: rest
    else if s < t then s :: t :: rest
    else t :: insertAscending s rest

namespace Location

/-- The location and all above it, the nearest first. -/
def ancestors (l : Location) : List Location :=
  (List.range (l.segments.length + 1)).reverse.map fun n => ⟨l.segments.take n⟩

end Location

namespace Document

/-- How many other paths are collected. -/
def maxAlternates : Nat := 64

/-- Adds to `out` the paths of a location through at most `hops` references, without those to the
objects in `chain`. -/
def alternatePaths (d : Document) : Nat → Location → List Target → List String → List String
  | 0, _, _, out => out
  | hops + 1, l, chain, out =>
    l.ancestors.foldl (fun out base =>
      match d.objectAt? base with
      | none => out
      | some target =>
        if chain.contains target then out
        else
          (d.references.referrers target).foldl (fun out reference =>
            let slot := reference.origin.location
            if out.length ≥ maxAlternates || slot.isWithin base then out
            else
              match l.rebased? base slot with
              | none => out
              | some other =>
                if out.contains other.path then out
                else
                  d.alternatePaths hops other (target :: chain)
                    (insertAscending other.path out)) out) out

def locate (d : Document) (l : Location) : Located :=
  let others := (d.alternatePaths Pointers.maxHops l [] []).filter (· ≠ l.path)
  ⟨l.path, l.path :: others⟩

end Document

end ApiLint
