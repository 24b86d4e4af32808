import ApiLint.Document.Model

/-!
# References

`Pointers` knows the object built at each pointer and the reference written at each slot that
holds one. `Pointers.resolve` follows references from slot to slot until an object is met, over a
bounded number of steps, and never leaves the document. `References` lists the references of a
document with what they lead to.
-/

set_option autoImplicit false

namespace ApiLint

structure Pointers where
  /-- The objects at their pointers; the one registered first counts. -/
  objects : List (String × Target) := []
  /-- The references at their pointers, latest first. -/
  links : List (String × String) := []

namespace Pointers

/-- How many slots a reference is followed through. -/
def maxHops : Nat := 10

def objectAt? (p : Pointers) (pointer : String) : Option Target :=
  p.objects.lookup pointer

/-- The reference registered last at a pointer. -/
def linkAt? (p : Pointers) (pointer : String) : Option String :=
  p.links.lookup pointer

def register (p : Pointers) (pointer : String) (target : Target) : Pointers :=
  if (p.objectAt? pointer).isSome then p
  else { p with objects := (pointer, target) :: p.objects }

def registerLink (p : Pointers) (pointer reference : String) : Pointers :=
  { p with links := (pointer, reference) :: p.links }

/-- References to other documents do not start with `#`. -/
def isLocal (reference : String) : Bool :=
  reference.startsWith "#"

/-- Follows a reference through at most `hops` pointers. -/
def resolveWithin (p : Pointers) : Nat → String → Option Target
  | 0, _ => none
  | hops + 1, reference =>
    if isLocal reference then
      match p.objectAt? reference with
      | some target => some target
      | none =>
        match p.linkAt? reference with
        | some next => p.resolveWithin hops next
        | none => none
    else none

def resolve (p : Pointers) (reference : String) : Option Target :=
  p.resolveWithin maxHops reference

end Pointers

/-- A reference, where it is written and what it leads to. -/
structure Reference where
  text : String
  origin : Origin
  target : Option Target

structure References where
  /-- In the order in which they are met. -/
  all : List Reference := []

namespace References

/-- The references that lead to an object. -/
def referrers (r : References) (target : Target) : List Reference :=
  r.all.filter fun ref => ref.target == some target

def unresolved (r : References) : List Reference :=
  r.all.filter fun ref => ref.target.isNone

end References

end ApiLint
