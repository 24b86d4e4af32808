import ApiLint.Pattern.Basic

/-!
# What patterns match

A pattern relates a place in a text to the places at which a match that begins there may end.
`Pattern.ends` lists those, each once; `Pattern.occursIn` asks for a match anywhere.
-/

set_option autoImplicit false

namespace ApiLint.Pattern

/-- A place in a text and the ranges captured on the way to it. -/
structure Place where
  position : Nat
  captures : List (Nat × Nat × Nat) := []
  deriving Repr, DecidableEq

/-- Rounds of a step, from one to at most so many: all places reached that were not known. -/
def rounds (step : Place → List Place) : Nat → List Place → List Place → List Place
  | 0, _, known => known
  | n + 1, latest, known =>
    let next := ((latest.flatMap step).eraseDups).filter fun p => !known.contains p
    if next.isEmpty then known else rounds step n next (known ++ next)

/-- Exactly so many rounds of a step. -/
def exactRounds (step : Place → List Place) : Nat → List Place → List Place
  | 0, places => places
  | n + 1, places => exactRounds step n (places.flatMap step).eraseDups

def isWordAt (text : Array Char) (position : Nat) : Bool :=
  match text[position]? with
  | some c => CharSet.contains ⟨CharSet.word, false⟩ c
  | none => false

def isLineEndAt (text : Array Char) (position : Nat) : Bool :=
  match text[position]? with
  | some c => CharSet.contains ⟨CharSet.lineTerminators, false⟩ c
  | none => false

/-- A word begins or ends at the place. -/
def atWordBoundary (text : Array Char) (position : Nat) : Bool :=
  (position != 0 && isWordAt text (position - 1)) != isWordAt text position

/-- The place after a copy of what a group has captured, which is nothing if it has not matched;
beyond the text where no copy follows. -/
def afterCopy (text : Array Char) (p : Place) (group : Nat) : Place :=
  match p.captures.lookup group with
  | none => p
  | some (low, high) =>
    if (text.extract low high) == text.extract p.position (p.position + (high - low)) then
      { p with position := p.position + (high - low) }
    else { p with position := text.size + 1 }

/-- The places where a match that begins at a place may end. More rounds of a repetition than
there are characters left reach nothing new, so bounds are cut to that. -/
def ends (text : Array Char) : Pattern → Place → List Place
  | .empty, p => [p]
  | .chars set, p =>
    match text[p.position]? with
    | some c => if set.contains c then [{ p with position := p.position + 1 }] else []
    | none => []
  | .seq a b, p => ((ends text a p).flatMap (ends text b)).eraseDups
  | .alt a b, p => (ends text a p ++ ends text b p).eraseDups
  | .repeated least most body, p =>
    let enough := text.size - p.position + 1
    let first := exactRounds (ends text body) (min least enough) [p]
    let more := match most with
      | some m => min (m - least) enough
      | none => enough
    rounds (ends text body) more first first
  | .group index body, p =>
    (ends text body p).map fun q =>
      { q with captures := (index, p.position, q.position) ::
          q.captures.filter (fun c => c.1 != index) }
  | .backreference groups, p =>
    let q := groups.foldl (afterCopy text) p
    if q.position ≤ text.size then [q] else []
  | .look true negated body, p =>
    let found := ends text body p
    if negated then (if found.isEmpty then [p] else [])
    else (found.map fun q => { q with position := p.position }).eraseDups
  | .look false negated body, p =>
    let found := (List.range (p.position + 1)).flatMap fun low =>
      (ends text body { p with position := low }).filter fun q => q.position == p.position
    if negated then (if found.isEmpty then [p] else []) else found.eraseDups
  | .start eachLine, p =>
    if p.position == 0 || (eachLine && isLineEndAt text (p.position - 1)) then [p] else []
  | .stop eachLine, p =>
    if p.position == text.size || (eachLine && isLineEndAt text p.position) then [p] else []
  | .wordBoundary negated, p =>
    if atWordBoundary text p.position != negated then [p] else []

/-- The pattern matches some part of the text. -/
def occursIn (p : Pattern) (text : String) : Bool :=
  let text := text.toList.toArray
  (List.range (text.size + 1)).any fun low => !(ends text p ⟨low, []⟩).isEmpty

end ApiLint.Pattern
