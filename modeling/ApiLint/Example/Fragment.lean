import ApiLint.Document.Basic
import ApiLint.Json.Pointer

/-!
# Self-contained schemas

A schema of a document together with all parts of the document that its references lead to, each
at the place that the references name. References that leave the document are dropped and accept
anything.
-/

set_option autoImplicit false

namespace ApiLint

/-- The document as a JSON value, and the version that its schemas follow. -/
structure FragmentSource where
  version : SpecVersion
  root : Json

def FragmentSource.ofDocument (d : Document) : FragmentSource :=
  ⟨d.specVersion, d.root.toJson⟩

namespace FragmentSource

variable (source : FragmentSource)

/-- The pointer of a reference to a part of the document, without its `#`. -/
def localPointer? (reference : String) : Option String :=
  match reference.toList with
  | '#' :: c :: rest =>
    let pointer := String.ofList (c :: rest)
    if (source.root.pointer? pointer).isSome then some pointer else none
  | _ => none

/-- A reference that cannot be followed, or the type `file` of version 2.0. -/
def drops (key : String) : Json → Bool
  | .str text =>
    (key == "$ref" && (source.localPointer? text).isNone) ||
      (source.version == .swagger2 && key == "type" && text == "file")
  | _ => false

mutual

/-- A part of the document without the members to be dropped, at any depth. -/
def sanitize : Json → Json
  | .obj members => .obj (sanitizeMembers members)
  | .arr items => .arr (sanitizeItems items)
  | value => value

def sanitizeItems : List Json → List Json
  | [] => []
  | item :: rest => sanitize item :: sanitizeItems rest

def sanitizeMembers : List (String × Json) → List (String × Json)
  | [] => []
  | (key, value) :: rest =>
    if source.drops key value then sanitizeMembers rest
    else (key, sanitize value) :: sanitizeMembers rest

end

/-- The pointer that an object refers to. -/
def ownPointer (members : List (String × Json)) : List String :=
  match Keyed.find? "$ref" members with
  | some (.str text) => (source.localPointer? text).toList
  | _ => []

mutual

/-- The pointers that a value refers to: first of an object itself, then of what is in it. -/
def pointers : Json → List String
  | .obj members => source.ownPointer members ++ pointersOfMembers members
  | .arr items => pointersOfItems items
  | _ => []

def pointersOfItems : List Json → List String
  | [] => []
  | item :: rest => pointers item ++ pointersOfItems rest

def pointersOfMembers : List (String × Json) → List String
  | [] => []
  | (_, value) :: rest => pointers value ++ pointersOfMembers rest

end

/-- Places the parts of the document that are pending, latest first, and those that they refer to
in turn, each once. -/
def gather : Nat → List String → List String → List (String × Json) → List (String × Json)
  | 0, _, _, members => members
  | _ + 1, [], _, members => members
  | fuel + 1, pointer :: pending, placed, members =>
    if placed.contains pointer then gather fuel pending placed members
    else
      match source.root.pointer? pointer with
      | none => gather fuel pending (pointer :: placed) members
      | some part =>
        let part := source.sanitize part
        gather fuel ((source.pointers part).reverse ++ pending) (pointer :: placed)
          (Json.place part (pointerTexts pointer) members)

/-- The self-contained form of a schema. Each of the pointers in the schema and the document is
followed once and adds at most as many as there are values in the document. -/
def fragment (schema : Json) : Json :=
  let clean := source.sanitize schema
  match clean with
  | .obj members =>
    let n := source.root.size + schema.size + 1
    .obj (source.gather (n * n) (source.pointers clean).reverse [] members)
  | other => other

end FragmentSource

end ApiLint
