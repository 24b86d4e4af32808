/-!
# Message templates

A template is a text with slots, each written as a pair of braces with nothing between them. The
slots are filled in order; texts that are filled in are not looked at again. `TemplateCache`
keeps templates in their parsed form.
-/

set_option autoImplicit false

namespace ApiLint

inductive TemplatePiece where
  | literal (text : List Char)
  | slot
  deriving Repr, DecidableEq

namespace Template

/-- Puts a character in front of the first piece. -/
def push (c : Char) : List TemplatePiece → List TemplatePiece
  | .literal text :: rest => .literal (c :: text) :: rest
  | pieces => .literal [c] :: pieces

def pieces : List Char → List TemplatePiece
  | '\x7b' :: '\x7d' :: rest => .slot :: pieces rest
  | c :: rest => push c (pieces rest)
  | [] => []

/-- Slots without an argument stay empty, arguments without a slot are left out. -/
def fill : List TemplatePiece → List String → List Char
  | [], _ => []
  | .literal text :: rest, arguments => text ++ fill rest arguments
  | .slot :: rest, argument :: arguments => argument.toList ++ fill rest arguments
  | .slot :: rest, [] => fill rest []

def render (template : String) (arguments : List String) : String :=
  String.ofList (fill (pieces template.toList) arguments)

end Template

/-- The templates parsed so far. -/
structure TemplateCache where
  parsed : List (String × List TemplatePiece) := []

namespace TemplateCache

/-- The pieces of a template, and the cache that holds them. -/
def piecesOf (cache : TemplateCache) (template : String) :
    List TemplatePiece × TemplateCache :=
  match cache.parsed.lookup template with
  | some pieces => (pieces, cache)
  | none =>
    let pieces := Template.pieces template.toList
    (pieces, ⟨(template, pieces) :: cache.parsed⟩)

def preload (cache : TemplateCache) (templates : List String) : TemplateCache :=
  templates.foldl (fun cache template => (cache.piecesOf template).2) cache

def render (cache : TemplateCache) (template : String) (arguments : List String) :
    String × TemplateCache :=
  let (pieces, cache) := cache.piecesOf template
  (String.ofList (Template.fill pieces arguments), cache)

def size (cache : TemplateCache) : Nat := cache.parsed.length

def isEmpty (cache : TemplateCache) : Bool := cache.size == 0

end TemplateCache

end ApiLint
