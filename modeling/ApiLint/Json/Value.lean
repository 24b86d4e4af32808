import ApiLint.Text.Keyed

/-!
# JSON values

Members of an object are kept in ascending order of their keys, each key once. Integers and
doubles are told apart, since they are written differently.
-/

set_option autoImplicit false

namespace ApiLint

inductive Json where
  | null
  | bool (value : Bool)
  | int (value : Int)
  | float (value : Float)
  | str (value : String)
  | arr (items : List Json)
  | obj (members : List (String × Json))
  deriving Inhabited

namespace Json

/-- An object with the given members; of members with one key the last stays. -/
def ofMembers (members : List (String × Json)) : Json :=
  .obj (Keyed.ofList members)

/-- The member of an object; nothing for other values. -/
def get? (key : String) : Json → Option Json
  | .obj members => Keyed.find? key members
  | _ => none

/-! ## Kinds -/

def isNull : Json → Bool
  | .null => true
  | _ => false

def str? : Json → Option String
  | .str s => some s
  | _ => none

def bool? : Json → Option Bool
  | .bool b => some b
  | _ => none

def items? : Json → Option (List Json)
  | .arr items => some items
  | _ => none

def members? : Json → Option (List (String × Json))
  | .obj members => some members
  | _ => none

end Json

end ApiLint
