import ApiLint.Proofs.Compiling
import ApiLint.Proofs.JsonTrees

/-!
# Plain schemas

Schemas of `type`, `properties`, `items` and `nullable` alone, nested to any depth (`Json.isPlain`),
and what values they allow in version 3.0. `Json.Mismatch` relates a schema and a value to the parts
of both where the value has another type than the schema asks for. `Json.Conforms` says that the
value fits, where a schema that is nullable takes null whatever type it asks for.

A value conforms exactly if each mismatch is one of a null with a schema that is nullable
(`Json.conforms_iff`).
-/

set_option autoImplicit false

namespace ApiLint

namespace Json

/-- The kind that a text names. -/
def kind? (value : Json) : Option JsonKind := value.str?.bind JsonKind.ofName?

/-- The kinds that `type` names: one, or several that are distinct, in the order of all kinds. -/
def kinds? : Json → Option (List JsonKind)
  | .str name => (JsonKind.ofName? name).map ([·])
  | .arr items => (items.mapM kind?).bind fun kinds =>
    if kinds ≠ [] ∧ kinds.Nodup then some (JsonKind.all.filter kinds.contains) else none
  | _ => none

mutual

/-- A schema of the four keywords. -/
def isPlain : Json → Bool
  | .obj members => arePlainMembers members
  | _ => false

def arePlainMembers : List (String × Json) → Bool
  | [] => true
  | (key, value) :: rest => isPlainMember key value && arePlainMembers rest

def isPlainMember (key : String) : Json → Bool
  | .obj members =>
    (key == "items" && arePlainMembers members) || (key == "properties" && arePlain members)
  | .bool _ => key == "nullable"
  | value => key == "type" && value.kinds?.isSome

def arePlain : List (String × Json) → Bool
  | [] => true
  | (_, schema) :: rest => isPlain schema && arePlain rest

end

/-- What a member of a plain schema is like. -/
inductive PlainMember : String → Json → Prop
  | type {word : Json} {kinds : List JsonKind} : word.kinds? = some kinds → PlainMember "type" word
  | nullable (flag : Bool) : PlainMember "nullable" (.bool flag)
  | items {schema : Json} : schema.isPlain = true → PlainMember "items" schema
  | properties {schemas : List (String × Json)} :
    (∀ p ∈ schemas, p.2.isPlain = true) → PlainMember "properties" (.obj schemas)

theorem PlainMember.key_mem {key : String} {value : Json} (h : PlainMember key value) :
    key ∈ ["items", "nullable", "properties", "type"] := by
  cases h <;> simp

theorem arePlain_iff {schemas : List (String × Json)} :
    arePlain schemas = true ↔ ∀ p ∈ schemas, p.2.isPlain = true := by
  induction schemas with
  | nil => simp [arePlain]
  | cons p schemas ih => simp [arePlain, ih]

theorem plainMember_of_isPlainMember {key : String} {value : Json}
    (h : isPlainMember key value = true) : PlainMember key value := by
  have htype : ∀ word : Json, (key == "type" && word.kinds?.isSome) = true →
      PlainMember key word := by
    intro word h
    obtain ⟨hkey, hkinds⟩ := Bool.and_eq_true_iff.1 h
    obtain ⟨kinds, hkinds⟩ := Option.isSome_iff_exists.1 hkinds
    exact beq_iff_eq.1 hkey ▸ .type hkinds
  cases value with
  | obj members =>
    rw [isPlainMember, Bool.or_eq_true, Bool.and_eq_true, Bool.and_eq_true, beq_iff_eq,
      beq_iff_eq] at h
    rcases h with ⟨rfl, h⟩ | ⟨rfl, h⟩
    · exact .items h
    · exact .properties (arePlain_iff.1 h)
  | bool flag =>
    obtain rfl := beq_iff_eq.1 h
    exact .nullable flag
  | _ => exact htype _ h

/-- A plain schema is an object of such members. -/
theorem exists_members_of_isPlain {schema : Json} (h : schema.isPlain = true) :
    ∃ members, schema = .obj members ∧ ∀ m ∈ members, PlainMember m.1 m.2 := by
  cases schema with
  | obj members =>
    refine ⟨members, rfl, ?_⟩
    rw [isPlain] at h
    induction members with
    | nil => exact fun _ hm => absurd hm List.not_mem_nil
    | cons m members ih =>
      rw [arePlainMembers, Bool.and_eq_true] at h
      exact List.forall_mem_cons.2 ⟨plainMember_of_isPlainMember h.1, ih h.2⟩
  | _ => cases h

/-! ## Mismatches -/

/-- The kinds that a schema asks for, where it has a type. -/
def askedKinds? (schema : Json) : Option (List JsonKind) := (schema.get? "type").bind kinds?

def IsNullable (schema : Json) : Prop := schema.get? "nullable" = some (.bool true)

/-- A part of a schema asks for other kinds than the part of the value that it applies to has. -/
inductive Mismatch : Json → Json → Json → Violation → Prop
  | type {schema value : Json} {kinds : List JsonKind} : schema.askedKinds? = some kinds →
    kinds.any (·.admits .draft4 value) = false →
    Mismatch schema value schema (.ofKinds value kinds)
  | property {schema part value t : Json} {schemas values : List (String × Json)} {name : String}
      {v : Violation} : schema.get? "properties" = some (.obj schemas) →
    Keyed.find? name schemas = some part → Keyed.find? name values = some value →
    Mismatch part value t v → Mismatch schema (.obj values) t v
  | item {schema part item t : Json} {items : List Json} {v : Violation} :
    schema.get? "items" = some part → item ∈ items → Mismatch part item t v →
    Mismatch schema (.arr items) t v

theorem Mismatch.exists_kinds {schema value t : Json} {v : Violation}
    (h : Mismatch schema value t v) : ∃ kinds, v = .ofKinds v.value kinds := by
  induction h with
  | type =>
    rename_i kinds _ _
    exact ⟨kinds, by rw [Violation.value_ofKinds]⟩
  | property _ _ _ _ ih => exact ih
  | item _ _ _ ih => exact ih

/-- The value fits the schema, where each schema that is nullable takes null. -/
inductive Conforms : Json → Json → Prop
  | null {schema : Json} : schema.IsNullable → Conforms schema .null
  | fits {schema value : Json}
    (type : ∀ kinds, schema.askedKinds? = some kinds →
      kinds.any (·.admits .draft4 value) = true)
    (properties : ∀ schemas values name part v, schema.get? "properties" = some (.obj schemas) →
      value = .obj values → Keyed.find? name schemas = some part →
      Keyed.find? name values = some v → Conforms part v)
    (items : ∀ part items, schema.get? "items" = some part → value = .arr items →
      ∀ item ∈ items, Conforms part item) : Conforms schema value

/-- **A value conforms if its mismatches are nulls that a schema takes.** -/
theorem conforms_iff {schema value : Json} : Conforms schema value ↔
    ∀ t v, Mismatch schema value t v → v.value = .null ∧ t.IsNullable := by
  constructor
  · intro h t v hmismatch
    induction hmismatch with
    | type hkinds hvalue =>
      rw [Violation.value_ofKinds]
      cases h with
      | null hnullable => exact ⟨rfl, hnullable⟩
      | fits type => exact absurd (type _ hkinds) (by simp [hvalue])
    | property hschemas hpart hvalue _ ih =>
      cases h with
      | fits _ properties => exact ih (properties _ _ _ _ _ hschemas rfl hpart hvalue)
    | item hpart hitem _ ih =>
      cases h with
      | fits _ _ items => exact ih (items _ _ hpart rfl _ hitem)
  · intro h
    induction hsize : value.size using Nat.strong_induction_on generalizing schema value with
    | _ size ih =>
      subst hsize
      by_cases hnull : value = .null ∧ schema.IsNullable
      · obtain ⟨rfl, hnullable⟩ := hnull
        exact .null hnullable
      refine .fits (fun kinds hkinds => ?_) (fun schemas values name part v hschemas hvalues hpart
        hv => ?_) fun part items hpart hitems item hitem => ?_
      · by_contra hvalue
        obtain ⟨hnull', hnullable⟩ := h _ _ (.type hkinds (by simpa using hvalue))
        rw [Violation.value_ofKinds] at hnull'
        exact hnull ⟨hnull', hnullable⟩
      · subst hvalues
        exact ih _ (size_lt_of_mem_members (Keyed.mem_of_find? hv))
          (fun t u hmismatch => h t u (.property hschemas hpart hv hmismatch)) rfl
      · subst hitems
        exact ih _ (size_lt_of_mem_items hitem)
          (fun t u hmismatch => h t u (.item hpart hitem hmismatch)) rfl

end Json

end ApiLint
