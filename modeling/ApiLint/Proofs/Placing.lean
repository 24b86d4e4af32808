import ApiLint.Proofs.JsonTrees

/-!
# Writing at a pointer

A value that is written at a pointer is read back there. On the way to it stand objects afterwards,
which have all that was there before but for the one member on the way
(`Json.exists_members_of_place`): the members of an object, the items of an array under their
positions, and nothing in place of a scalar. So no other pointer reads anything else than before, as
long as it is no part of the way and does not go on from its end (`Json.pointer?_place`).
-/

set_option autoImplicit false

namespace ApiLint.Json

variable {p q : String} {r way : List String} {step : String}

/-- Steps that part from others on the way lead apart from them. -/
theorem apart_of_ne (way rest : List String) {k : String} (h : k ≠ step) :
    ¬way ++ step :: rest <+: way ++ [k] ∧ ¬way ++ [k] <+: way ++ step :: rest := by
  rw [List.prefix_append_right_inj, List.prefix_append_right_inj, List.cons_prefix_cons,
    List.cons_prefix_cons]
  exact ⟨fun hp => h hp.1.symm, fun hp => h hp.1⟩

/-- What stands on the way to a value that is written is an object afterwards, and has what was there
before but for the member on the way. -/
theorem exists_members_of_place (part : Json) (members : List (String × Json))
    (h : way ++ [step] <+: r) :
    ∃ inner, descend? (.obj (place part r members)) way = some (.obj inner) ∧
      ∀ k ≠ step, Keyed.find? k inner = (descend? (.obj members) way).bind (·.child? k) := by
  obtain ⟨rest, rfl⟩ := h
  rw [List.append_assoc, List.singleton_append]
  have hne : way ≠ way ++ step :: rest := by simp
  obtain ⟨inner, hinner⟩ := exists_object_of_place part members (List.prefix_append _ _) hne
  refine ⟨inner, hinner, fun k hk => ?_⟩
  -- A member off the way is apart from what is written, so it reads as it did.
  obtain ⟨hrx, hxr⟩ := apart_of_ne way rest hk
  have hread := descend?_place_of_apart part members hrx hxr
  rw [descend?_concat, descend?_concat, hinner] at hread
  exact hread

theorem pointer?_place_of_apart (part : Json) (members : List (String × Json))
    (hpq : ¬pointerTexts p <+: pointerTexts q) (hqp : ¬pointerTexts q <+: pointerTexts p) :
    pointer? q (.obj (place part (pointerTexts p) members)) = pointer? q (.obj members) := by
  unfold pointer?
  split
  · rename_i hempty
    obtain rfl := String.isEmpty_iff.1 hempty
    exact absurd List.nil_prefix hqp
  · split
    · exact descend?_place_of_apart part members hpq hqp
    · rfl

/-- **Writing at a pointer reads back and disturbs nothing else.** A value that is written to an
object at a pointer that starts with a slash is read back there. A pointer reads the same as before
if its steps neither begin with those of the other nor are their beginning, also where it runs
through a scalar, where there is nothing before and after. So a container on the way, which is an
object afterwards, has all that it had but for the member on the way; if it was an array, its items
stand under their positions. -/
theorem pointer?_place (part : Json) (members : List (String × Json)) (p : String)
    (hp : p.startsWith "/" = true) :
    let before := Json.obj members
    let after := Json.obj (place part (pointerTexts p) members)
    after.pointer? p = some part ∧
    (∀ q, ¬pointerTexts p <+: pointerTexts q → ¬pointerTexts q <+: pointerTexts p →
      after.pointer? q = before.pointer? q) ∧
    ∀ way step, way ++ [step] <+: pointerTexts p →
      ∃ inner, after.descend? way = some (.obj inner) ∧
        (∀ k ≠ step, Keyed.find? k inner = (before.descend? way).bind (·.child? k)) ∧
        ∀ items, before.descend? way = some (.arr items) →
          ∀ i : Nat, toString i ≠ step → Keyed.find? (toString i) inner = items[i]? := by
  intro before after
  obtain ⟨hne, hpointer⟩ := pointer?_of_slash hp
  refine ⟨?_, fun q hpq hqp => pointer?_place_of_apart part members hpq hqp,
    fun way step hway => ?_⟩
  · have hread := descend?_place_append part members hne []
    rw [List.append_nil] at hread
    rw [hpointer, hread]
    rfl
  · obtain ⟨inner, hinner, hkept⟩ := exists_members_of_place part members hway
    refine ⟨inner, hinner, hkept, fun items hitems i hi => ?_⟩
    rw [hkept _ hi, hitems]
    simp only [Option.bind_some, child?, position?_eq_some.2 rfl]
    rfl

/-- That a text is found can be computed. -/
theorem eq_str_of_bind {v : Option Json} {text : String} (h : v.bind str? = some text) :
    v = some (.str text) := by
  obtain ⟨w, rfl, hw⟩ := Option.bind_eq_some_iff.1 h
  rw [str?_eq_some.1 hw]

/-- A list of two words, and a word. -/
def shelf : List (String × Json) :=
  [("list", .arr [.str "first", .str "second"]), ("name", .str "third")]

theorem pointer?_place_shelf : "/list/0/deep".startsWith "/" = true ∧
    let after := Json.obj (place (.bool true) (pointerTexts "/list/0/deep") shelf)
    after.pointer? "/list/0/deep" = some (.bool true) ∧
    after.pointer? "/list/1" = some (.str "second") ∧
    after.pointer? "/name" = some (.str "third") ∧
    ∃ inner, after.descend? ["list"] = some (.obj inner) ∧
      Keyed.find? "1" inner = some (.str "second") := by
  have hslash : "/list/0/deep".startsWith "/" = true := by decide +kernel
  obtain ⟨hback, hkept, hway⟩ := pointer?_place (.bool true) shelf "/list/0/deep" hslash
  have hitem : pointer? "/list/1" (.obj shelf) = some (.str "second") :=
    eq_str_of_bind (by decide +kernel)
  have hname : pointer? "/name" (.obj shelf) = some (.str "third") :=
    eq_str_of_bind (by decide +kernel)
  obtain ⟨inner, hinner, -, hitems⟩ := hway ["list"] "0" (by decide +kernel)
  refine ⟨hslash, hback, (hkept "/list/1" ?_ ?_).trans hitem, (hkept "/name" ?_ ?_).trans hname,
    inner, hinner, hitems [.str "first", .str "second"] rfl 1 ?_⟩
  all_goals decide +kernel

end ApiLint.Json
