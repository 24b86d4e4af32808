import ApiLint.Proofs.KeyedLists
import ApiLint.Proofs.Locations
import ApiLint.Yaml.Node

/-!
# JSON values as trees

What steps lead to in a value, and what writing a value where steps lead to changes: the steps below
it lead into the new value (`Json.descend?_place_append`), the steps beside it where they did before
(`Json.descend?_place_of_apart`), and on the way to it there are objects
(`Json.exists_object_of_place`). Values whose objects have their members in order (`Json.Ordered`)
are told by where steps lead to.
-/

set_option autoImplicit false

namespace ApiLint

open Yaml (Node)

/-! ## Positions -/

/-- The digits of a number, without a leading zero. -/
def IsPosition (digits : List Char) : Prop :=
  digits ≠ [] ∧ (∀ c ∈ digits, c.isDigit = true) ∧ (digits.head? = some '0' → digits = ['0'])

theorem toDigits_of_head?_zero {i : Nat} (h : (Nat.toDigits 10 i).head? = some '0') :
    Nat.toDigits 10 i = ['0'] := by
  revert h
  induction i using Nat.strongRecOn with
  | ind i ih =>
    rw [Nat.toDigits_eq_if (by decide)]
    split
    · simp
    · rw [List.head?_append_of_ne_nil _ Nat.toDigits_ne_nil]
      intro hhead
      have hzero := ih (i / 10) (by omega) hhead
      have := toDigits_inj (m := i / 10) (n := 0) hzero
      omega

theorem isPosition_toDigits (i : Nat) : IsPosition (Nat.toDigits 10 i) :=
  ⟨Nat.toDigits_ne_nil, fun _ hc => Nat.isDigit_of_mem_toDigits (by decide) (by decide) hc,
    toDigits_of_head?_zero⟩

theorem isDigit_iff {c : Char} : c.isDigit = true ↔ '0' ≤ c ∧ c ≤ '9' := by
  simp only [Char.isDigit, Bool.and_eq_true, decide_eq_true_eq]
  exact Iff.rfl

theorem digitValue?_of_isDigit {c : Char} (h : c.isDigit = true) :
    Number.digitValue? c = some (c.toNat - '0'.toNat) ∧ c.toNat - '0'.toNat < 10 ∧
      (c.toNat - '0'.toNat).digitChar = c := by
  have hle := isDigit_iff.1 h
  have hval : 48 ≤ c.toNat ∧ c.toNat ≤ 57 := hle
  have hlt : c.toNat - '0'.toNat < 10 := by
    change c.toNat - 48 < 10
    omega
  refine ⟨by rw [Number.digitValue?, if_pos hle], hlt, Char.toNat_inj.1 ?_⟩
  rw [Nat.toNat_digitChar_of_lt_ten hlt]
  change 48 + (c.toNat - 48) = c.toNat
  omega

theorem isDigitIn_ten (c : Char) : Number.isDigitIn 10 c = c.isDigit := by
  cases h : c.isDigit with
  | true =>
    obtain ⟨hvalue, hlt, -⟩ := digitValue?_of_isDigit h
    simp only [Number.isDigitIn, hvalue, hlt, decide_true]
  | false =>
    have hle : ¬('0' ≤ c ∧ c ≤ '9') := fun hle => by simp [isDigit_iff.2 hle] at h
    -- letters stand for ten and more
    unfold Number.isDigitIn Number.digitValue?
    rw [if_neg hle]
    split
    · rename_i hd
      split at hd
      · obtain rfl := Option.some.inj hd
        simp
      · split at hd
        · obtain rfl := Option.some.inj hd
          simp
        · cases hd
    · rfl

theorem readNat?_ten {digits : List Char} {n : Nat} :
    Number.readNat? 10 digits = some n ↔
      (digits ≠ [] ∧ ∀ c ∈ digits, c.isDigit = true) ∧ Number.digitsValue 10 digits = n := by
  simp only [Number.readNat?, List.all_eq_true, isDigitIn_ten, Option.ite_none_right_eq_some,
    Option.some.injEq]

theorem toDigits_digitsValue {digits : List Char} (h : IsPosition digits) :
    Nat.toDigits 10 (Number.digitsValue 10 digits) = digits := by
  induction digits using List.reverseRecOn with
  | nil => exact absurd rfl h.1
  | append_singleton ds c ih =>
    obtain ⟨-, hdigits, hzero⟩ := h
    obtain ⟨hvalue, hlt, hchar⟩ := digitValue?_of_isDigit (hdigits c (by simp))
    have hstep : Number.digitsValue 10 (ds ++ [c]) =
        10 * Number.digitsValue 10 ds + (c.toNat - '0'.toNat) := by
      simp [Number.digitsValue, hvalue, Nat.mul_comm]
    rw [hstep]
    rcases eq_or_ne ds [] with rfl | hne
    · simp only [Number.digitsValue, List.foldl_nil, Nat.mul_zero, Nat.zero_add, List.nil_append]
      rw [Nat.toDigits_of_lt_base hlt, hchar]
    · have hhead : ds.head? ≠ some '0' := by
        intro hhead
        have hlen := congrArg List.length (hzero ((List.head?_append_of_ne_nil _ hne).trans hhead))
        simp [hne] at hlen
      have hds := ih ⟨hne, fun c' hc' => hdigits c' (List.mem_append_left _ hc'),
        fun hh => absurd hh hhead⟩
      have hpos : 0 < Number.digitsValue 10 ds := by
        refine Nat.pos_of_ne_zero fun hz => hhead ?_
        rw [← hds, hz, Nat.toDigits_zero]
        rfl
      rw [← Nat.toDigits_append_toDigits (by decide) hpos hlt, hds, Nat.toDigits_of_lt_base hlt,
        hchar]

namespace Json

theorem position?_eq_some_iff_isPosition {step : String} {i : Nat} :
    position? step = some i ↔ IsPosition step.toList ∧ Number.digitsValue 10 step.toList = i := by
  unfold position? IsPosition
  split
  · rename_i heq
    simp [heq, Number.digitsValue, Number.digitValue?]
  · rename_i rest hone heq
    refine ⟨fun h => (nomatch h), fun ⟨⟨_, _, hzero⟩, _⟩ => ?_⟩
    exact absurd (List.cons.inj (heq.symm.trans (hzero (by rw [heq]; rfl)))).2 hone
  · rename_i hone hzero
    have hhead : step.toList.head? ≠ some '0' := by
      intro hhead
      obtain ⟨rest, hrest⟩ := List.head?_eq_some_iff.1 hhead
      exact hzero rest hrest
    rw [readNat?_ten]
    simp [hhead]

/-- A position is written in one way. -/
theorem position?_eq_some {step : String} {i : Nat} :
    position? step = some i ↔ toString i = step := by
  rw [position?_eq_some_iff_isPosition, Nat.toString_eq_ofList_toDigits]
  constructor
  · rintro ⟨hpos, rfl⟩
    rw [toDigits_digitsValue hpos, String.ofList_toList]
  · rintro rfl
    rw [String.toList_ofList]
    exact ⟨isPosition_toDigits i, toDigits_inj (toDigits_digitsValue (isPosition_toDigits i))⟩

/-! ## Steps -/

/-- The items of an array as members. -/
theorem find?_ofList_zipIdx (items : List Json) (step : String) :
    Keyed.find? step (Keyed.ofList (items.zipIdx.map fun x => (toString x.2, x.1))) =
      (position? step).bind (items[·]?) := by
  induction items using List.reverseRecOn with
  | nil => cases position? step <;> rfl
  | append_singleton items item ih =>
    have hlast : Keyed.ofList ((items ++ [item]).zipIdx.map fun x => (toString x.2, x.1)) =
        Keyed.insert (toString items.length) item
          (Keyed.ofList (items.zipIdx.map fun x => (toString x.2, x.1))) := by
      simp [Keyed.ofList, List.zipIdx_append]
    rw [hlast, Keyed.find?_insert, ih]
    simp only [← position?_eq_some]
    cases position? step with
    | none => simp
    | some i =>
      simp only [Option.some.injEq, Option.bind_some, List.getElem?_append]
      split <;> split <;> grind

/-- A value as an object leads to the same children. -/
theorem child?_asMembers (v : Json) (step : String) :
    child? (.obj v.asMembers) step = v.child? step := by
  cases v
  case arr items => exact find?_ofList_zipIdx items step
  all_goals rfl

theorem descend?_cons (v : Json) (step : String) (steps : List String) :
    v.descend? (step :: steps) = (v.child? step).bind (·.descend? steps) := rfl

theorem descend?_append (v : Json) (xs ys : List String) :
    v.descend? (xs ++ ys) = (v.descend? xs).bind (·.descend? ys) := by
  induction xs generalizing v with
  | nil => rfl
  | cons x xs ih =>
    rw [List.cons_append, descend?_cons, descend?_cons, Option.bind_assoc]
    exact congrArg _ (funext fun w => ih w)

theorem descend?_concat (v : Json) (x : List String) (step : String) :
    v.descend? (x ++ [step]) = (v.descend? x).bind (·.child? step) := by
  rw [descend?_append]
  exact congrArg _ (funext fun w => by rw [descend?_cons]; exact Option.bind_fun_some _)

/-- Nothing is below a value without children. -/
theorem descend?_of_leaf {v : Json} {x : List String} (hv : ∀ step, v.child? step = none)
    (hx : x ≠ []) : v.descend? x = none := by
  obtain ⟨step, rest, rfl⟩ := List.exists_cons_of_ne_nil hx
  rw [descend?_cons, hv, Option.bind_none]

/-- A pointer that starts with a slash has a step, and leads where its steps do. -/
theorem pointer?_of_slash {p : String} (h : p.startsWith "/" = true) :
    pointerTexts p ≠ [] ∧ ∀ v : Json, v.pointer? p = v.descend? (pointerTexts p) := by
  obtain ⟨rest, hrest⟩ := String.startsWith_string_iff.1 h
  have hsplit : Text.splitAt (· == '/') p.toList = [] :: Text.splitAt (· == '/') rest := by
    rw [← hrest]
    rfl
  have hempty : p.isEmpty = false := by
    rw [← Bool.not_eq_true, String.isEmpty_iff]
    rintro rfl
    cases hrest
  refine ⟨?_, fun v => by simp [pointer?, hempty, h]⟩
  rw [pointerTexts, hsplit]
  simpa using Text.splitAt_ne_nil _ rest

/-! ## Writing -/

section
variable (part : Json) {r x : List String} {step : String} (members : List (String × Json))

/-- The object that a value is written to below a member. -/
def inside (step : String) : List (String × Json) :=
  ((Keyed.find? step members).map asMembers).getD []

/-- Below a member nothing changes when it becomes an object. -/
theorem descend?_inside (hx : x ≠ []) :
    descend? (.obj (inside members step)) x = descend? (.obj members) (step :: x) := by
  obtain ⟨y, ys, rfl⟩ := List.exists_cons_of_ne_nil hx
  have hmember : child? (.obj members) step = Keyed.find? step members := rfl
  rw [descend?_cons, descend?_cons, hmember]
  unfold inside
  cases Keyed.find? step members with
  | none => rfl
  | some v => exact congrArg (·.bind (descend? · ys)) (child?_asMembers v y)

/-- Writing changes one member: it becomes the new value, or an object with the new value in it. -/
theorem child?_place (rest : List String) (k : String) :
    child? (.obj (place part (step :: rest) members)) k =
      if step = k then
        some (if rest = [] then part else .obj (place part rest (inside members step)))
      else child? (.obj members) k := by
  cases rest <;> simp [place, inside, child?]

/-- The value is read back where it was written. -/
theorem descend?_place_append (hr : r ≠ []) (x : List String) :
    descend? (.obj (place part r members)) (r ++ x) = part.descend? x := by
  induction r generalizing members with
  | nil => exact absurd rfl hr
  | cons step rest ih =>
    rw [List.cons_append, descend?_cons, child?_place, if_pos rfl]
    by_cases hrest : rest = []
    · simp [hrest]
    · rw [if_neg hrest]
      exact ih _ hrest

/-- Nothing changes beside the steps that a value is written to. -/
theorem descend?_place_of_apart (hrx : ¬r <+: x) (hxr : ¬x <+: r) :
    descend? (.obj (place part r members)) x = descend? (.obj members) x := by
  induction r generalizing members x with
  | nil => exact absurd List.nil_prefix hrx
  | cons step rest ih =>
    cases x with
    | nil => exact absurd List.nil_prefix hxr
    | cons k x =>
      rw [descend?_cons, child?_place]
      by_cases hk : step = k
      · subst hk
        rw [List.prefix_cons_inj] at hrx hxr
        have hrest : rest ≠ [] := by
          rintro rfl
          exact hrx List.nil_prefix
        have hx : x ≠ [] := by
          rintro rfl
          exact hxr List.nil_prefix
        rw [if_pos rfl, if_neg hrest, Option.bind_some, ih _ hrx hxr, descend?_inside members hx]
      · rw [if_neg hk]
        rfl

/-- On the way to a value there are objects. -/
theorem exists_object_of_place (hxr : x <+: r) (hne : x ≠ r) :
    ∃ inner, descend? (.obj (place part r members)) x = some (.obj inner) := by
  induction r generalizing members x with
  | nil => exact absurd (List.prefix_nil.1 hxr) hne
  | cons step rest ih =>
    cases x with
    | nil => exact ⟨_, rfl⟩
    | cons k x =>
      obtain ⟨rfl, hx⟩ := List.cons_prefix_cons.1 hxr
      have hxrest : x ≠ rest := fun h => hne (h ▸ rfl)
      have hrest : rest ≠ [] := by
        rintro rfl
        exact hxrest (List.prefix_nil.1 hx)
      rw [descend?_cons, child?_place, if_pos rfl, if_neg hrest]
      exact ih _ hx hxrest

end

/-! ## Ordered values -/

/-- Every object in the value has its members in order. -/
def Ordered (v : Json) : Prop :=
  ∀ steps members, v.descend? steps = some (.obj members) → Keyed.Sorted members

section
variable {v w : Json} {steps : List String} {members : List (String × Json)}

theorem Ordered.sorted (h : Ordered (.obj members)) : Keyed.Sorted members := h [] members rfl

theorem Ordered.descend (h : v.Ordered) (hw : v.descend? steps = some w) : w.Ordered := by
  intro more members hm
  exact h (steps ++ more) members (by rw [descend?_append, hw]; exact hm)

theorem Ordered.child {step : String} (h : v.Ordered) (hw : v.child? step = some w) : w.Ordered :=
  fun steps members hm => h (step :: steps) members (by rw [descend?_cons, hw]; exact hm)

theorem Ordered.of_children (hv : ∀ members, v = .obj members → Keyed.Sorted members)
    (h : ∀ step w, v.child? step = some w → w.Ordered) : v.Ordered := by
  intro steps members hm
  cases steps with
  | nil => exact hv members (Option.some.inj hm)
  | cons step steps =>
    obtain ⟨w, hw, hrest⟩ := Option.bind_eq_some_iff.1 hm
    exact h step w hw steps members hrest

theorem Ordered.asMembers (h : v.Ordered) : Ordered (.obj v.asMembers) := by
  refine .of_children ?_ fun step w hw => ?_
  · rintro _ ⟨⟩
    cases v
    case obj members => exact h.sorted
    case arr items => exact .ofList _
    all_goals exact .nil
  · rw [child?_asMembers] at hw
    exact h.child hw

theorem Ordered.place {part : Json} (hpart : part.Ordered) (h : Ordered (.obj members)) :
    Ordered (.obj (place part steps members)) := by
  induction steps generalizing members with
  | nil => exact h
  | cons step rest ih =>
    refine .of_children ?_ fun k w hw => ?_
    · rintro _ ⟨⟩
      cases rest <;> exact h.sorted.insert _ _
    · rw [child?_place] at hw
      split at hw
      · split at hw
        · exact Option.some.inj hw ▸ hpart
        · refine Option.some.inj hw ▸ ih ?_
          unfold inside
          cases hv : Keyed.find? step members with
          | none => exact .of_children (by rintro _ ⟨⟩; exact .nil) fun _ _ h => (nomatch h)
          | some v => exact (h.child hv).asMembers
      · exact h.child hw

end

theorem size_pos (v : Json) : 0 < v.size := by
  cases v <;> simp [size]

theorem size_lt_of_mem_members {members : List (String × Json)} {key : String} {w : Json}
    (h : (key, w) ∈ members) : w.size < (Json.obj members).size := by
  refine Nat.lt_succ_of_le ?_
  induction members with
  | nil => cases h
  | cons p members ih =>
    obtain ⟨k, value⟩ := p
    rw [sizeMembers]
    rcases List.mem_cons.1 h with h | h
    · obtain ⟨-, rfl⟩ := Prod.mk.inj h
      exact Nat.le_add_right _ _
    · exact Nat.le_trans (ih h) (Nat.le_add_left _ _)

theorem size_lt_of_mem_items {items : List Json} {w : Json} (h : w ∈ items) :
    w.size < (Json.arr items).size := by
  refine Nat.lt_succ_of_le ?_
  induction items with
  | nil => cases h
  | cons item items ih =>
    rw [sizeItems]
    rcases List.mem_cons.1 h with rfl | h
    · exact Nat.le_add_right _ _
    · exact Nat.le_trans (ih h) (Nat.le_add_left _ _)

theorem size_lt_of_child? {v w : Json} {step : String} (h : v.child? step = some w) :
    w.size < v.size := by
  cases v
  case obj members => exact size_lt_of_mem_members (Keyed.mem_of_find? h)
  case arr items =>
    obtain ⟨i, -, hi⟩ := Option.bind_eq_some_iff.1 h
    exact size_lt_of_mem_items (List.mem_of_getElem? hi)
  all_goals cases h

theorem size_le_of_descend? {v w : Json} {x : List String} (h : v.descend? x = some w) :
    w.size ≤ v.size := by
  induction x generalizing v with
  | nil => exact Option.some.inj h ▸ Nat.le_refl _
  | cons step x ih =>
    obtain ⟨u, hu, hw⟩ := Option.bind_eq_some_iff.1 h
    exact (ih hw).trans (size_lt_of_child? hu).le

/-! ## References -/

mutual

/-- The texts of all references in a value: what objects have under `$ref`, if it is a text. -/
def references : Json → List String
  | .obj members =>
    ((Keyed.find? "$ref" members).bind Json.str?).toList ++ referencesOfMembers members
  | .arr items => referencesOfItems items
  | _ => []

def referencesOfItems : List Json → List String
  | [] => []
  | item :: rest => references item ++ referencesOfItems rest

def referencesOfMembers : List (String × Json) → List String
  | [] => []
  | (_, value) :: rest => references value ++ referencesOfMembers rest

end

section
variable {v : Json} {text : String}

theorem mem_referencesOfItems {items : List Json} :
    text ∈ referencesOfItems items ↔ ∃ item ∈ items, text ∈ references item := by
  induction items with
  | nil => simp [referencesOfItems]
  | cons item items ih => simp [referencesOfItems, ih]

theorem mem_referencesOfMembers {members : List (String × Json)} :
    text ∈ referencesOfMembers members ↔ ∃ e ∈ members, text ∈ references e.2 := by
  induction members with
  | nil => simp [referencesOfMembers]
  | cons e members ih => simp [referencesOfMembers, ih]

theorem str?_eq_some : v.str? = some text ↔ v = .str text := by
  cases v <;> simp [str?]

theorem bool?_eq_some {b : Bool} : v.bool? = some b ↔ v = .bool b := by
  cases v <;> simp [bool?]

/-- The references in a value are its own and those of its children. -/
theorem mem_references_iff_child (h : v.Ordered) : text ∈ v.references ↔
    v.child? "$ref" = some (.str text) ∨ ∃ step w, v.child? step = some w ∧ text ∈ w.references := by
  cases v
  case obj members =>
    rw [references, List.mem_append, mem_referencesOfMembers]
    refine or_congr ?_ ⟨?_, ?_⟩
    · simp only [Option.mem_toList, Option.bind_eq_some_iff, str?_eq_some, child?,
        exists_eq_right]
    · rintro ⟨e, he, ht⟩
      exact ⟨e.1, e.2, h.sorted.find?_eq_some.2 he, ht⟩
    · rintro ⟨step, w, hw, ht⟩
      exact ⟨(step, w), Keyed.mem_of_find? hw, ht⟩
  case arr items =>
    have hstep : child? (.arr items) "$ref" = none := rfl
    rw [references, mem_referencesOfItems, hstep]
    constructor
    · rintro ⟨item, hitem, ht⟩
      obtain ⟨i, hi⟩ := List.mem_iff_getElem?.1 hitem
      refine .inr ⟨toString i, item, ?_, ht⟩
      simp only [child?, position?_eq_some.2 rfl]
      exact hi
    · intro h
      obtain ⟨step, w, hw, ht⟩ := h.resolve_left (by simp)
      obtain ⟨i, -, hi⟩ := Option.bind_eq_some_iff.1 hw
      exact ⟨w, List.mem_of_getElem? hi, ht⟩
  all_goals simp [references, child?]

/-- The references in a value stand under `$ref` somewhere in it. -/
theorem mem_references_iff (h : v.Ordered) :
    text ∈ v.references ↔ ∃ x, v.descend? (x ++ ["$ref"]) = some (.str text) := by
  constructor
  · intro ht
    induction hsize : v.size using Nat.strongRecOn generalizing v with
    | ind n ih =>
      rcases (mem_references_iff_child h).1 ht with hown | ⟨step, w, hw, ht⟩
      · exact ⟨[], by rw [List.nil_append, descend?_cons, hown]; rfl⟩
      · obtain ⟨x, hx⟩ := ih w.size (hsize ▸ size_lt_of_child? hw) (h.child hw) ht rfl
        exact ⟨step :: x, by rw [List.cons_append, descend?_cons, hw]; exact hx⟩
  · rintro ⟨x, hx⟩
    induction x generalizing v with
    | nil =>
      obtain ⟨w, hw, htext⟩ := Option.bind_eq_some_iff.1 hx
      obtain rfl := Option.some.inj htext
      exact (mem_references_iff_child h).2 (.inl hw)
    | cons step x ih =>
      obtain ⟨w, hw, hx⟩ := Option.bind_eq_some_iff.1 hx
      exact (mem_references_iff_child h).2 (.inr ⟨step, w, hw, ih (h.child hw) hx⟩)

/-- The references of a part are references of the whole. -/
theorem mem_references_of_descend? {w : Json} {x : List String} (h : v.Ordered)
    (hw : v.descend? x = some w) (ht : text ∈ w.references) : text ∈ v.references := by
  obtain ⟨y, hy⟩ := (mem_references_iff (h.descend hw)).1 ht
  refine (mem_references_iff h).2 ⟨x ++ y, ?_⟩
  rw [List.append_assoc, descend?_append, hw]
  exact hy

end

end Json

/-! ## The values of trees -/

namespace Yaml.Node

/-- What holds of no members, and still when the value of a node is written, holds of the members of
a mapping. -/
theorem membersAt_induction {motive : List (String × Json) → Prop} (depth : Nat)
    (entries : List (Node × Node)) {members : List (String × Json)} (h : motive members)
    (hinsert : ∀ members key value, motive members →
      motive (Keyed.insert key (toJsonAt depth value) members)) :
    motive (membersAt depth entries members) := by
  induction entries generalizing members with
  | nil => exact h
  | cons e entries ih =>
    obtain ⟨key, value⟩ := e
    cases key <;> exact ih (hinsert _ _ _ h)

theorem mem_itemsAt {depth : Nat} {items : List Node} {w : Json} (h : w ∈ itemsAt depth items) :
    ∃ n, w = toJsonAt depth n := by
  induction items with
  | nil => cases h
  | cons n items ih =>
    rcases List.mem_cons.1 h with rfl | h
    · exact ⟨n, rfl⟩
    · exact ih h

/-- Scalars have no parts. -/
theorem scalarJson_leaf (v : Scalar) :
    (∀ step, (scalarJson v).child? step = none) ∧ ∀ members, scalarJson v ≠ .obj members := by
  cases v with
  | float x =>
    simp only [scalarJson]
    split <;> exact ⟨fun _ => rfl, fun _ h => (nomatch h)⟩
  | _ => exact ⟨fun _ => rfl, fun _ h => (nomatch h)⟩

/-- What is in the value of a tree is the value of a tree. -/
theorem child?_toJsonAt {depth : Nat} {n : Node} {step : String} {w : Json}
    (h : (toJsonAt depth n).child? step = some w) : ∃ depth' n', w = toJsonAt depth' n' := by
  cases n with
  | scalar v span =>
    unfold toJsonAt at h
    split at h
    · cases h
    · simp [(scalarJson_leaf v).1] at h
  | sequence items span =>
    unfold toJsonAt at h
    split at h
    · cases h
    · obtain ⟨i, -, hi⟩ := Option.bind_eq_some_iff.1 h
      obtain ⟨n', rfl⟩ := mem_itemsAt (List.mem_of_getElem? hi)
      exact ⟨_, n', rfl⟩
  | mapping entries span =>
    unfold toJsonAt at h
    split at h
    · cases h
    · have hall : ∀ w, Keyed.find? step (membersAt (depth + 1) entries []) = some w →
          ∃ n', w = toJsonAt (depth + 1) n' := by
        refine membersAt_induction (motive := fun members => ∀ w,
          Keyed.find? step members = some w → ∃ n', w = toJsonAt (depth + 1) n') _ _
          (fun w hw => by cases hw) ?_
        intro members key value ih w hw
        rw [Keyed.find?_insert] at hw
        split at hw
        · exact ⟨value, (Option.some.inj hw).symm⟩
        · exact ih w hw
      obtain ⟨n', rfl⟩ := hall w h
      exact ⟨_, n', rfl⟩

theorem sorted_toJsonAt {depth : Nat} {n : Node} {members : List (String × Json)}
    (h : toJsonAt depth n = .obj members) : Keyed.Sorted members := by
  cases n with
  | scalar v span =>
    unfold toJsonAt at h
    split at h
    · cases h
    · exact absurd h ((scalarJson_leaf v).2 _)
  | sequence items span =>
    unfold toJsonAt at h
    split at h <;> cases h
  | mapping entries span =>
    unfold toJsonAt at h
    split at h
    · cases h
    · obtain rfl := Json.obj.inj h
      exact membersAt_induction _ _ .nil fun members key value ih => ih.insert _ _

/-- The value of a tree is ordered. -/
theorem ordered_toJsonAt (depth : Nat) (n : Node) : (toJsonAt depth n).Ordered := by
  intro steps
  induction steps generalizing depth n with
  | nil => exact fun members hm => sorted_toJsonAt (Option.some.inj hm)
  | cons step steps ih =>
    intro members hm
    obtain ⟨w, hw, hrest⟩ := Option.bind_eq_some_iff.1 hm
    obtain ⟨depth', n', rfl⟩ := child?_toJsonAt hw
    exact ih depth' n' members hrest

theorem ordered_toJson (n : Node) : n.toJson.Ordered := ordered_toJsonAt 0 n

end Yaml.Node

end ApiLint
