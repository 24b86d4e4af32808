import ApiLint.Example.Validator
import ApiLint.Proofs.JsonTrees
import ApiLint.Proofs.Nodes

/-!
# The parts of a document in a fragment

Parts of a document are placed one after the other, each where it stands in the document
(`FragmentSource.mirror`). What stands at a place then is told by the last of the parts above, at or
below it (`FragmentSource.lastAt?`): if that part lies above or at the place, it is the clean copy
of what the document has there, or else there is an object on the way to that part
(`FragmentSource.descend?_placed`). So a part is the clean copy of what the document has unless an
array in it has become an object, or a member has been placed that clean copies do not have
(`FragmentSource.placed_eq_iff`).
-/

set_option autoImplicit false

namespace ApiLint

open Json (place Ordered)

namespace FragmentSource

variable (source : FragmentSource)

/-! ## Clean copies -/

/-- The step leads to a member that clean copies do not have. -/
def dropsAt (v : Json) (step : String) : Bool :=
  match v with
  | .obj members => (Keyed.find? step members).any (source.drops step)
  | _ => false

/-- The steps lead to a member that clean copies do not have. -/
def isDropped (v : Json) : List String → Bool
  | [] => false
  | [step] => source.dropsAt v step
  | step :: next :: rest => (v.child? step).any (isDropped · (next :: rest))

variable {source} {v w : Json} {step : String} {x y : List String}
  {members : List (String × Json)}

theorem sanitizeItems_eq (items : List Json) :
    source.sanitizeItems items = items.map source.sanitize := by
  induction items with
  | nil => rfl
  | cons item items ih => rw [sanitizeItems, ih, List.map_cons]

theorem find?_sanitizeMembers (h : Keyed.Sorted members) :
    Keyed.find? step (source.sanitizeMembers members) =
      if source.dropsAt (.obj members) step then none
      else (Keyed.find? step members).map source.sanitize := by
  induction members with
  | nil => rfl
  | cons p members ih =>
    obtain ⟨key, value⟩ := p
    obtain ⟨hp, hmembers⟩ := List.pairwise_cons.1 h
    have ih := ih hmembers
    by_cases hkey : key = step
    · subst hkey
      have hnone : Keyed.find? key members = none := by
        rw [Option.eq_none_iff_forall_ne_some]
        exact fun w hw => absurd (hp _ (Keyed.mem_of_find? hw)) (lt_irrefl _)
      have hhead : source.dropsAt (.obj ((key, value) :: members)) key =
          source.drops key value := by simp [dropsAt, Keyed.find?]
      rw [hhead, sanitizeMembers]
      split
      · rw [ih, hnone]
        exact ite_self _
      · simp [Keyed.find?]
    · have htail : ∀ {α : Type} (value : α) (members : List (String × α)),
          Keyed.find? step ((key, value) :: members) = Keyed.find? step members :=
        fun _ _ => if_neg hkey
      have hdrops : source.dropsAt (.obj ((key, value) :: members)) step =
          source.dropsAt (.obj members) step := by simp only [dropsAt, htail]
      rw [htail, hdrops, ← ih, sanitizeMembers]
      split
      · rfl
      · exact htail _ _

theorem child?_sanitize (h : v.Ordered) (step : String) :
    (source.sanitize v).child? step =
      if source.dropsAt v step then none else (v.child? step).map source.sanitize := by
  cases v
  case obj members => exact find?_sanitizeMembers h.sorted
  case arr items =>
    simp only [sanitize, Json.child?, sanitizeItems_eq, dropsAt]
    cases Json.position? step <;> simp
  all_goals rfl

/-- Only texts are dropped. -/
theorem exists_str_of_dropsAt (h : source.dropsAt v step = true) :
    ∃ text, v.child? step = some (.str text) := by
  cases v
  case obj members =>
    obtain ⟨w, hw, hdrops⟩ := (Option.any_eq_true _ _).1 h
    cases w
    case str text => exact ⟨text, hw⟩
    all_goals cases hdrops
  all_goals cases h

theorem isDropped_cons (hx : x ≠ []) :
    source.isDropped v (step :: x) = (v.child? step).any (source.isDropped · x) := by
  obtain ⟨next, rest, rfl⟩ := List.exists_cons_of_ne_nil hx
  rfl

theorem isDropped_append (hy : y ≠ []) :
    source.isDropped v (x ++ y) = (v.descend? x).any (source.isDropped · y) := by
  induction x generalizing v with
  | nil => rfl
  | cons step x ih =>
    rw [List.cons_append, isDropped_cons (by simp [hy]), Json.descend?_cons]
    cases v.child? step with
    | none => rfl
    | some w => exact ih

theorem exists_str_of_isDropped (h : source.isDropped v x = true) :
    ∃ text, v.descend? x = some (.str text) := by
  rcases List.eq_nil_or_concat' x with rfl | ⟨x, step, rfl⟩
  · cases h
  · rw [isDropped_append (List.cons_ne_nil _ _)] at h
    obtain ⟨w, hw, hdrops⟩ := (Option.any_eq_true _ _).1 h
    obtain ⟨text, htext⟩ := exists_str_of_dropsAt hdrops
    exact ⟨text, by rw [Json.descend?_append, hw]; simp [Json.descend?_cons, htext]; rfl⟩

/-- A clean copy has clean copies of what is in a value, but for what is dropped. -/
theorem descend?_sanitize (h : v.Ordered) (x : List String) :
    (source.sanitize v).descend? x =
      if source.isDropped v x then none else (v.descend? x).map source.sanitize := by
  induction x generalizing v with
  | nil => rfl
  | cons step x ih =>
    rw [Json.descend?_cons, Json.descend?_cons, child?_sanitize h]
    rcases eq_or_ne x [] with rfl | hx
    · rw [show source.isDropped v [step] = source.dropsAt v step from rfl]
      cases source.dropsAt v step <;> cases v.child? step <;> rfl
    · rw [isDropped_cons hx]
      cases hdrops : source.dropsAt v step with
      | true =>
        obtain ⟨text, htext⟩ := exists_str_of_dropsAt hdrops
        simp [htext, Json.descend?_of_leaf (v := .str text) (fun _ => rfl) hx]
      | false =>
        cases hchild : v.child? step with
        | none => rfl
        | some w =>
          exact ih (h.child hchild)

/-! ## Placing -/

variable (source) in
/-- Places a clean copy of what steps lead to in the document. -/
def mirror (members : List (String × Json)) (steps : List String) : List (String × Json) :=
  match source.root.descend? steps with
  | none => members
  | some part => place (source.sanitize part) steps members

/-- The last of the steps that are above, at or below `x`. -/
def lastAt? (rs : List (List String)) (x : List String) : Option (List String) :=
  rs.reverse.find? fun r => r.isPrefixOf x || x.isPrefixOf r

/-- The steps lead somewhere in the document. -/
def Resolved (source : FragmentSource) (rs : List (List String)) : Prop :=
  ∀ r ∈ rs, r ≠ [] ∧ (source.root.descend? r).isSome = true

theorem mem_of_lastAt? {rs : List (List String)} {r : List String} (h : lastAt? rs x = some r) :
    r ∈ rs ∧ (r <+: x ∨ x <+: r) := by
  have hfound := List.find?_some h
  rw [Bool.or_eq_true, List.isPrefixOf_iff_prefix, List.isPrefixOf_iff_prefix] at hfound
  exact ⟨List.mem_reverse.1 (List.mem_of_find?_eq_some h), hfound⟩

theorem exists_lastAt? {rs : List (List String)} {p : List String} (hp : p ∈ rs) (hx : p <+: x) :
    ∃ r, lastAt? rs x = some r := by
  rw [← Option.isSome_iff_exists, lastAt?, List.find?_isSome]
  exact ⟨p, List.mem_reverse.2 hp, by simp [List.isPrefixOf_iff_prefix.2 hx]⟩

theorem mem_sanitizeMembers {key : String} (h : (key, v) ∈ source.sanitizeMembers members) :
    ∃ w, (key, w) ∈ members := by
  induction members with
  | nil => cases h
  | cons p members ih =>
    unfold sanitizeMembers at h
    split at h
    · obtain ⟨w, hw⟩ := ih h
      exact ⟨w, .tail _ hw⟩
    · rcases List.mem_cons.1 h with heq | h
      · obtain rfl : key = p.1 := congrArg Prod.fst heq
        exact ⟨p.2, List.mem_cons_self⟩
      · obtain ⟨w, hw⟩ := ih h
        exact ⟨w, .tail _ hw⟩

theorem sorted_sanitizeMembers (h : Keyed.Sorted members) :
    Keyed.Sorted (source.sanitizeMembers members) := by
  induction members with
  | nil => exact .nil
  | cons p members ih =>
    obtain ⟨hp, hmembers⟩ := List.pairwise_cons.1 h
    unfold sanitizeMembers
    split
    · exact ih hmembers
    · refine List.pairwise_cons.2 ⟨fun q hq => ?_, ih hmembers⟩
      obtain ⟨w, hw⟩ := mem_sanitizeMembers hq
      exact hp (q.1, w) hw

theorem ordered_sanitize (h : v.Ordered) : (source.sanitize v).Ordered := by
  intro x members hm
  rw [descend?_sanitize h] at hm
  split at hm
  · cases hm
  · obtain ⟨w, hw, hclean⟩ := Option.map_eq_some_iff.1 hm
    cases w
    case obj members' =>
      obtain rfl := Json.obj.inj hclean
      exact sorted_sanitizeMembers (h x members' hw)
    all_goals cases hclean

section
variable {rs : List (List String)} {r p : List String}

theorem lastAt?_concat (rs : List (List String)) (s x : List String) :
    lastAt? (rs ++ [s]) x = if s <+: x ∨ x <+: s then some s else lastAt? rs x := by
  rw [lastAt?, List.reverse_append, List.reverse_singleton, List.singleton_append, List.find?_cons]
  by_cases h : s <+: x ∨ x <+: s
  · have hb : (s.isPrefixOf x || x.isPrefixOf s) = true := by
      simpa [List.isPrefixOf_iff_prefix] using h
    rw [if_pos h, hb]
  · have hb : (s.isPrefixOf x || x.isPrefixOf s) = false := by
      simpa [Bool.eq_false_iff, List.isPrefixOf_iff_prefix] using h
    rw [if_neg h, hb]
    rfl

/-- What stands where a part has just been placed, and below it. -/
theorem descend?_mirror (hroot : source.root.Ordered) (hr : r ≠ [])
    (hpart : (source.root.descend? r).isSome = true) (hrx : r <+: x) :
    (Json.obj (source.mirror members r)).descend? x =
      if x ≠ r ∧ source.isDropped source.root x then none
      else (source.root.descend? x).map source.sanitize := by
  obtain ⟨part, hpart⟩ := Option.isSome_iff_exists.1 hpart
  obtain ⟨y, rfl⟩ := hrx
  have hdropped : (r ++ y ≠ r ∧ source.isDropped source.root (r ++ y) = true) ↔
      source.isDropped part y = true := by
    rcases eq_or_ne y [] with rfl | hy
    · simp [isDropped]
    · simp [isDropped_append hy, hpart, hy]
  simp only [mirror, hpart, hdropped]
  rw [Json.descend?_place_append _ _ hr, descend?_sanitize (hroot.descend hpart),
    Json.descend?_append, hpart, Option.bind_some]

/-- What stands somewhere after parts have been placed is told by the last one near it. -/
theorem descend?_placed (members : List (String × Json)) (hroot : source.root.Ordered)
    (hrs : source.Resolved rs) (h : lastAt? rs x = some r) :
    (r <+: x → (Json.obj (rs.foldl source.mirror members)).descend? x =
      if x ≠ r ∧ source.isDropped source.root x then none
      else (source.root.descend? x).map source.sanitize) ∧
    (¬r <+: x → ∃ inner, (Json.obj (rs.foldl source.mirror members)).descend? x =
      some (.obj inner)) := by
  induction rs using List.reverseRecOn with
  | nil => cases h
  | append_singleton rs s ih =>
    obtain ⟨hs, hpart⟩ := hrs s (by simp)
    rw [lastAt?_concat] at h
    rw [List.foldl_append, List.foldl_cons, List.foldl_nil]
    split at h
    · rename_i hnear
      obtain rfl := Option.some.inj h
      refine ⟨descend?_mirror hroot hs hpart, fun hsx => ?_⟩
      obtain ⟨part, hpart⟩ := Option.isSome_iff_exists.1 hpart
      simp only [mirror, hpart]
      refine Json.exists_object_of_place _ _ (hnear.resolve_left hsx) ?_
      rintro rfl
      exact hsx (List.prefix_refl _)
    · rename_i hnear
      obtain ⟨part, hpart⟩ := Option.isSome_iff_exists.1 hpart
      rw [not_or] at hnear
      rw [mirror, hpart, Json.descend?_place_of_apart _ _ hnear.1 hnear.2]
      exact ih (fun r hr => hrs r (List.mem_append_left _ hr)) h

theorem ordered_placed (hroot : source.root.Ordered) (hmembers : Ordered (.obj members))
    (rs : List (List String)) : Ordered (.obj (rs.foldl source.mirror members)) := by
  induction rs using List.reverseRecOn with
  | nil => exact hmembers
  | append_singleton rs s ih =>
    rw [List.foldl_append, List.foldl_cons, List.foldl_nil, mirror]
    cases hpart : source.root.descend? s with
    | none => exact ih
    | some part => exact (ordered_sanitize (hroot.descend hpart)).place ih

/-! ## Faithful copies -/

/-- What is placed leaves the copy of what stands at `p` as it is. -/
structure Spares (source : FragmentSource) (rs : List (List String)) (p : List String) : Prop where
  /-- The last part near an array has all of the array. -/
  arrays : ∀ x items r, p <+: x → source.root.descend? x = some (.arr items) →
    lastAt? rs x = some r → r <+: x
  /-- The last part near a member that clean copies do not have is that member only if it is what
  stands at `p`. -/
  members : ∀ x r, p <+: x → source.isDropped source.root x = true → lastAt? rs x = some r →
    (r = x ↔ x = p)

/-- A part near a text, and near anything else without children, has all of it. -/
theorem prefix_of_leaf (hrs : source.Resolved rs) (h : lastAt? rs x = some r)
    (hx : source.root.descend? x = some v) (hv : ∀ step, v.child? step = none) : r <+: x := by
  obtain ⟨hr, hnear⟩ := mem_of_lastAt? h
  refine hnear.elim id fun hxr => ?_
  obtain ⟨y, rfl⟩ := hxr
  rcases eq_or_ne y [] with rfl | hy
  · simp
  · have hpart := (hrs _ hr).2
    rw [Json.descend?_append, hx, Option.bind_some, Json.descend?_of_leaf hv hy] at hpart
    cases hpart

/-- Where there is nothing in the document, nothing is placed. -/
theorem placed_eq_none (hroot : source.root.Ordered) (hrs : source.Resolved rs)
    (h : lastAt? rs x = some r) (hx : source.root.descend? x = none) :
    (Json.obj (rs.foldl source.mirror members)).descend? x = none := by
  obtain ⟨hr, hnear⟩ := mem_of_lastAt? h
  have hrx : r <+: x := by
    refine hnear.elim id fun hxr => ?_
    obtain ⟨y, rfl⟩ := hxr
    have hpart := (hrs _ hr).2
    rw [Json.descend?_append, hx] at hpart
    cases hpart
  rw [(descend?_placed _ hroot hrs h).1 hrx, hx]
  exact ite_self _

/-- What is left as it is stays a clean copy, at every place in it. -/
theorem Spares.placed_eq (hroot : source.root.Ordered) (hmembers : Ordered (.obj members))
    (hrs : source.Resolved rs) (hp : p ∈ rs) (hspares : source.Spares rs p) (hpx : p <+: x)
    (hx : source.root.descend? x = some v)
    (hdropped : source.isDropped source.root x = true → x = p) :
    (Json.obj (rs.foldl source.mirror members)).descend? x = some (source.sanitize v) := by
  induction hsize : v.size using Nat.strongRecOn generalizing x v with
  | ind n ih =>
    obtain ⟨r, hr⟩ := exists_lastAt? hp hpx
    obtain ⟨habove, hbelow⟩ := descend?_placed members hroot hrs hr
    by_cases hrx : r <+: x
    · have hkept : ¬(x ≠ r ∧ source.isDropped source.root x = true) := fun ⟨hne, hd⟩ =>
        hne ((hspares.members x r hpx hd hr).2 (hdropped hd)).symm
      rw [habove hrx, if_neg hkept, hx]
      rfl
    · -- a part has been placed below, so there is an object, in the document too
      obtain ⟨inner, hinner⟩ := hbelow hrx
      cases v
      case obj outer =>
        have hsorted : Keyed.Sorted inner := ordered_placed hroot hmembers rs x inner hinner
        have houter : Keyed.Sorted outer := hroot x outer hx
        rw [hinner, sanitize, Option.some.injEq, Json.obj.injEq]
        refine hsorted.ext (sorted_sanitizeMembers houter) fun step => ?_
        have hplaced : Keyed.find? step inner =
            (Json.obj (rs.foldl source.mirror members)).descend? (x ++ [step]) := by
          rw [Json.descend?_concat, hinner]
          rfl
        have hchild : source.root.descend? (x ++ [step]) = Keyed.find? step outer := by
          rw [Json.descend?_concat, hx]
          rfl
        have hdrops : source.isDropped source.root (x ++ [step]) =
            source.dropsAt (.obj outer) step := by
          rw [isDropped_append (List.cons_ne_nil _ _), hx]
          rfl
        have hpstep : p <+: x ++ [step] := hpx.trans (List.prefix_append _ _)
        have hne : x ++ [step] ≠ p := by
          rintro rfl
          have := hpx.length_le
          simp at this
        obtain ⟨s, hs⟩ := exists_lastAt? hp hpstep
        rw [hplaced, find?_sanitizeMembers houter]
        cases hw : Keyed.find? step outer with
        | none =>
          rw [placed_eq_none hroot hrs hs (hchild.trans hw)]
          exact (ite_self _).symm
        | some w =>
          rw [hw] at hchild
          split
          · rename_i hd
            obtain ⟨text, htext⟩ := exists_str_of_isDropped (hdrops.trans hd)
            have hsx := prefix_of_leaf hrs hs htext fun _ => rfl
            have hsne : s ≠ x ++ [step] := fun he =>
              hne ((hspares.members _ s hpstep (hdrops.trans hd) hs).1 he)
            rw [(descend?_placed _ hroot hrs hs).1 hsx, if_pos ⟨hsne.symm, hdrops.trans hd⟩]
          · rename_i hd
            have hlt : w.size < n := hsize ▸ Json.size_lt_of_child? (v := .obj outer) hw
            exact ih w.size hlt hpstep hchild (fun h => absurd (hdrops.symm.trans h) hd) rfl
      case arr items => exact absurd (hspares.arrays x items r hpx hx hr) hrx
      all_goals exact absurd (prefix_of_leaf hrs hr hx fun _ => rfl) hrx

/-- **When a part is the clean copy of what the document has.** It is if, and only if, what is
placed leaves it as it is. -/
theorem placed_eq_iff (hroot : source.root.Ordered) (hmembers : Ordered (.obj members))
    (hrs : source.Resolved rs) (hp : p ∈ rs) :
    (Json.obj (rs.foldl source.mirror members)).descend? p =
      (source.root.descend? p).map source.sanitize ↔ source.Spares rs p := by
  obtain ⟨v, hv⟩ := Option.isSome_iff_exists.1 (hrs p hp).2
  rw [hv]
  refine ⟨fun heq => ?_, fun hspares =>
    hspares.placed_eq hroot hmembers hrs hp (List.prefix_refl _) hv fun _ => rfl⟩
  -- what stands below `p` then is what the clean copy has there
  have hbelow : ∀ y, (Json.obj (rs.foldl source.mirror members)).descend? (p ++ y) =
      if source.isDropped v y then none
      else (source.root.descend? (p ++ y)).map source.sanitize := by
    intro y
    rw [Json.descend?_append, heq, Json.descend?_append, hv]
    exact descend?_sanitize (hroot.descend hv) y
  constructor
  · rintro _ items r ⟨y, rfl⟩ hx hr
    by_contra hrx
    obtain ⟨inner, hinner⟩ := (descend?_placed members hroot hrs hr).2 hrx
    rw [hbelow, hx] at hinner
    split at hinner <;> cases hinner
  · rintro _ r ⟨y, rfl⟩ hd hr
    obtain ⟨text, htext⟩ := exists_str_of_isDropped hd
    have hrx := prefix_of_leaf hrs hr htext fun _ => rfl
    have hplaced := (descend?_placed members hroot hrs hr).1 hrx
    rw [hbelow, htext] at hplaced
    rcases eq_or_ne y [] with rfl | hy
    · rw [List.append_nil] at hplaced hd ⊢
      by_contra hne
      have hpr : p ≠ r := fun h => hne ⟨fun _ => rfl, fun _ => h.symm⟩
      have hself : ¬source.isDropped v [] = true := Bool.false_ne_true
      rw [if_neg hself, if_pos ⟨hpr, hd⟩] at hplaced
      cases hplaced
    · have hdv : source.isDropped v y = true := by
        rw [isDropped_append hy, hv] at hd
        exact hd
      have hne : p ++ y ≠ r := by
        intro he
        rw [if_pos hdv, if_neg fun h => h.1 he] at hplaced
        cases hplaced
      simp [hne.symm, hy]

/-- Whatever the order, copies are left as they are if no part lies inside an array of them and none
is a member that clean copies do not have. -/
theorem Spares.of_outside (hp : p ∈ rs)
    (harrays : ∀ r ∈ rs, ∀ x items, p <+: x → source.root.descend? x = some (.arr items) →
      x <+: r → r = x)
    (hdropped : ∀ r ∈ rs, p <+: r → source.isDropped source.root r = false) :
    source.Spares rs p where
  arrays x items r hpx hx hr := by
    obtain ⟨hmem, hnear⟩ := mem_of_lastAt? hr
    refine hnear.elim id fun hxr => ?_
    rw [harrays r hmem x items hpx hx hxr]
  members x r hpx hd hr := by
    have hmem := (mem_of_lastAt? hr).1
    have hkept : ∀ s ∈ rs, s = x → False := by
      rintro s hs rfl
      rw [hdropped s hs hpx] at hd
      cases hd
    exact ⟨fun he => (hkept r hmem he).elim, fun he => (hkept p hp he.symm).elim⟩

/-- A part that clean copies have is there, if only with objects in place of arrays. -/
theorem exists_placed (members : List (String × Json)) (hroot : source.root.Ordered)
    (hrs : source.Resolved rs) (hp : p ∈ rs) (hpx : p <+: x) (hx : source.root.descend? x = some v)
    (hdropped : source.isDropped source.root x = false) :
    ∃ w, (Json.obj (rs.foldl source.mirror members)).descend? x = some w ∧
      (w = source.sanitize v ∨ ∃ inner, w = .obj inner) := by
  obtain ⟨r, hr⟩ := exists_lastAt? hp hpx
  obtain ⟨habove, hbelow⟩ := descend?_placed members hroot hrs hr
  by_cases hrx : r <+: x
  · have hnot : ¬(x ≠ r ∧ source.isDropped source.root x = true) := by simp [hdropped]
    exact ⟨_, by rw [habove hrx, if_neg hnot, hx]; rfl, .inl rfl⟩
  · obtain ⟨inner, hinner⟩ := hbelow hrx
    exact ⟨_, hinner, .inr ⟨inner, rfl⟩⟩

end

end FragmentSource

end ApiLint
