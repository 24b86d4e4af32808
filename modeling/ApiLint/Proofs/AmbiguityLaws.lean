import ApiLint.Route.Template
import Mathlib.Data.List.Induction
import Mathlib.Data.Sym.Sym2

/-!
# Ambiguity as a relation

Comparing two templates the other way round notes the same sides, turned over
(`Route.compareParts_swap`), so ambiguity is symmetric. A template compared with itself notes no
side at all, and comparing under fewer declared types notes the same sides again
(`Route.compareParts_of_restricts`).

The pairs of path items that are ambiguous (`Route.collisions`) are those of a symmetric relation on
a list, and come out the same in whatever order the items are listed (`Route.pairsBy_perm`). Of an
item only the template and the types of its variables count (`Route.collisions_perm`).
-/

set_option autoImplicit false

namespace ApiLint.Route

/-- The declarations of `fewer` are among those of `types`. -/
def Restricts (fewer types : Types) : Prop :=
  ∀ name type, fewer.lookup name = some type → types.lookup name = some type

/-- The ambiguous pairs of path items, without their order. -/
def collisions (d : Document) : List (Sym2 PathItem) :=
  (ambiguousPairs d).filterMap fun (i, j) => do
    let earlier ← d.paths[i]?
    let later ← d.paths[j]?
    return s(earlier, later)

/-- What counts of a path item in a comparison. -/
def signature (d : Document) (item : PathItem) : String × Types := (item.template, types d item)

/-! ## Symmetry -/

/-- The other side. -/
def Side.swap : Side → Side
  | .first => .second
  | .second => .first

theorem compatible_comm (s t : String) : compatible s t = compatible t s := by
  rw [compatible, compatible, Bool.beq_comm, Bool.and_comm]

theorem declaredCompatible_comm (s t : Option String) :
    declaredCompatible s t = declaredCompatible t s := by
  cases s <;> cases t <;> first | rfl | exact compatible_comm ..

theorem comparePart_swap (a : Part) (aTypes : Types) (b : Part) (bTypes : Types) :
    comparePart b bTypes a aTypes =
      (comparePart a aTypes b bTypes).map (Option.map Side.swap) := by
  cases a with
  | literal x =>
    cases b with
    | literal y =>
      rw [comparePart, comparePart, Bool.beq_comm]
      split <;> rfl
    | variable_ y =>
      rw [comparePart, comparePart]
      split <;> rfl
  | variable_ x =>
    cases b with
    | literal y =>
      rw [comparePart, comparePart]
      split <;> rfl
    | variable_ y =>
      rw [comparePart, comparePart, declaredCompatible_comm]
      split <;> rfl

theorem compareParts_swap (aTypes bTypes : Types) (as bs : List Part) :
    compareParts bTypes aTypes bs as =
      (compareParts aTypes bTypes as bs).map (List.map Side.swap) := by
  induction as generalizing bs with
  | nil => cases bs <;> rfl
  | cons a as ih =>
    cases bs with
    | nil => rfl
    | cons b bs =>
      rw [compareParts, compareParts, comparePart_swap, ih]
      rcases comparePart a aTypes b bTypes with _ | _ | side <;>
        cases compareParts aTypes bTypes as bs <;> rfl

theorem contains_map_swap (sides : List Side) (side : Side) :
    (sides.map Side.swap).contains side.swap = sides.contains side := by
  induction sides with
  | nil => rfl
  | cons other sides ih =>
    rw [List.map_cons, List.contains_cons, List.contains_cons, ih]
    cases side <;> cases other <;> rfl

theorem ambiguous_comm (a : String) (aTypes : Types) (b : String) (bTypes : Types) :
    ambiguous a aTypes b bTypes = ambiguous b bTypes a aTypes := by
  rw [ambiguous, ambiguous, compareParts_swap aTypes bTypes]
  cases compareParts aTypes bTypes (parts a) (parts b) with
  | none => rfl
  | some sides =>
    have hfirst : (sides.map Side.swap).contains .first = sides.contains .second :=
      contains_map_swap sides .second
    have hsecond : (sides.map Side.swap).contains .second = sides.contains .first :=
      contains_map_swap sides .first
    simp only [Option.map_some, hfirst, hsecond, Bool.and_comm]

/-! ## Reflexivity -/

theorem declaredCompatible_self (s : Option String) : declaredCompatible s s = true := by
  cases s with
  | none => rfl
  | some s => rw [declaredCompatible, compatible, beq_self_eq_true, Bool.true_or]

theorem comparePart_self (a : Part) (types : Types) : comparePart a types a types = some none := by
  cases a with
  | literal x => rw [comparePart, if_pos (beq_self_eq_true x)]
  | variable_ x => rw [comparePart, if_pos (declaredCompatible_self _)]

theorem compareParts_self (types : Types) (as : List Part) :
    compareParts types types as as = some [] := by
  induction as with
  | nil => rfl
  | cons a as ih =>
    rw [compareParts, comparePart_self, ih]
    rfl

theorem ambiguous_self (a : String) (types : Types) : ambiguous a types a types = true := by
  rw [ambiguous, compareParts_self]
  rfl

/-! ## Fewer declarations -/

theorem Restricts.lookup {fewer types : Types} (h : Restricts fewer types) (name : String) :
    fewer.lookup name = none ∨ fewer.lookup name = types.lookup name := by
  cases hname : fewer.lookup name with
  | none => exact .inl rfl
  | some type => exact .inr (h name type hname).symm

theorem Restricts.literalFits {fewer types : Types} (h : Restricts fewer types) {name text : String}
    (hfits : literalFits text (types.lookup name) = true) :
    literalFits text (fewer.lookup name) = true := by
  rcases h.lookup name with hnone | hsame
  · rw [hnone]
    rfl
  · rwa [hsame]

theorem Restricts.declaredCompatible {aTypes aTypes' bTypes bTypes' : Types}
    (ha : Restricts aTypes' aTypes) (hb : Restricts bTypes' bTypes) {x y : String}
    (h : declaredCompatible (aTypes.lookup x) (bTypes.lookup y) = true) :
    declaredCompatible (aTypes'.lookup x) (bTypes'.lookup y) = true := by
  rcases ha.lookup x with hnone | hx
  · rw [hnone]
    rfl
  · rcases hb.lookup y with hnone | hy
    · rw [hnone]
      cases aTypes'.lookup x <;> rfl
    · rwa [hx, hy]

section
variable {aTypes aTypes' bTypes bTypes' : Types} (ha : Restricts aTypes' aTypes)
  (hb : Restricts bTypes' bTypes)
include ha hb

theorem comparePart_of_restricts {a b : Part} {side : Option Side}
    (h : comparePart a aTypes b bTypes = some side) :
    comparePart a aTypes' b bTypes' = some side := by
  cases a with
  | literal x =>
    cases b with
    | literal y => exact h
    | variable_ y =>
      rw [comparePart, Option.ite_none_right_eq_some] at h ⊢
      exact ⟨hb.literalFits h.1, h.2⟩
  | variable_ x =>
    cases b with
    | literal y =>
      rw [comparePart, Option.ite_none_right_eq_some] at h ⊢
      exact ⟨ha.literalFits h.1, h.2⟩
    | variable_ y =>
      rw [comparePart, Option.ite_none_right_eq_some] at h ⊢
      exact ⟨ha.declaredCompatible hb h.1, h.2⟩

theorem compareParts_of_restricts {as bs : List Part} {sides : List Side}
    (h : compareParts aTypes bTypes as bs = some sides) :
    compareParts aTypes' bTypes' as bs = some sides := by
  induction as generalizing bs sides with
  | nil => cases bs <;> exact h
  | cons a as ih =>
    cases bs with
    | nil => exact h
    | cons b bs =>
      rw [compareParts] at h ⊢
      obtain ⟨side, hside, h⟩ := Option.bind_eq_some_iff.1 h
      obtain ⟨others, hothers, h⟩ := Option.bind_eq_some_iff.1 h
      rw [comparePart_of_restricts ha hb hside, ih hothers]
      exact h

theorem ambiguous_of_restricts {a b : String} (h : ambiguous a aTypes b bTypes = true) :
    ambiguous a aTypes' b bTypes' = true := by
  rw [ambiguous] at h ⊢
  cases hsides : compareParts aTypes bTypes (parts a) (parts b) with
  | none => simp [hsides] at h
  | some sides =>
    rw [compareParts_of_restricts ha hb hsides]
    rwa [hsides] at h

end

/-! ## Pairs of a list -/

section
variable {α β : Type} (r : α → α → Bool)

/-- The unordered pairs that are in a relation, of each element with those before it. -/
def pairsBy (xs : List α) : List (Sym2 α) :=
  xs.zipIdx.flatMap fun (y, j) => ((xs.take j).filter (r · y)).map fun x => s(x, y)

theorem pairsBy_concat (xs : List α) (y : α) :
    pairsBy r (xs ++ [y]) = pairsBy r xs ++ (xs.filter (r · y)).map fun x => s(x, y) := by
  have hbefore : ∀ p ∈ xs.zipIdx, (xs ++ [y]).take p.2 = xs.take p.2 := fun p hp =>
    List.take_append_of_le_length (Nat.le_of_lt (by simpa using List.snd_lt_add_of_mem_zipIdx hp))
  rw [pairsBy, List.zipIdx_append, List.flatMap_append, pairsBy]
  congr 1
  · exact List.flatMap_congr fun p hp => by dsimp only; rw [hbefore p hp]
  · simp

/-- The relation may be read off what is mapped. -/
theorem pairsBy_map (f : β → α) (xs : List β) :
    pairsBy r (xs.map f) = (pairsBy (fun x y => r (f x) (f y)) xs).map (Sym2.map f) := by
  simp only [pairsBy, List.zipIdx_map, List.flatMap_map, List.map_flatMap, List.map_map,
    ← List.map_take, List.filter_map]
  rfl

/-- The pair of two elements, if they are related. -/
theorem map_filter_singleton (x y : α) :
    ([x].filter (r · y)).map (fun z => s(z, y)) = ([y].filter (r x)).map fun z => s(x, z) := by
  cases hxy : r x y <;> simp [hxy]

/-- The first element is paired with those after it. -/
theorem pairsBy_cons (x : α) (xs : List α) :
    (pairsBy r (x :: xs)).Perm (pairsBy r xs ++ (xs.filter (r x)).map fun y => s(x, y)) := by
  induction xs using List.reverseRecOn with
  | nil => exact .refl _
  | append_singleton xs y ih =>
    have hfilter : (x :: xs).filter (r · y) = [x].filter (r · y) ++ xs.filter (r · y) :=
      List.filter_append [x] xs
    rw [← List.cons_append, pairsBy_concat, pairsBy_concat, hfilter, List.filter_append,
      List.map_append, List.map_append, map_filter_singleton]
    refine (ih.append_right _).trans ?_
    simp only [← Multiset.coe_eq_coe, ← Multiset.coe_add]
    ac_rfl

variable {r} (hr : ∀ x y, r x y = r y x)
include hr

/-- **The pairs of a list do not depend on its order.** -/
theorem pairsBy_perm {xs ys : List α} (h : xs.Perm ys) : (pairsBy r xs).Perm (pairsBy r ys) := by
  induction h with
  | nil => exact .refl _
  | @cons x xs ys h ih =>
    refine (pairsBy_cons r x xs).trans (.trans ?_ (pairsBy_cons r x ys).symm)
    exact ih.append ((h.filter _).map _)
  | swap x y xs =>
    have htwo : ∀ x y, (pairsBy r (x :: y :: xs)).Perm (pairsBy r xs ++
        (xs.filter (r y)).map (fun z => s(y, z)) ++
        (([y].filter (r x)).map (fun z => s(x, z)) ++ (xs.filter (r x)).map fun z => s(x, z))) := by
      intro x y
      rw [← List.map_append, ← List.filter_append]
      exact (pairsBy_cons r x _).trans ((pairsBy_cons r y xs).append_right _)
    have hpair : ([x].filter (r y)).map (fun z => s(y, z)) =
        ([y].filter (r x)).map fun z => s(x, z) := by
      rw [← map_filter_singleton r x y, funext fun z => hr z y]
      exact List.map_congr_left fun z _ => Sym2.eq_swap
    refine (htwo y x).trans (.trans ?_ (htwo x y).symm)
    rw [hpair]
    simp only [← Multiset.coe_eq_coe, ← Multiset.coe_add]
    ac_rfl
  | trans _ _ ih ih' => exact ih.trans ih'

end

/-! ## Path items -/

/-- Two path items are ambiguous in a document. -/
def collide (d : Document) (p q : PathItem) : Bool :=
  ambiguous p.template (types d p) q.template (types d q)

theorem collide_comm (d : Document) (p q : PathItem) : collide d p q = collide d q p :=
  ambiguous_comm ..

theorem ambiguousPairs_eq (d : Document) : ambiguousPairs d =
    d.paths.toList.zipIdx.flatMap fun (q, j) => (d.paths.toList.take j).zipIdx.filterMap
      fun (p, i) => if collide d p q then some (i, j) else none := by
  simp only [ambiguousPairs, List.zipIdx_map, List.flatMap_map, ← List.map_take,
    List.filterMap_map]
  rfl

/-- The pairs are those of ambiguous items, the earlier one first. -/
theorem mem_ambiguousPairs {d : Document} {i j : Nat} : (i, j) ∈ ambiguousPairs d ↔
    i < j ∧ ∃ p q, d.paths[i]? = some p ∧ d.paths[j]? = some q ∧ collide d p q = true := by
  simp only [ambiguousPairs_eq, List.mem_flatMap, List.mem_filterMap, Prod.exists,
    List.mk_mem_zipIdx_iff_getElem?, Option.ite_none_right_eq_some, Option.some.injEq,
    Prod.mk.injEq, List.getElem?_take, Array.getElem?_toList]
  constructor
  · rintro ⟨q, j, hq, p, i, ⟨hlt, hp⟩, hcollide, rfl, rfl⟩
    exact ⟨hlt, p, q, hp, hq, hcollide⟩
  · rintro ⟨hlt, p, q, hp, hq, hcollide⟩
    exact ⟨q, j, hq, p, i, ⟨hlt, hp⟩, hcollide, rfl, rfl⟩

/-- The pairs of a document are those of its path items that are ambiguous. -/
theorem collisions_eq (d : Document) : collisions d = pairsBy (collide d) d.paths.toList := by
  rw [collisions, ambiguousPairs_eq, List.filterMap_flatMap, pairsBy]
  refine List.flatMap_congr fun ⟨q, j⟩ hq => ?_
  have hq : d.paths[j]? = some q := by simpa [List.mk_mem_zipIdx_iff_getElem?] using hq
  dsimp only
  rw [List.filterMap_filterMap, ← List.filterMap_eq_map, List.filterMap_filter]
  conv_rhs => rw [← List.zipIdx_map_fst 0 (d.paths.toList.take j), List.filterMap_map]
  refine List.filterMap_congr fun ⟨p, i⟩ hp => ?_
  have hp : d.paths[i]? = some p := by
    rw [List.mk_mem_zipIdx_iff_getElem?, List.getElem?_take] at hp
    simpa using (Option.ite_none_right_eq_some.1 hp).2
  cases hcollide : collide d p q <;> simp [hcollide, hp, hq]

/-- What counts of the path items decides their collisions. -/
theorem collisions_perm {d d' : Document}
    (h : (d'.paths.toList.map (signature d')).Perm (d.paths.toList.map (signature d))) :
    ((collisions d').map (Sym2.map (signature d'))).Perm
      ((collisions d).map (Sym2.map (signature d))) := by
  let r := fun x y : String × Types => ambiguous x.1 x.2 y.1 y.2
  have hmap : ∀ d : Document, (collisions d).map (Sym2.map (signature d)) =
      pairsBy r (d.paths.toList.map (signature d)) := fun d => by
    rw [collisions_eq, pairsBy_map]
    rfl
  rw [hmap, hmap]
  exact pairsBy_perm (fun x y => ambiguous_comm ..) h

end ApiLint.Route
