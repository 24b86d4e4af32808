import ApiLint.Route.Template
import Mathlib.Data.List.Forall2

/-!
# URLs that two templates have in common

A template stands for the URLs it matches segment by segment (`Route.Matches`). Two templates are
found ambiguous exactly if there is a URL that both match, apart from two kinds of pairs that are
left out (`Route.ambiguous_iff`): those in which variables of incompatible declared types face each
other (`Route.Clashing`), and those in which each template has a variable where the other one has a
literal (`Route.Opposed`). Without declared types the second kind alone is left out
(`Route.ambiguous_untyped_iff`).

The comparison is by parts, which are the segments read as variables and literals
(`Route.HasSegments.parts_eq`). It goes through exactly if the parts can be given one text at each
position and no declared types clash (`Route.compareParts_isSome_iff`).
-/

set_option autoImplicit false

namespace ApiLint.Route

/-- The segments of a template, which is each of them behind a slash. -/
structure HasSegments (template : String) (segments : List (List Char)) : Prop where
  text : template.toList = segments.flatMap ('/' :: ·)
  slashless : ∀ s ∈ segments, '/' ∉ s

/-- A segment is `{name}`. -/
structure IsVariable (segment name : List Char) : Prop where
  text : segment = '\x7b' :: (name ++ ['\x7d'])
  named : name ≠ []
  notOpened : '\x7b' ∉ name
  notClosed : '\x7d' ∉ name

/-- A segment accepts a text: a variable one that fits its declared type, any other segment itself
alone. -/
inductive Accepts (types : Types) : List Char → String → Prop
  | variable_ {segment : List Char} {name text : String} (h : IsVariable segment name.toList)
      (fits : literalFits text (types.lookup name) = true) : Accepts types segment text
  | literal {segment : List Char} {text : String} (h : ∀ name, ¬IsVariable segment name)
      (same : text.toList = segment) : Accepts types segment text

/-- The segments of a URL are accepted one by one by those of a template. -/
def Matches (types : Types) (template : String) (url : List String) : Prop :=
  ∃ segments, HasSegments template segments ∧ List.Forall₂ (Accepts types) segments url

/-- The segments of a URL hold no slashes. -/
def IsUrl (url : List String) : Prop := ∀ text ∈ url, '/' ∉ text.toList

/-- A template has a variable of this name at a position. -/
def VariableAt (template : String) (i : Nat) (name : String) : Prop :=
  ∃ segments, HasSegments template segments ∧ ∃ s ∈ segments[i]?, IsVariable s name.toList

/-- A template has a segment at a position that is no variable. -/
def LiteralAt (template : String) (i : Nat) : Prop :=
  ∃ segments, HasSegments template segments ∧ ∃ s ∈ segments[i]?, ∀ name, ¬IsVariable s name

/-- At some position both templates have variables, and their types are declared and are not
compatible. -/
def Clashing (a : String) (aTypes : Types) (b : String) (bTypes : Types) : Prop :=
  ∃ i x y, VariableAt a i x ∧ VariableAt b i y ∧
    ∃ s ∈ aTypes.lookup x, ∃ t ∈ bTypes.lookup y, compatible s t = false

/-- The first template has a variable where the second one has a literal. -/
def Covers (a b : String) : Prop := ∃ i, (∃ x, VariableAt a i x) ∧ LiteralAt b i

/-- Each template has a variable where the other one has a literal. -/
def Opposed (a b : String) : Prop := Covers a b ∧ Covers b a

/-! ## Segments -/

theorem exists_segments (cs : List Char) : ∃ (piece : List Char) (segments : List (List Char)),
    cs = piece ++ segments.flatMap ('/' :: ·) ∧ '/' ∉ piece ∧ ∀ s ∈ segments, '/' ∉ s := by
  induction cs with
  | nil => exact ⟨[], [], by simp⟩
  | cons c cs ih =>
    obtain ⟨piece, segments, rfl, hpiece, hsegments⟩ := ih
    by_cases hc : c = '/'
    · refine ⟨[], piece :: segments, by simp [hc], by simp, ?_⟩
      simpa using ⟨hpiece, hsegments⟩
    · exact ⟨c :: piece, segments, rfl, by simp [Ne.symm hc, hpiece], hsegments⟩

/-- A template that starts with a slash has segments. -/
theorem exists_hasSegments {template : String} (h : template.toList.head? = some '/') :
    ∃ segments, HasSegments template segments := by
  obtain ⟨piece, segments, htext, hpiece, hsegments⟩ := exists_segments template.toList
  cases piece with
  | nil => exact ⟨segments, htext, hsegments⟩
  | cons c piece =>
    have hc : c = '/' := by simpa [htext] using h
    simp [hc] at hpiece

theorem splitAt_segments (segments : List (List Char)) (h : ∀ s ∈ segments, '/' ∉ s) :
    Text.splitAt (· == '/') (segments.flatMap ('/' :: ·)) = [] :: segments := by
  induction segments with
  | nil => rfl
  | cons s segments ih =>
    obtain ⟨hs, hsegments⟩ := List.forall_mem_cons.1 h
    have hslash : ∀ c ∈ s, (c == '/') = false := by
      intro c hc
      rw [beq_eq_false_iff_ne]
      rintro rfl
      exact hs hc
    rw [List.flatMap_cons, List.cons_append, Text.splitAt,
      Text.splitAt_append hslash (ih hsegments)]
    simp

theorem HasSegments.parts_eq {template : String} {segments : List (List Char)}
    (h : HasSegments template segments) : parts template = segments.map Part.ofChars := by
  rw [parts, h.text, splitAt_segments segments h.slashless]
  rfl

/-! ## Parts -/

theorem ofChars_eq (segment : List Char) : Part.ofChars segment =
    if segment.length > 2 ∧ segment.head? = some '\x7b' ∧ segment.getLast? = some '\x7d' ∧
        ((segment.drop 1).dropLast.all fun c => c != '\x7b' && c != '\x7d') then
      .variable_ (String.ofList (segment.drop 1).dropLast)
    else .literal (String.ofList segment) := rfl

theorem IsVariable.ofChars {segment : List Char} {name : String}
    (h : IsVariable segment name.toList) : Part.ofChars segment = .variable_ name := by
  have hname : ∀ c ∈ name.toList, ¬c = '\x7b' ∧ ¬c = '\x7d' := fun c hc =>
    ⟨fun he => h.notOpened (he ▸ hc), fun he => h.notClosed (he ▸ hc)⟩
  have hlength : 0 < name.toList.length := List.length_pos_iff.2 h.named
  have hinner : (segment.drop 1).dropLast = name.toList := by
    rw [h.text, List.drop_one, List.tail_cons, List.dropLast_concat]
  rw [ofChars_eq, hinner, if_pos, String.ofList_toList]
  refine ⟨?_, ?_, ?_, ?_⟩
  · rw [h.text, List.length_cons, List.length_append]
    simp only [List.length_cons, List.length_nil]
    omega
  · rw [h.text, List.head?_cons]
  · rw [h.text, ← List.cons_append, List.getLast?_concat]
  · simpa using hname

theorem isVariable_of_ofChars {segment : List Char} {name : String}
    (h : Part.ofChars segment = .variable_ name) : IsVariable segment name.toList := by
  rw [ofChars_eq] at h
  split at h
  case isFalse => cases h
  case isTrue hc =>
    obtain ⟨hlength, hhead, hlast, hname⟩ := hc
    have hlist : name.toList = (segment.drop 1).dropLast := by
      rw [← Part.variable_.inj h, String.toList_ofList]
    rw [hlist]
    cases segment with
    | nil => cases hhead
    | cons c rest =>
      obtain rfl : c = '\x7b' := Option.some.inj hhead
      rw [List.drop_one, List.tail_cons] at hname ⊢
      have hrest : rest ≠ [] := by
        rintro rfl
        simp at hlength
      rw [List.getLast?_cons, List.getLast?_eq_some_getLast hrest] at hlast
      have hlast : rest.getLast hrest = '\x7d' := Option.some.inj hlast
      refine ⟨?_, ?_, ?_, ?_⟩
      · rw [← hlast, List.dropLast_append_getLast]
      · intro hnil
        have := congrArg List.length hnil
        simp at this hlength
        omega
      · intro hmem
        simpa using List.all_eq_true.1 hname _ hmem
      · intro hmem
        simpa using List.all_eq_true.1 hname _ hmem

theorem ofChars_eq_variable_iff {segment : List Char} {name : String} :
    Part.ofChars segment = .variable_ name ↔ IsVariable segment name.toList :=
  ⟨isVariable_of_ofChars, IsVariable.ofChars⟩

theorem ofChars_eq_literal_iff {segment : List Char} {text : String} :
    Part.ofChars segment = .literal text ↔
      (∀ name, ¬IsVariable segment name) ∧ text.toList = segment := by
  constructor
  · intro h
    refine ⟨fun name hname => ?_, ?_⟩
    · rw [← @String.toList_ofList name] at hname
      rw [hname.ofChars] at h
      cases h
    · rw [ofChars_eq] at h
      split at h
      · cases h
      · rw [← Part.literal.inj h, String.toList_ofList]
  · rintro ⟨hnone, rfl⟩
    cases h : Part.ofChars text.toList with
    | variable_ name => exact absurd (isVariable_of_ofChars h) (hnone _)
    | literal t =>
      rw [ofChars_eq] at h
      split at h
      · cases h
      · rw [← Part.literal.inj h, String.ofList_toList]

/-- The part accepts a text. -/
def Part.Accepts (types : Types) : Part → String → Prop
  | .variable_ name, text => literalFits text (types.lookup name) = true
  | .literal only, text => text = only

theorem accepts_iff {types : Types} {segment : List Char} {text : String} :
    Accepts types segment text ↔ (Part.ofChars segment).Accepts types text := by
  constructor
  · intro h
    cases h with
    | variable_ h fits => rwa [h.ofChars]
    | literal h same =>
      rw [ofChars_eq_literal_iff.2 ⟨h, same⟩]
      rfl
  · intro h
    cases hpart : Part.ofChars segment with
    | variable_ name =>
      rw [hpart] at h
      exact .variable_ (ofChars_eq_variable_iff.1 hpart) h
    | literal only =>
      rw [hpart] at h
      obtain ⟨hnone, hsame⟩ := ofChars_eq_literal_iff.1 hpart
      obtain rfl : text = only := h
      exact .literal hnone hsame

section Segments

variable {template : String} {segments : List (List Char)} (h : HasSegments template segments)
include h

theorem HasSegments.unique {others : List (List Char)} (h' : HasSegments template others) :
    others = segments := by
  have htext : Text.splitAt (· == '/') template.toList = [] :: segments := by
    rw [h.text, splitAt_segments segments h.slashless]
  rw [h'.text, splitAt_segments others h'.slashless] at htext
  exact (List.cons.inj htext).2

theorem HasSegments.matches_iff {types : Types} {url : List String} :
    Matches types template url ↔ List.Forall₂ (Part.Accepts types) (parts template) url := by
  rw [h.parts_eq, List.forall₂_map_left_iff]
  simp only [← accepts_iff]
  constructor
  · rintro ⟨others, hothers, hall⟩
    rwa [h.unique hothers] at hall
  · exact fun hall => ⟨segments, h, hall⟩

theorem HasSegments.variableAt_iff {i : Nat} {name : String} :
    VariableAt template i name ↔ (parts template)[i]? = some (.variable_ name) := by
  rw [h.parts_eq, List.getElem?_map, Option.map_eq_some_iff]
  simp only [ofChars_eq_variable_iff]
  constructor
  · rintro ⟨others, hothers, hmem⟩
    rwa [h.unique hothers] at hmem
  · exact fun hmem => ⟨segments, h, hmem⟩

theorem HasSegments.literalAt_iff {i : Nat} :
    LiteralAt template i ↔ ∃ text, (parts template)[i]? = some (.literal text) := by
  simp only [h.parts_eq, List.getElem?_map, Option.map_eq_some_iff, ofChars_eq_literal_iff]
  constructor
  · rintro ⟨others, hothers, s, hs, hnone⟩
    rw [h.unique hothers] at hs
    exact ⟨String.ofList s, s, hs, hnone, String.toList_ofList⟩
  · rintro ⟨text, s, hs, hnone, -⟩
    exact ⟨segments, h, s, hs, hnone⟩

end Segments

/-! ## Comparing parts -/

/-- A literal holds no slash. -/
def Part.Slashless (p : Part) : Prop := ∀ text, p = .literal text → '/' ∉ text.toList

theorem HasSegments.slashless_parts {template : String} {segments : List (List Char)}
    (h : HasSegments template segments) : ∀ p ∈ parts template, p.Slashless := by
  intro p hp text htext
  rw [h.parts_eq] at hp
  obtain ⟨s, hs, rfl⟩ := List.mem_map.1 hp
  rw [(ofChars_eq_literal_iff.1 htext).2]
  exact h.slashless s hs

theorem literalFits_one {s : Option String} (h : s ≠ some "boolean") :
    literalFits "1" s = true := by
  unfold literalFits
  split
  · decide
  · decide
  · exact absurd rfl h
  · rfl

/-- Types that are compatible have a text in common: `1`, or `true` if one of them is `boolean`. -/
theorem exists_fits {s t : Option String} (h : declaredCompatible s t = true) :
    ∃ text : String, '/' ∉ text.toList ∧ literalFits text s = true ∧ literalFits text t = true := by
  by_cases hboolean : s = some "boolean" ∨ t = some "boolean"
  · refine ⟨"true", by decide, ?_⟩
    have hst : (s = none ∨ s = some "boolean") ∧ (t = none ∨ t = some "boolean") := by
      cases s with
      | none => exact ⟨.inl rfl, .inr (hboolean.resolve_left nofun)⟩
      | some s =>
        cases t with
        | none => exact ⟨.inr (hboolean.resolve_right nofun), .inl rfl⟩
        | some t =>
          simp only [Option.some.injEq, reduceCtorEq, false_or] at hboolean ⊢
          simp only [declaredCompatible, compatible, isNumeric, Bool.or_eq_true, beq_iff_eq,
            Bool.and_eq_true] at h
          rcases hboolean with rfl | rfl <;> simp_all
    obtain ⟨rfl | rfl, rfl | rfl⟩ := hst <;> decide
  · obtain ⟨hs, ht⟩ := not_or.1 hboolean
    exact ⟨"1", by decide, literalFits_one hs, literalFits_one ht⟩

section Comparing

variable {aTypes bTypes : Types}

/-- Parts that compare accept a text in common. -/
theorem exists_text {a b : Part} (h : (comparePart a aTypes b bTypes).isSome) (ha : a.Slashless)
    (hb : b.Slashless) :
    ∃ text : String, '/' ∉ text.toList ∧ a.Accepts aTypes text ∧ b.Accepts bTypes text := by
  cases a with
  | literal x =>
    cases b with
    | literal y =>
      have hxy : x = y := by simpa [comparePart] using h
      exact ⟨x, ha x rfl, rfl, hxy⟩
    | variable_ y =>
      have hfits : literalFits x (bTypes.lookup y) = true := by simpa [comparePart] using h
      exact ⟨x, ha x rfl, rfl, hfits⟩
  | variable_ x =>
    cases b with
    | literal y =>
      have hfits : literalFits y (aTypes.lookup x) = true := by simpa [comparePart] using h
      exact ⟨y, hb y rfl, hfits, rfl⟩
    | variable_ y =>
      have hagree : declaredCompatible (aTypes.lookup x) (bTypes.lookup y) = true := by
        simpa [comparePart] using h
      exact exists_fits hagree

/-- Parts that accept a text in common compare, unless they are variables whose types are not
compatible. -/
theorem comparePart_isSome {a b : Part} {text : String} (ha : a.Accepts aTypes text)
    (hb : b.Accepts bTypes text) (hagree : ∀ x y, a = .variable_ x → b = .variable_ y →
      declaredCompatible (aTypes.lookup x) (bTypes.lookup y) = true) :
    (comparePart a aTypes b bTypes).isSome := by
  cases a with
  | literal x =>
    obtain rfl : text = x := ha
    cases b with
    | literal y =>
      obtain rfl : text = y := hb
      simp [comparePart]
    | variable_ y =>
      have hfits : literalFits text (bTypes.lookup y) = true := hb
      simp [comparePart, hfits]
  | variable_ x =>
    cases b with
    | literal y =>
      obtain rfl : text = y := hb
      have hfits : literalFits text (aTypes.lookup x) = true := ha
      simp [comparePart, hfits]
    | variable_ y => simp [comparePart, hagree x y rfl rfl]

/-- A variable faces a literal. -/
def Part.Faces (p q : Part) : Prop := ∃ x y, p = .variable_ x ∧ q = .literal y

/-- The part of this side is a variable and faces a literal. -/
def Side.Varies (a b : Part) : Side → Prop
  | .first => a.Faces b
  | .second => b.Faces a

/-- The side is noted that holds a variable against a literal. -/
theorem comparePart_eq_side_iff {a b : Part} (h : (comparePart a aTypes b bTypes).isSome)
    (side : Side) : comparePart a aTypes b bTypes = some (some side) ↔ side.Varies a b := by
  cases side <;> cases a <;> cases b <;> simp_all [comparePart, Side.Varies, Part.Faces]

theorem compareParts_isSome_iff {as bs : List Part} :
    (compareParts aTypes bTypes as bs).isSome ↔
      List.Forall₂ (fun a b => (comparePart a aTypes b bTypes).isSome) as bs := by
  induction as generalizing bs with
  | nil => cases bs <;> simp [compareParts]
  | cons a as ih =>
    cases bs with
    | nil => simp [compareParts]
    | cons b bs =>
      rw [List.forall₂_cons, ← ih, compareParts]
      cases comparePart a aTypes b bTypes <;>
        cases compareParts aTypes bTypes as bs <;> simp

theorem isSome_of_getElem? {as bs : List Part} (h : (compareParts aTypes bTypes as bs).isSome)
    {i : Nat} {a b : Part} (ha : as[i]? = some a) (hb : bs[i]? = some b) :
    (comparePart a aTypes b bTypes).isSome := by
  have hmem : (a, b) ∈ as.zip bs := List.mem_of_getElem? (List.getElem?_zip_eq_some.2 ⟨ha, hb⟩)
  exact List.forall₂_zip (compareParts_isSome_iff.1 h) hmem

/-- Parts that compare accept the segments of a URL in common. -/
theorem exists_accepted {as bs : List Part} (h : (compareParts aTypes bTypes as bs).isSome)
    (ha : ∀ p ∈ as, p.Slashless) (hb : ∀ p ∈ bs, p.Slashless) :
    ∃ url, IsUrl url ∧ List.Forall₂ (Part.Accepts aTypes) as url ∧
      List.Forall₂ (Part.Accepts bTypes) bs url := by
  replace h := compareParts_isSome_iff.1 h
  induction h with
  | nil => exact ⟨[], nofun, .nil, .nil⟩
  | cons hcompare _ ih =>
    obtain ⟨hx, hxs⟩ := List.forall_mem_cons.1 ha
    obtain ⟨hy, hys⟩ := List.forall_mem_cons.1 hb
    obtain ⟨text, hslash, htextx, htexty⟩ := exists_text hcompare hx hy
    obtain ⟨url, hurl, hurlx, hurly⟩ := ih hxs hys
    exact ⟨text :: url, List.forall_mem_cons.2 ⟨hslash, hurl⟩, .cons htextx hurlx,
      .cons htexty hurly⟩

/-- Variables that face each other have compatible types, as far as these are declared. -/
def Agree (aTypes bTypes : Types) (as bs : List Part) : Prop :=
  ∀ (i : Nat) (x y : String), as[i]? = some (.variable_ x) → bs[i]? = some (.variable_ y) →
    declaredCompatible (aTypes.lookup x) (bTypes.lookup y) = true

theorem agree_of_isSome {as bs : List Part} (h : (compareParts aTypes bTypes as bs).isSome) :
    Agree aTypes bTypes as bs := by
  intro i x y hx hy
  simpa [comparePart] using isSome_of_getElem? h hx hy

theorem isSome_of_accepts {as bs : List Part} {url : List String}
    (ha : List.Forall₂ (Part.Accepts aTypes) as url)
    (hb : List.Forall₂ (Part.Accepts bTypes) bs url) (hagree : Agree aTypes bTypes as bs) :
    (compareParts aTypes bTypes as bs).isSome := by
  rw [compareParts_isSome_iff]
  induction ha generalizing bs with
  | nil =>
    cases hb
    exact .nil
  | cons hx _ ih =>
    cases hb with
    | cons hy hys =>
      refine .cons (comparePart_isSome hx hy ?_) (ih hys fun i => hagree (i + 1))
      rintro x y rfl rfl
      exact hagree 0 x y rfl rfl

/-- The sides are those noted at the single positions. -/
theorem mem_sides_iff {as bs : List Part} {sides : List Side}
    (h : compareParts aTypes bTypes as bs = some sides) {side : Side} :
    side ∈ sides ↔
      ∃ i : Nat, ∃ a ∈ as[i]?, ∃ b ∈ bs[i]?, comparePart a aTypes b bTypes = some (some side) := by
  induction as generalizing bs sides with
  | nil => cases bs <;> simp_all [compareParts]
  | cons a as ih =>
    cases bs with
    | nil => simp [compareParts] at h
    | cons b bs =>
      rw [compareParts] at h
      obtain ⟨found, hfound, h⟩ := Option.bind_eq_some_iff.1 h
      obtain ⟨others, hothers, h⟩ := Option.bind_eq_some_iff.1 h
      obtain rfl : found.toList ++ others = sides := Option.some.inj h
      rw [List.mem_append, ih hothers, Option.mem_toList]
      constructor
      · rintro (rfl | ⟨i, hi⟩)
        · exact ⟨0, a, rfl, b, rfl, hfound⟩
        · exact ⟨i + 1, hi⟩
      · rintro ⟨i, x, hx, y, hy, hside⟩
        cases i with
        | zero =>
          obtain rfl : a = x := Option.some.inj hx
          obtain rfl : b = y := Option.some.inj hy
          exact .inl (Option.some.inj (hfound.symm.trans hside))
        | succ i => exact .inr ⟨i, x, hx, y, hy, hside⟩

theorem mem_sides_iff_varies {as bs : List Part} {sides : List Side}
    (h : compareParts aTypes bTypes as bs = some sides) {side : Side} :
    side ∈ sides ↔ ∃ i : Nat, ∃ a ∈ as[i]?, ∃ b ∈ bs[i]?, side.Varies a b := by
  have hsome := Option.isSome_of_eq_some h
  rw [mem_sides_iff h]
  constructor
  · rintro ⟨i, a, ha, b, hb, hside⟩
    exact ⟨i, a, ha, b, hb,
      (comparePart_eq_side_iff (isSome_of_getElem? hsome ha hb) side).1 hside⟩
  · rintro ⟨i, a, ha, b, hb, hvaries⟩
    exact ⟨i, a, ha, b, hb,
      (comparePart_eq_side_iff (isSome_of_getElem? hsome ha hb) side).2 hvaries⟩

end Comparing

/-! ## Comparing templates -/

section Templates

variable {a b : String} {aTypes bTypes : Types} {as bs : List (List Char)}
  (ha : HasSegments a as) (hb : HasSegments b bs)
include ha hb

theorem agree_iff : Agree aTypes bTypes (parts a) (parts b) ↔ ¬Clashing a aTypes b bTypes := by
  constructor
  · rintro hagree ⟨i, x, y, hx, hy, s, hs, t, ht, hst⟩
    have hcompatible := hagree i x y (ha.variableAt_iff.1 hx) (hb.variableAt_iff.1 hy)
    rw [hs, ht, declaredCompatible, hst] at hcompatible
    cases hcompatible
  · intro hclash i x y hx hy
    cases hs : aTypes.lookup x with
    | none => rfl
    | some s =>
      cases ht : bTypes.lookup y with
      | none => rfl
      | some t =>
        refine Bool.of_not_eq_false fun hst => hclash ?_
        exact ⟨i, x, y, ha.variableAt_iff.2 hx, hb.variableAt_iff.2 hy, s, hs, t, ht, hst⟩

theorem covers_iff :
    Covers a b ↔ ∃ i : Nat, ∃ p ∈ (parts a)[i]?, ∃ q ∈ (parts b)[i]?, p.Faces q := by
  simp only [Covers, ha.variableAt_iff, hb.literalAt_iff]
  constructor
  · rintro ⟨i, ⟨x, hx⟩, y, hy⟩
    exact ⟨i, _, hx, _, hy, x, y, rfl, rfl⟩
  · rintro ⟨i, p, hp, q, hq, x, y, rfl, rfl⟩
    exact ⟨i, ⟨x, hp⟩, y, hq⟩

/-- Templates that compare are ambiguous unless they are opposed. -/
theorem ambiguous_iff_not_opposed (h : (compareParts aTypes bTypes (parts a) (parts b)).isSome) :
    ambiguous a aTypes b bTypes = true ↔ ¬Opposed a b := by
  obtain ⟨sides, hsides⟩ := Option.isSome_iff_exists.1 h
  have hfirst : Side.first ∈ sides ↔ Covers a b :=
    (mem_sides_iff_varies hsides).trans (covers_iff ha hb).symm
  have hsecond : Side.second ∈ sides ↔ Covers b a := by
    rw [mem_sides_iff_varies hsides, covers_iff hb ha]
    constructor
    · rintro ⟨i, p, hp, q, hq, hfaces⟩
      exact ⟨i, q, hq, p, hp, hfaces⟩
    · rintro ⟨i, q, hq, p, hp, hfaces⟩
      exact ⟨i, p, hp, q, hq, hfaces⟩
  rw [Opposed, ← hfirst, ← hsecond, ambiguous, hsides]
  show (!(sides.contains .first && sides.contains .second)) = true ↔ _
  rw [← List.contains_iff_mem, ← List.contains_iff_mem, ← Bool.and_eq_true, Bool.not_eq_true',
    Bool.not_eq_true]

end Templates

/-- **Ambiguous templates have a URL in common**, and templates with a URL in common are ambiguous
unless variables of incompatible types face each other or each template has a variable where the
other one has a literal. The segments of the URL can be had without slashes. -/
theorem ambiguous_iff {a b : String} (ha : a.toList.head? = some '/')
    (hb : b.toList.head? = some '/') (aTypes bTypes : Types) :
    (ambiguous a aTypes b bTypes = true ↔
      (∃ url, Matches aTypes a url ∧ Matches bTypes b url) ∧
        ¬Clashing a aTypes b bTypes ∧ ¬Opposed a b) ∧
      (ambiguous a aTypes b bTypes = true →
        ∃ url, IsUrl url ∧ Matches aTypes a url ∧ Matches bTypes b url) := by
  obtain ⟨as, ha⟩ := exists_hasSegments ha
  obtain ⟨bs, hb⟩ := exists_hasSegments hb
  simp only [ha.matches_iff, hb.matches_iff]
  have hcompared : ambiguous a aTypes b bTypes = true →
      (compareParts aTypes bTypes (parts a) (parts b)).isSome := by
    intro h
    unfold ambiguous at h
    split at h
    · simp [*]
    · cases h
  have hurl : ambiguous a aTypes b bTypes = true → ∃ url, IsUrl url ∧
      List.Forall₂ (Part.Accepts aTypes) (parts a) url ∧
      List.Forall₂ (Part.Accepts bTypes) (parts b) url :=
    fun h => exists_accepted (hcompared h) ha.slashless_parts hb.slashless_parts
  refine ⟨⟨fun h => ?_, ?_⟩, hurl⟩
  · obtain ⟨url, -, hurla, hurlb⟩ := hurl h
    exact ⟨⟨url, hurla, hurlb⟩, (agree_iff ha hb).1 (agree_of_isSome (hcompared h)),
      (ambiguous_iff_not_opposed ha hb (hcompared h)).1 h⟩
  · rintro ⟨⟨url, hurla, hurlb⟩, hclash, hopposed⟩
    have hsome := isSome_of_accepts hurla hurlb ((agree_iff ha hb).2 hclash)
    exact (ambiguous_iff_not_opposed ha hb hsome).2 hopposed

/-- An integer is a number as well. -/
theorem ambiguous_iff_numeric :
    ambiguous "/pets/\x7bid\x7d" [("id", "integer")] "/pets/\x7bkey\x7d"
        [("key", "number")] = true ∧
      (∃ url, IsUrl url ∧ Matches [("id", "integer")] "/pets/\x7bid\x7d" url ∧
        Matches [("key", "number")] "/pets/\x7bkey\x7d" url) ∧
      ¬Opposed "/pets/\x7bid\x7d" "/pets/\x7bkey\x7d" := by
  have h : ambiguous "/pets/\x7bid\x7d" [("id", "integer")] "/pets/\x7bkey\x7d"
    [("key", "number")] = true := by decide
  obtain ⟨-, -, hopposed⟩ := (ambiguous_iff (by decide) (by decide) _ _).1.1 h
  exact ⟨h, (ambiguous_iff (by decide) (by decide) _ _).2 h, hopposed⟩

/-! ## Without declared types -/

theorem agree_nil (as bs : List Part) : Agree [] [] as bs := fun _ _ _ _ _ => rfl

/-- **Templates without declared types** that have a URL in common are ambiguous unless each of
them has a variable where the other one has a literal. -/
theorem ambiguous_untyped_iff {a b : String} (ha : a.toList.head? = some '/')
    (hb : b.toList.head? = some '/') {url : List String} (hurla : Matches [] a url)
    (hurlb : Matches [] b url) : ambiguous a [] b [] = true ↔ ¬Opposed a b := by
  obtain ⟨as, ha⟩ := exists_hasSegments ha
  obtain ⟨bs, hb⟩ := exists_hasSegments hb
  rw [ha.matches_iff] at hurla
  rw [hb.matches_iff] at hurlb
  exact ambiguous_iff_not_opposed ha hb (isSome_of_accepts hurla hurlb (agree_nil _ _))

/-- The URL `/a/b` matches two templates that each have a variable where the other one has a
literal. -/
theorem matches_crossed :
    Matches [] "/a/\x7bx\x7d" ["a", "b"] ∧ Matches [] "/\x7by\x7d/b" ["a", "b"] := by
  obtain ⟨as, ha⟩ : ∃ as, HasSegments "/a/\x7bx\x7d" as := exists_hasSegments (by decide)
  obtain ⟨bs, hb⟩ : ∃ bs, HasSegments "/\x7by\x7d/b" bs := exists_hasSegments (by decide)
  have hpartsa : parts "/a/\x7bx\x7d" = [.literal "a", .variable_ "x"] := by decide
  have hpartsb : parts "/\x7by\x7d/b" = [.variable_ "y", .literal "b"] := by decide
  rw [ha.matches_iff, hb.matches_iff, hpartsa, hpartsb]
  exact ⟨.cons rfl (.cons rfl .nil), .cons rfl (.cons rfl .nil)⟩

theorem ambiguous_untyped_iff_crossed :
    ambiguous "/a/\x7bx\x7d" [] "/\x7by\x7d/b" [] = false ∧
      Opposed "/a/\x7bx\x7d" "/\x7by\x7d/b" := by
  obtain ⟨hurla, hurlb⟩ := matches_crossed
  have hnot : ambiguous "/a/\x7bx\x7d" [] "/\x7by\x7d/b" [] = false := by decide
  have h := ambiguous_untyped_iff (by decide) (by decide) hurla hurlb
  exact ⟨hnot, not_not.1 fun hopposed => Bool.false_ne_true (hnot.symm.trans (h.2 hopposed))⟩

/-- Some templates without declared types have a URL in common and do not count as ambiguous. -/
theorem exists_common_url_not_ambiguous : ∃ (a b : String) (url : List String),
    a.toList.head? = some '/' ∧ b.toList.head? = some '/' ∧ IsUrl url ∧ Matches [] a url ∧
      Matches [] b url ∧ ambiguous a [] b [] = false := by
  obtain ⟨hurla, hurlb⟩ := matches_crossed
  exact ⟨_, _, _, by decide, by decide, by simp [IsUrl], hurla, hurlb, by decide⟩

end ApiLint.Route
