import ApiLint.Document.Locate
import ApiLint.Proofs.ByteOrder
import ApiLint.Proofs.Chains
import Mathlib.Data.Set.Card

/-!
# The paths that are found

`Document.locate` searches for the paths of all locations that chains of references lead to, and
looks no further where a path is already known. That loses nothing, because no location is reached
by two different chains: what one step leads to, no other step does (`branch_disjoint`). So the
search is exact up to its limit (`mem_alternatePaths_iff`).
-/

set_option autoImplicit false

namespace ApiLint

/-! ## Ascending lists -/

theorem mem_insertAscending {s t : String} {xs : List String} :
    t ∈ insertAscending s xs ↔ t = s ∨ t ∈ xs := by
  induction xs with
  | nil => simp [insertAscending]
  | cons x xs ih =>
    unfold insertAscending
    split
    · rename_i hsx
      subst hsx
      simp
    · split
      · simp
      · rw [List.mem_cons, ih, List.mem_cons]
        tauto

theorem pairwise_insertAscending {s : String} {xs : List String} (h : xs.Pairwise (· < ·)) :
    (insertAscending s xs).Pairwise (· < ·) := by
  induction xs with
  | nil => exact List.pairwise_singleton _ _
  | cons x xs ih =>
    obtain ⟨hx, hxs⟩ := List.pairwise_cons.1 h
    unfold insertAscending
    split
    · exact h
    · rename_i hne
      split
      · rename_i hlt
        refine List.pairwise_cons.2 ⟨fun t ht => ?_, h⟩
        rcases List.mem_cons.1 ht with rfl | ht
        · exact hlt
        · exact lt_trans hlt (hx t ht)
      · rename_i hge
        refine List.pairwise_cons.2 ⟨fun t ht => ?_, ih hxs⟩
        rcases mem_insertAscending.1 ht with rfl | ht
        · exact lt_of_le_of_ne (not_lt.1 hge) (Ne.symm hne)
        · exact hx t ht

theorem length_insertAscending_le (s : String) (xs : List String) :
    (insertAscending s xs).length ≤ xs.length + 1 := by
  induction xs with
  | nil => simp [insertAscending]
  | cons x xs ih =>
    unfold insertAscending
    split
    · exact Nat.le_succ _
    · split
      · simp
      · simpa using ih

theorem length_lt_of_encard {xs : List String} {s : Set String} {n : Nat}
    (h : xs.Pairwise (· < ·)) (hs : {x | x ∈ xs} ⊆ s) (hn : s.encard < n) : xs.length < n := by
  have hcard : {x | x ∈ xs}.encard = xs.length := by
    rw [← List.coe_toFinset, Set.encard_coe_eq_coe_finsetCard,
      List.toFinset_card_of_nodup (h.imp fun hlt => ne_of_lt hlt)]
  have hlt := lt_of_le_of_lt (Set.encard_le_encard hs) hn
  rw [hcard] at hlt
  exact_mod_cast hlt

namespace Document

variable (d : Document)

/-! ## The steps in the order in which they are tried -/

/-- All steps from a location. -/
def steps (l : Location) : List (Target × Reference × Location) :=
  l.ancestors.flatMap fun base =>
    match d.objectAt? base with
    | none => []
    | some t => (d.references.referrers t).filterMap fun r =>
        if r.origin.location.isWithin base then none
        else (l.rebased? base r.origin.location).map (t, r, ·)

/-- What is collected by one step and all that follow it. -/
def tried (hops : Nat) (met : List Target) (out : List String) :
    Target × Reference × Location → List String
  | (t, _, m) =>
    if met.contains t || decide (out.length ≥ maxAlternates) || out.contains m.path then out
    else d.alternatePaths hops m (t :: met) (insertAscending m.path out)

variable {d}

theorem mem_ancestors {l base : Location} :
    base ∈ l.ancestors ↔ base.segments <+: l.segments := by
  unfold Location.ancestors
  rw [List.mem_map, List.prefix_iff_eq_take]
  constructor
  · rintro ⟨n, -, rfl⟩
    simp
  · intro h
    refine ⟨base.segments.length, ?_, ?_⟩
    · have hle := congrArg List.length h
      simp only [List.length_take] at hle
      simp only [List.mem_reverse, List.mem_range]
      omega
    · rw [← h]

theorem mem_steps {l m : Location} {t : Target} {r : Reference} :
    (t, r, m) ∈ d.steps l ↔ d.Step l r m ∧ r.target = some t := by
  have hreferrer : r ∈ d.references.referrers t ↔ r ∈ d.references.all ∧ r.target = some t := by
    simp [References.referrers]
  unfold steps
  rw [List.mem_flatMap]
  constructor
  · rintro ⟨base, -, hs⟩
    cases hat : d.objectAt? base with
    | none => simp [hat] at hs
    | some u =>
      simp only [hat, List.mem_filterMap] at hs
      obtain ⟨s, hs, he⟩ := hs
      split at he
      · cases he
      · rename_i hout
        obtain ⟨m', hm, he⟩ := Option.map_eq_some_iff.1 he
        cases he
        obtain ⟨hr, ht⟩ := hreferrer.1 hs
        exact ⟨⟨base, t, hat, hr, ht, by simpa using hout, hm⟩, ht⟩
  · rintro ⟨⟨base, u, hat, hr, hu, hout, hm⟩, ht⟩
    obtain rfl : t = u := Option.some.inj (ht.symm.trans hu)
    obtain ⟨rest, hl, -⟩ := Location.rebased?_eq_some.1 hm
    refine ⟨base, mem_ancestors.2 ⟨rest, hl.symm⟩, ?_⟩
    simp only [hat, List.mem_filterMap]
    exact ⟨r, hreferrer.2 ⟨hr, ht⟩, by simp [hout, hm]⟩

/-- The search tries one step after the other. -/
theorem alternatePaths_succ (hops : Nat) (l : Location) (met : List Target) (out : List String) :
    d.alternatePaths (hops + 1) l met out = (d.steps l).foldl (d.tried hops met) out := by
  rw [alternatePaths, steps, List.foldl_flatMap]
  congr 1
  funext out base
  cases d.objectAt? base with
  | none => rfl
  | some t =>
    dsimp only
    rw [List.foldl_filterMap]
    by_cases hmet : t ∈ met
    · rw [if_pos (List.contains_iff_mem.2 hmet)]
      refine (Eq.trans ?_ (List.foldl_fixed (d.references.referrers t))).symm
      congr 1
      funext out r
      split
      · rename_i hs
        split at hs
        · cases hs
        · obtain ⟨m, -, rfl⟩ := Option.map_eq_some_iff.1 hs
          simp [tried, hmet]
      · rfl
    · rw [if_neg (by simpa using hmet)]
      congr 1
      funext out r
      cases r.origin.location.isWithin base with
      | true => simp
      | false =>
        cases l.rebased? base r.origin.location with
        | none => simp
        | some m =>
          by_cases hlen : out.length ≥ maxAlternates
          · simp [tried, hlen]
          · simp [tried, hmet, hlen]

/-! ## What the search collects -/

/-- The paths by way of at most `hops` references to different objects, and to none of `met`. -/
def Alternates (d : Document) (hops : Nat) (met : List Target) (l : Location) : Set String :=
  {path | ∃ rs m, d.Chain l rs m ∧ rs ≠ [] ∧ rs.length ≤ hops ∧ (rs.map (·.target)).Nodup ∧
    (∀ r ∈ rs, ∀ t ∈ met, r.target ≠ some t) ∧ m.path = path}

theorem not_mem_alternates_zero {met : List Target} {l : Location} {path : String} :
    path ∉ d.Alternates 0 met l := by
  rintro ⟨rs, m, -, hne, hlen, -⟩
  exact hne (List.length_eq_zero_iff.1 (Nat.le_zero.1 hlen))

/-- The paths by way of one step, and of the steps that follow it. -/
def Branch (d : Document) (hops : Nat) (met : List Target) :
    Target × Reference × Location → Set String
  | (t, _, m) => {path | m.path = path ∨ path ∈ d.Alternates hops (t :: met) m}

theorem mem_alternates_succ {hops : Nat} {met : List Target} {l : Location} {path : String} :
    path ∈ d.Alternates (hops + 1) met l ↔
      ∃ s ∈ d.steps l, s.1 ∉ met ∧ path ∈ d.Branch hops met s := by
  constructor
  · rintro ⟨rs, k, hchain, hne, hlen, hnodup, hmet, hpath⟩
    cases hchain with
    | nil => exact absurd rfl hne
    | @cons _ m _ r rs hstep hchain =>
      obtain ⟨base, t, hat, hr, ht, hout, hm⟩ := hstep
      refine ⟨(t, r, m), mem_steps.2 ⟨⟨base, t, hat, hr, ht, hout, hm⟩, ht⟩, fun hin => ?_, ?_⟩
      · exact hmet r List.mem_cons_self t hin ht
      · by_cases hrs : rs = []
        · subst hrs
          cases hchain
          exact .inl hpath
        · rw [List.map_cons, List.nodup_cons] at hnodup
          refine .inr ⟨rs, k, hchain, hrs, by simpa using hlen, hnodup.2, fun s hs u hu hsu => ?_,
            hpath⟩
          rcases List.mem_cons.1 hu with rfl | hu
          · exact hnodup.1 (ht ▸ hsu ▸ List.mem_map_of_mem hs)
          · exact hmet s (.tail _ hs) u hu hsu
  · rintro ⟨⟨t, r, m⟩, hs, htmet, hpath⟩
    obtain ⟨hstep, ht⟩ := mem_steps.1 hs
    have hfirst : ∀ u ∈ met, r.target ≠ some u := fun u hu he =>
      htmet (Option.some.inj (ht.symm.trans he) ▸ hu)
    rcases hpath with hpath | ⟨rs, k, hchain, -, hlen, hnodup, hmet, hpath⟩
    · exact ⟨[r], m, .cons hstep .nil, by simp, by simp, by simp, by simpa using hfirst, hpath⟩
    · refine ⟨r :: rs, k, .cons hstep hchain, by simp, by simpa using hlen, ?_, ?_, hpath⟩
      · rw [List.map_cons, List.nodup_cons]
        refine ⟨fun hin => ?_, hnodup⟩
        obtain ⟨s, hs, hsr⟩ := List.mem_map.1 hin
        exact hmet s hs t List.mem_cons_self (hsr.trans ht)
      · intro s hs u hu
        rcases List.mem_cons.1 hs with rfl | hs
        · exact hfirst u hu
        · exact hmet s hs u (.tail _ hu)

/-- The search keeps its list ascending and within its limit, and adds paths to it that there are. -/
theorem alternatePaths_sound (hops : Nat) (l : Location) (met : List Target) (out : List String)
    (hs : out.Pairwise (· < ·)) (hlen : out.length ≤ maxAlternates) :
    (d.alternatePaths hops l met out).Pairwise (· < ·) ∧
      (d.alternatePaths hops l met out).length ≤ maxAlternates ∧
      ∀ path ∈ d.alternatePaths hops l met out, path ∈ out ∨ path ∈ d.Alternates hops met l := by
  induction hops generalizing l met out with
  | zero =>
    rw [alternatePaths]
    exact ⟨hs, hlen, fun path hp => .inl hp⟩
  | succ hops ih =>
    rw [alternatePaths_succ]
    refine List.foldlRecOn (motive := fun out' => out'.Pairwise (· < ·) ∧
      out'.length ≤ maxAlternates ∧
        ∀ path ∈ out', path ∈ out ∨ path ∈ d.Alternates (hops + 1) met l) _ _
      ⟨hs, hlen, fun path hp => .inl hp⟩ fun out' hout' s hmem => ?_
    obtain ⟨t, r, m⟩ := s
    obtain ⟨hs', hlen', hsub'⟩ := hout'
    simp only [tried]
    split
    · exact ⟨hs', hlen', hsub'⟩
    · rename_i hskip
      simp only [Bool.or_eq_true, List.contains_iff_mem, decide_eq_true_eq, not_or, Nat.not_le]
        at hskip
      obtain ⟨⟨htmet, hroom⟩, -⟩ := hskip
      have hlen'' := length_insertAscending_le m.path out'
      obtain ⟨h₁, h₂, h₃⟩ := ih m (t :: met) (insertAscending m.path out')
        (pairwise_insertAscending hs') (by omega)
      refine ⟨h₁, h₂, fun path hp => ?_⟩
      rcases h₃ path hp with hp | hp
      · rcases mem_insertAscending.1 hp with rfl | hp
        · exact .inr (mem_alternates_succ.2 ⟨_, hmem, htmet, .inl rfl⟩)
        · exact hsub' path hp
      · exact .inr (mem_alternates_succ.2 ⟨_, hmem, htmet, .inr hp⟩)

section
variable (hd : d.Separated)
include hd

/-- What a branch leads to, a chain leads to that starts with its step. -/
theorem chain_of_mem_branch {hops : Nat} {met : List Target} {l m : Location} {t : Target}
    {r : Reference} {path : String} (hl : l.isPlain = true) (hs : (t, r, m) ∈ d.steps l)
    (hp : path ∈ d.Branch hops met (t, r, m)) :
    ∃ rs k, d.Chain l (r :: rs) k ∧ k.isPlain = true ∧ k.path = path := by
  have hstep := (mem_steps.1 hs).1
  rcases hp with hp | ⟨rs, k, hchain, -, -, -, -, hp⟩
  · exact ⟨[], m, .cons hstep .nil, hstep.isPlain hd hl, hp⟩
  · exact ⟨rs, k, .cons hstep hchain, hchain.isPlain hd (hstep.isPlain hd hl), hp⟩

/-- Different branches have no path in common. -/
theorem branch_disjoint {hops : Nat} {met : List Target} {l : Location}
    {s s' : Target × Reference × Location} {path : String} (hl : l.isPlain = true)
    (hs : s ∈ d.steps l) (hs' : s' ∈ d.steps l) (hp : path ∈ d.Branch hops met s)
    (hp' : path ∈ d.Branch hops met s') : s = s' := by
  obtain ⟨t, r, m⟩ := s
  obtain ⟨t', r', m'⟩ := s'
  obtain ⟨rs, k, hchain, hk, hpath⟩ := chain_of_mem_branch hd hl hs hp
  obtain ⟨rs', k', hchain', hk', hpath'⟩ := chain_of_mem_branch hd hl hs' hp'
  obtain rfl : k = k' := Location.path_inj hk hk' (hpath.trans hpath'.symm)
  obtain ⟨rfl, -⟩ := List.cons.inj (hchain.unique hd hchain')
  obtain ⟨hstep, ht⟩ := mem_steps.1 hs
  obtain ⟨hstep', ht'⟩ := mem_steps.1 hs'
  rw [hstep.unique hd hstep', Option.some.inj (ht.symm.trans ht')]

/-- A branch does not come back to where it starts. -/
theorem path_not_mem_alternates {hops : Nat} {met : List Target} {m : Location}
    (hm : m.isPlain = true) : m.path ∉ d.Alternates hops met m := by
  rintro ⟨rs, k, hchain, hne, -, -, -, hpath⟩
  obtain rfl : k = m := Location.path_inj (hchain.isPlain hd hm) hm hpath
  exact hne (Chain.nil.unique hd hchain).symm

/-- One step adds its branch, if none of that is known yet. -/
theorem mem_tried_iff {hops : Nat} {met : List Target} {l : Location} {out : List String}
    {s : Target × Reference × Location} (hl : l.isPlain = true) (hmem : s ∈ d.steps l)
    (hs : out.Pairwise (· < ·))
    (hbranch : s.1 ∉ met → (∀ path ∈ d.Branch hops met s, path ∈ out) ∨
      ∀ path ∈ d.Branch hops met s, path ∉ out)
    (hroom : s.1 ∉ met → ({path | path ∈ out} ∪ d.Branch hops met s).encard < maxAlternates)
    (hsearch : ∀ m met' out', m.isPlain = true → out'.Pairwise (· < ·) →
      (∀ path ∈ out', path ∉ d.Alternates hops met' m) →
      ({path | path ∈ out'} ∪ d.Alternates hops met' m).encard < maxAlternates →
        ∀ path, path ∈ d.alternatePaths hops m met' out' ↔
          path ∈ out' ∨ path ∈ d.Alternates hops met' m) :
    (d.tried hops met out s).Pairwise (· < ·) ∧
      ∀ path, path ∈ d.tried hops met out s ↔
        path ∈ out ∨ s.1 ∉ met ∧ path ∈ d.Branch hops met s := by
  obtain ⟨t, r, m⟩ := s
  by_cases htmet : t ∈ met
  · have htried : d.tried hops met out (t, r, m) = out := by simp [tried, htmet]
    rw [htried]
    exact ⟨hs, fun path => ⟨.inl, fun hp => hp.elim id fun hp => absurd htmet hp.1⟩⟩
  have hfirst : m.path ∈ d.Branch hops met (t, r, m) := .inl rfl
  have hlen : out.length < maxAlternates :=
    length_lt_of_encard hs Set.subset_union_left (hroom htmet)
  by_cases hknown : m.path ∈ out
  · rcases hbranch htmet with hall | hnone
    · have htried : d.tried hops met out (t, r, m) = out := by simp [tried, hknown]
      rw [htried]
      exact ⟨hs, fun path => ⟨.inl, fun hp => hp.elim id fun hp => hall path hp.2⟩⟩
    · exact absurd hknown (hnone _ hfirst)
  have hnone : ∀ path ∈ d.Branch hops met (t, r, m), path ∉ out :=
    (hbranch htmet).resolve_left fun hall => hknown (hall _ hfirst)
  have htried : d.tried hops met out (t, r, m) =
      d.alternatePaths hops m (t :: met) (insertAscending m.path out) := by
    simp [tried, htmet, hknown, hlen]
  have hm : m.isPlain = true := (mem_steps.1 hmem).1.isPlain hd hl
  have hsorted := pairwise_insertAscending (s := m.path) hs
  have hle := length_insertAscending_le m.path out
  have hbranch' : {path | path ∈ insertAscending m.path out} ∪ d.Alternates hops (t :: met) m =
      {path | path ∈ out} ∪ d.Branch hops met (t, r, m) := by
    ext path
    simp only [Set.mem_union, Set.mem_ofPred_eq, mem_insertAscending, Branch]
    tauto
  rw [htried]
  refine ⟨(alternatePaths_sound hops m (t :: met) _ hsorted (by omega)).1, fun path => ?_⟩
  rw [hsearch m (t :: met) _ hm hsorted ?_ (hbranch' ▸ hroom htmet)]
  · have hpath := Set.ext_iff.1 hbranch' path
    simp only [Set.mem_union, Set.mem_ofPred_eq] at hpath
    rw [hpath]
    simp [htmet]
  · intro path hp
    rcases mem_insertAscending.1 hp with rfl | hp
    · exact path_not_mem_alternates hd hm
    · exact fun hin => hnone path (.inr hin) hp

/-- **The search is exact** where its limit is not reached. -/
theorem mem_alternatePaths_iff (hops : Nat) (l : Location) (met : List Target) (out : List String)
    (hl : l.isPlain = true) (hs : out.Pairwise (· < ·))
    (hnew : ∀ path ∈ out, path ∉ d.Alternates hops met l)
    (hroom : ({path | path ∈ out} ∪ d.Alternates hops met l).encard < maxAlternates) :
    ∀ path, path ∈ d.alternatePaths hops l met out ↔
      path ∈ out ∨ path ∈ d.Alternates hops met l := by
  induction hops generalizing l met out with
  | zero =>
    intro path
    simp [alternatePaths, not_mem_alternates_zero]
  | succ hops ih =>
    -- the steps tried so far have added just their branches
    have htried : ∀ ss : List (Target × Reference × Location), (∀ s ∈ ss, s ∈ d.steps l) →
        (ss.foldl (d.tried hops met) out).Pairwise (· < ·) ∧
          ∀ path, path ∈ ss.foldl (d.tried hops met) out ↔
            path ∈ out ∨ ∃ s ∈ ss, s.1 ∉ met ∧ path ∈ d.Branch hops met s := by
      intro ss hss
      induction ss using List.reverseRecOn with
      | nil => exact ⟨hs, fun path => by simp⟩
      | append_singleton ss s ihs =>
        obtain ⟨hsorted, hmem⟩ := ihs fun s' hs' => hss s' (List.mem_append_left _ hs')
        rw [List.foldl_append, List.foldl_cons, List.foldl_nil]
        generalize ss.foldl (d.tried hops met) out = out' at hsorted hmem
        have hstep := hss s (by simp)
        have hbranch : s.1 ∉ met → (∀ path ∈ d.Branch hops met s, path ∈ out') ∨
            ∀ path ∈ d.Branch hops met s, path ∉ out' := by
          intro hmet
          by_cases hagain : s ∈ ss
          · exact .inl fun path hp => (hmem path).2 (.inr ⟨s, hagain, hmet, hp⟩)
          refine .inr fun path hp hout => ?_
          rcases (hmem path).1 hout with hout | ⟨s', hs', -, hp'⟩
          · exact hnew path hout (mem_alternates_succ.2 ⟨s, hstep, hmet, hp⟩)
          · obtain rfl := branch_disjoint hd hl hstep (hss s' (List.mem_append_left _ hs')) hp hp'
            exact hagain hs'
        have hroom' : s.1 ∉ met →
            ({path | path ∈ out'} ∪ d.Branch hops met s).encard < maxAlternates := by
          refine fun hmet => lt_of_le_of_lt (Set.encard_le_encard ?_) hroom
          rintro path (hp | hp)
          · rcases (hmem path).1 hp with hp | ⟨s', hs', hmet', hp⟩
            · exact .inl hp
            · exact .inr (mem_alternates_succ.2
                ⟨s', hss s' (List.mem_append_left _ hs'), hmet', hp⟩)
          · exact .inr (mem_alternates_succ.2 ⟨s, hstep, hmet, hp⟩)
        obtain ⟨hsorted', hmem'⟩ := mem_tried_iff hd hl hstep hsorted hbranch hroom' fun m met' =>
          ih m met'
        refine ⟨hsorted', fun path => ?_⟩
        rw [hmem', hmem]
        simp only [List.mem_append, List.mem_singleton]
        constructor
        · rintro ((hp | ⟨s', hs', hp⟩) | hp)
          · exact .inl hp
          · exact .inr ⟨s', .inl hs', hp⟩
          · exact .inr ⟨s, .inr rfl, hp⟩
        · rintro (hp | ⟨s', hs' | rfl, hp⟩)
          · exact .inl (.inl hp)
          · exact .inl (.inr ⟨s', hs', hp⟩)
          · exact .inr hp
    obtain ⟨-, hmem⟩ := htried (d.steps l) fun s hs => hs
    intro path
    rw [alternatePaths_succ, hmem, mem_alternates_succ]

end

/-! ## What is found -/

/-- The paths by way of chains of references to different objects. -/
def equivalents (d : Document) (l : Location) : Set String :=
  {path | ∃ rs m, d.Chain l rs m ∧ rs ≠ [] ∧ rs.length ≤ Pointers.maxHops ∧
    (rs.map (·.target)).Nodup ∧ m.path = path}

theorem alternates_nil (l : Location) : d.Alternates Pointers.maxHops [] l = d.equivalents l := by
  ext path
  simp [Alternates, equivalents]

/-- **Locating a node.** In a document that repeats no key, the own path of a plain location comes
first; the other paths are in the order of their bytes, without that one, and lead to the location by
chains of references. There are at most `maxAlternates` others, and all if there are fewer. -/
theorem locate_paths (root : Yaml.Node) (d : Document) (h : ofNode root = .ok d)
    (hkeys : root.keysDistinct = true) (l : Location) (hl : l.isPlain = true) :
    ∃ others, (d.locate l).paths = l.path :: others ∧
      others.Pairwise (fun s t => utf8 s < utf8 t) ∧ l.path ∉ others ∧
      (∀ path ∈ others, path ∈ d.equivalents l) ∧
      (d.locate l).paths.length ≤ maxAlternates + 1 ∧
      ((d.equivalents l).encard < maxAlternates →
        ∀ path ∈ d.equivalents l, path ∈ (d.locate l).paths) := by
  obtain ⟨rfl, draft, hd⟩ := loaded_of_ofNode h
  have hsep := hd.separated hkeys
  obtain ⟨hsorted, hlen, hsound⟩ :=
    d.alternatePaths_sound Pointers.maxHops l [] [] .nil (Nat.zero_le _)
  rw [alternates_nil] at hsound
  refine ⟨_, rfl, (hsorted.filter _).imp utf8_lt, by simp, fun path hp => ?_, ?_,
    fun hroom path hp => ?_⟩
  · exact (hsound path (List.mem_filter.1 hp).1).resolve_left List.not_mem_nil
  · have hle := List.length_filter_le (· ≠ l.path) (d.alternatePaths Pointers.maxHops l [] [])
    rw [locate, List.length_cons]
    omega
  · by_cases hown : path = l.path
    · exact hown ▸ List.mem_cons_self
    · have hexact := mem_alternatePaths_iff hsep Pointers.maxHops l [] [] hl .nil (by simp)
        (by rw [alternates_nil]; simpa using hroom) path
      rw [alternates_nil] at hexact
      exact .tail _ (List.mem_filter.2 ⟨hexact.2 (.inr hp), by simpa using hown⟩)

/-- A document with a schema and a reference to it. -/
def aliased : Yaml.Node :=
  .table 1 [("openapi", .word "3.1.0" 1), ("components", .table 3 [("schemas", .table 4 [
    ("Pet", .table 5 []), ("Dog", .pointTo 6 "#/components/schemas/Pet")])])]

theorem locate_paths_aliased : ∃ d, ofNode aliased = .ok d ∧
    let l := (((Location.root.field "components").field "schemas").key "Pet").field "title"
    (d.locate l).paths = [l.path, "$.components.schemas['Dog'].title"] ∧
      "$.components.schemas['Dog'].title" ∈ d.equivalents l := by
  have hrun : ((ofNode aliased).toOption.bind fun d => some (d.locate
      ((((Location.root.field "components").field "schemas").key "Pet").field "title")).paths) =
      some ["$.components.schemas['Pet'].title", "$.components.schemas['Dog'].title"] := by
    decide +kernel
  obtain ⟨d, hd, hpaths⟩ := ofNode_of_toOption hrun
  have hpaths := Option.some.inj hpaths
  obtain ⟨others, hcons, -, -, hsound, -⟩ := locate_paths aliased d hd (by decide +kernel)
    ((((Location.root.field "components").field "schemas").key "Pet").field "title")
    (by decide +kernel)
  obtain ⟨hpath, rfl⟩ := List.cons.inj (hcons.symm.trans hpaths)
  exact ⟨d, hd, by rw [hcons], hsound _ List.mem_cons_self⟩

end Document

end ApiLint
