import ApiLint.Proofs.Separation
import Mathlib.Data.List.Pairwise

/-!
# Chains of references

`Document.Step`: a location is moved to a reference to an object that it lies at or below. The
references of a chain of steps can be read off its end (`Chain.unique`): what stands at a reference
has its own location only, and a chain that went round in a circle would make the location longer
(`Chain.length_le`).
-/

set_option autoImplicit false

namespace ApiLint

namespace Document

variable (d : Document)

/-! ## Chains of references -/

/-- The location `m` is `l` by way of the reference `r`: an object at or above `l` is what `r` refers
to from outside. -/
def Step (l : Location) (r : Reference) (m : Location) : Prop :=
  ∃ base t, d.objectAt? base = some t ∧ r ∈ d.references.all ∧ r.target = some t ∧
    r.origin.location.isWithin base = false ∧ l.rebased? base r.origin.location = some m

/-- The location `m` is `l` by way of the references one after the other. -/
inductive Chain : Location → List Reference → Location → Prop
  | nil {l : Location} : Chain l [] l
  | cons {l m k : Location} {r : Reference} {rs : List Reference} : d.Step l r m →
      Chain m rs k → Chain l (r :: rs) k

variable {d : Document} {l m k : Location} {r : Reference} {rs : List Reference}

theorem step_iff : d.Step l r m ↔ ∃ base t rest, d.objectAt? base = some t ∧
    r ∈ d.references.all ∧ r.target = some t ∧ r.origin.location.isWithin base = false ∧
      l.segments = base.segments ++ rest ∧ m.segments = r.origin.location.segments ++ rest := by
  simp only [Step, Location.rebased?_eq_some]
  constructor
  · rintro ⟨base, t, hat, hr, ht, hout, rest, hl, hm⟩
    exact ⟨base, t, rest, hat, hr, ht, hout, hl, hm⟩
  · rintro ⟨base, t, rest, hat, hr, ht, hout, hl, hm⟩
    exact ⟨base, t, hat, hr, ht, hout, rest, hl, hm⟩

/-- A step as far as pointers tell. -/
theorem Step.texts (h : d.Step l r m) : ∃ base t rest, d.objectAt? base = some t ∧
    r ∈ d.references.all ∧ r.target = some t ∧ l.texts = base.texts ++ rest ∧
      m.texts = r.origin.location.texts ++ rest := by
  obtain ⟨base, t, rest, hat, hr, ht, -, hl, hm⟩ := step_iff.1 h
  exact ⟨base, t, rest.map Segment.text, hat, hr, ht, by simp [Location.texts, hl],
    by simp [Location.texts, hm]⟩

theorem Step.isPlain (hd : d.Separated) (h : d.Step l r m) (hl : l.isPlain = true) :
    m.isPlain = true := by
  obtain ⟨base, t, rest, -, hr, -, -, hls, hms⟩ := step_iff.1 h
  have hr := hd.plain r hr
  rw [Location.isPlain_iff] at hl hr ⊢
  rw [hls] at hl
  rw [hms]
  intro s hs
  rcases List.mem_append.1 hs with hs | hs
  · exact hr s hs
  · exact hl s (List.mem_append_right _ hs)

theorem Chain.isPlain (hd : d.Separated) (h : d.Chain l rs m) (hl : l.isPlain = true) :
    m.isPlain = true := by
  induction h with
  | nil => exact hl
  | cons hstep _ ih => exact ih (hstep.isPlain hd hl)

theorem Chain.concat_iff : d.Chain l (rs ++ [r]) m ↔ ∃ k, d.Chain l rs k ∧ d.Step k r m := by
  constructor
  · intro h
    generalize hcut : rs ++ [r] = cs at h
    induction h generalizing rs with
    | nil => simp at hcut
    | @cons l k m r' rs' hstep hchain ih =>
      cases rs with
      | nil =>
        obtain ⟨rfl, rfl⟩ := List.cons.inj hcut
        cases hchain
        exact ⟨_, .nil, hstep⟩
      | cons r'' rs =>
        obtain ⟨rfl, hrest⟩ := List.cons.inj hcut
        obtain ⟨k', hchain', hlast⟩ := ih hrest
        exact ⟨k', .cons hstep hchain', hlast⟩
  · rintro ⟨k, hchain, hlast⟩
    induction hchain with
    | nil => exact .cons hlast .nil
    | cons hstep _ ih => exact .cons hstep (ih hlast)

/-! ## Where a chain ends tells its references -/

section
variable (hd : d.Separated)
include hd

/-- References at or above one place are the same. -/
theorem Separated.reference_unique {s : Reference} {xs : List String} (hr : r ∈ d.references.all)
    (hs : s ∈ d.references.all) (hrx : r.origin.location.texts <+: xs)
    (hsx : s.origin.location.texts <+: xs) : r = s := by
  have : Std.Symm fun r s : Reference => r.origin.location.Apart s.origin.location :=
    ⟨fun _ _ => Location.Apart.symm⟩
  by_contra hne
  have hapart := hd.references.forall hr hs hne
  rcases List.prefix_or_prefix_of_prefix hrx hsx with h | h
  · exact hapart.1 h
  · exact hapart.2 h

/-- An object above a reference, or beside it, is nearer to the root. -/
theorem Separated.length_lt {base : Location} {t : Target} {xs : List String}
    (hr : r ∈ d.references.all) (hat : d.objectAt? base = some t)
    (hrx : r.origin.location.texts <+: xs) (hbx : base.texts <+: xs) :
    base.texts.length < r.origin.location.texts.length := by
  rcases List.prefix_or_prefix_of_prefix hbx hrx with h | h
  · refine Nat.lt_of_le_of_ne h.length_le fun hlen => ?_
    exact hd.objects r hr base t hat (h.eq_of_length hlen ▸ List.prefix_refl _)
  · exact absurd h (hd.objects r hr base t hat)

/-- The last step of a chain can be read off its end. -/
theorem Separated.step_unique {l' m' : Location} {r' : Reference} (h : d.Step l r m)
    (h' : d.Step l' r' m') (hm : m.texts = m'.texts) : r = r' ∧ l.texts = l'.texts := by
  obtain ⟨base, t, rest, hat, hr, ht, hl, hms⟩ := h.texts
  obtain ⟨base', t', rest', hat', hr', ht', hl', hms'⟩ := h'.texts
  obtain rfl : r = r' := hd.reference_unique hr hr' ⟨rest, hms.symm⟩ ⟨rest', hm ▸ hms'.symm⟩
  obtain rfl : t = t' := Option.some.inj (ht.symm.trans ht')
  have hrest : rest = rest' := List.append_cancel_left (hms.symm.trans (hm.trans hms'))
  exact ⟨rfl, by rw [hl, hl', hrest, hd.pointers base base' t hat hat']⟩

/-- Of two chains that end at one place, one goes on like the other from the same place on. -/
theorem Chain.aligned {l' m' : Location} {rs' : List Reference} (h : d.Chain l rs m)
    (h' : d.Chain l' rs' m') (hm : m.texts = m'.texts) :
    (∃ qs k, rs' = qs ++ rs ∧ d.Chain l' qs k ∧ k.texts = l.texts) ∨
      ∃ qs k, rs = qs ++ rs' ∧ d.Chain l qs k ∧ k.texts = l'.texts := by
  induction rs using List.reverseRecOn generalizing rs' m m' with
  | nil =>
    cases h
    exact .inl ⟨rs', m', by simp, h', hm.symm⟩
  | append_singleton rs r ih =>
    rcases List.eq_nil_or_concat' rs' with rfl | ⟨rs', r', rfl⟩
    · cases h'
      exact .inr ⟨rs ++ [r], m, by simp, h, hm⟩
    · obtain ⟨k, hk, hstep⟩ := Chain.concat_iff.1 h
      obtain ⟨k', hk', hstep'⟩ := Chain.concat_iff.1 h'
      obtain ⟨rfl, hkk⟩ := hd.step_unique hstep hstep' hm
      rcases ih hk hk' hkk with ⟨qs, j, rfl, hj⟩ | ⟨qs, j, rfl, hj⟩
      · exact .inl ⟨qs, j, by simp, hj⟩
      · exact .inr ⟨qs, j, by simp, hj⟩

/-- A chain adds the steps of its last reference to a location, and takes away no more than those of
the object that it starts from. -/
theorem Chain.length_le {base : Location} {t : Target} (h : d.Chain l (r :: rs) m)
    (hat : d.objectAt? base = some t) (ht : r.target = some t) :
    ∃ s ∈ d.references.all, s.origin.location.texts <+: m.texts ∧ base.texts <+: l.texts ∧
      l.texts.length + s.origin.location.texts.length ≤ m.texts.length + base.texts.length := by
  induction rs generalizing l r base t with
  | nil =>
    cases h with
    | cons hstep hnil =>
      cases hnil
      obtain ⟨base', t', rest, hat', hr, ht', hl, hm⟩ := hstep.texts
      obtain rfl : t = t' := Option.some.inj (ht.symm.trans ht')
      rw [hd.pointers base' base t hat' hat] at hl
      refine ⟨r, hr, ⟨rest, hm.symm⟩, ⟨rest, hl.symm⟩, ?_⟩
      rw [hl, hm, List.length_append, List.length_append]
      omega
  | cons r' rs ih =>
    cases h with
    | cons hstep hchain =>
      obtain ⟨base', t', rest, hat', hr, ht', hl, hm⟩ := hstep.texts
      obtain rfl : t = t' := Option.some.inj (ht.symm.trans ht')
      rw [hd.pointers base' base t hat' hat] at hl
      obtain ⟨next, u, hu, hnext⟩ : ∃ next u, d.objectAt? next = some u ∧ r'.target = some u := by
        cases hchain with
        | cons hstep' _ =>
          obtain ⟨next, u, -, hu, -, hnext, -⟩ := hstep'.texts
          exact ⟨next, u, hu, hnext⟩
      obtain ⟨s, hs, hsm, hbelow, hlen⟩ := ih hchain hu hnext
      -- the next object lies above the reference that the location has been moved to
      have hlt := hd.length_lt hr hu ⟨rest, hm.symm⟩ hbelow
      refine ⟨s, hs, hsm, ⟨rest, hl.symm⟩, ?_⟩
      rw [hm] at hlen
      rw [hl]
      simp only [List.length_append] at hlen ⊢
      omega

/-- A chain leads away from where it starts. -/
theorem Chain.texts_ne (h : d.Chain l (r :: rs) m) : m.texts ≠ l.texts := by
  intro heq
  obtain ⟨base, t, hat, ht⟩ : ∃ base t, d.objectAt? base = some t ∧ r.target = some t := by
    cases h with
    | cons hstep _ =>
      obtain ⟨base, t, -, hat, -, ht, -⟩ := hstep.texts
      exact ⟨base, t, hat, ht⟩
  obtain ⟨s, hs, hsm, hbelow, hlen⟩ := h.length_le hd hat ht
  have hlt := hd.length_lt hs hat (heq ▸ hsm) hbelow
  rw [heq] at hlen
  omega

/-- **No location is reached by two different chains.** -/
theorem Chain.unique {rs' : List Reference} (h : d.Chain l rs m) (h' : d.Chain l rs' m) :
    rs = rs' := by
  rcases h.aligned hd h' rfl with ⟨qs, k, rfl, hk, hkl⟩ | ⟨qs, k, rfl, hk, hkl⟩
  · cases qs with
    | nil => rfl
    | cons q qs => exact absurd hkl (hk.texts_ne hd)
  · cases qs with
    | nil => rfl
    | cons q qs => exact absurd hkl (hk.texts_ne hd)

/-- A step is determined by its reference. -/
theorem Step.unique (h : d.Step l r m) (h' : d.Step l r k) : m = k := by
  obtain ⟨base, t, rest, hat, -, ht, -, hl, hm⟩ := step_iff.1 h
  obtain ⟨base', t', rest', hat', -, ht', -, hl', hk⟩ := step_iff.1 h'
  obtain rfl : t = t' := Option.some.inj (ht.symm.trans ht')
  have hlen : base.segments.length = base'.segments.length := by
    simpa [Location.texts] using congrArg List.length (hd.pointers base base' t hat hat')
  have hrest := (List.append_inj (hl.symm.trans hl') hlen).2
  cases m
  cases k
  simp_all

end

end Document

end ApiLint
