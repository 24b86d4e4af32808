import ApiLint.Document.Location
import ApiLint.Json.Pointer
import Mathlib.Data.List.Infix

/-!
# Locations and their texts

The two ways in which a location is written determine it:

* **Pointers** determine the texts of the steps (`Location.pointer_eq_iff`). A step is written
  behind a slash and holds none, and `unescapePointer` undoes its escapes.
* **Paths** determine the steps (`Location.path_inj`), as long as no field name holds a dot, an
  opening bracket or a quote. Keys are free: a backslash before the quote that ends a key looks
  like an escaped quote, so what follows is read on in two ways, but never to the end in both
  (`not_inside_of_outside`).
-/

set_option autoImplicit false

namespace ApiLint

/-! ## Pointers -/

theorem unescapePointer_escape (cs : List Char) :
    unescapePointer (cs.flatMap Segment.escapePointer) = cs := by
  induction cs with
  | nil => rfl
  | cons c cs ih =>
    rw [List.flatMap_cons]
    by_cases ht : c = '~'
    · subst ht
      show '~' :: unescapePointer (cs.flatMap Segment.escapePointer) = _
      rw [ih]
    by_cases hs : c = '/'
    · subst hs
      show '/' :: unescapePointer (cs.flatMap Segment.escapePointer) = _
      rw [ih]
    have hc : Segment.escapePointer c = [c] := by simp [Segment.escapePointer, ht, hs]
    rw [hc, List.singleton_append, unescapePointer, ih]
    · intro rest h; exact absurd h ht
    · intro rest h; exact absurd h ht

theorem escapePointer_inj {cs ds : List Char}
    (h : cs.flatMap Segment.escapePointer = ds.flatMap Segment.escapePointer) : cs = ds := by
  rw [← unescapePointer_escape cs, h, unescapePointer_escape]

theorem slash_notMem_escapePointer (cs : List Char) :
    '/' ∉ cs.flatMap Segment.escapePointer := by
  intro h
  obtain ⟨c, -, hc⟩ := List.mem_flatMap.1 h
  unfold Segment.escapePointer at hc
  split at hc
  · simp at hc
  · split at hc
    · simp at hc
    · rename_i hs
      exact hs (by simpa using (List.mem_singleton.1 hc).symm)

/-- Two texts without separators, each followed by nothing or by a separator, are the same if the
whole is. -/
theorem append_inj_of_separated {p : Char → Prop} {xs ys r s : List Char} (hx : ∀ c ∈ xs, ¬ p c)
    (hy : ∀ c ∈ ys, ¬ p c) (hr : ∀ c ∈ r.head?, p c) (hs : ∀ c ∈ s.head?, p c)
    (h : xs ++ r = ys ++ s) : xs = ys ∧ r = s := by
  induction xs generalizing ys with
  | nil =>
    cases ys with
    | nil => exact ⟨rfl, h⟩
    | cons y ys =>
      rw [List.nil_append] at h
      subst h
      exact absurd (hr y (by simp)) (hy y (by simp))
  | cons x xs ih =>
    cases ys with
    | nil =>
      rw [List.nil_append] at h
      subst h
      exact absurd (hs x (by simp)) (hx x (by simp))
    | cons y ys =>
      simp only [List.cons_append, List.cons.injEq] at h
      obtain ⟨rfl, h⟩ := h
      obtain ⟨rfl, hrs⟩ := ih (fun c m => hx c (.tail _ m)) (fun c m => hy c (.tail _ m)) h
      exact ⟨rfl, hrs⟩

theorem segmentPointer_head (ss : List Segment) :
    ∀ c ∈ (ss.flatMap Segment.pointer).head?, c = '/' := by
  cases ss with
  | nil => simp
  | cons s ss => simp [Segment.pointer]

theorem segmentPointers_inj {ss ts : List Segment}
    (h : ss.flatMap Segment.pointer = ts.flatMap Segment.pointer) :
    ss.map Segment.text = ts.map Segment.text := by
  induction ss generalizing ts with
  | nil =>
    cases ts with
    | nil => rfl
    | cons t ts => simp [Segment.pointer] at h
  | cons s ss ih =>
    cases ts with
    | nil => simp [Segment.pointer] at h
    | cons t ts =>
      simp only [List.flatMap_cons, Segment.pointer, List.cons_append, List.cons.injEq,
        true_and] at h
      have hs : ∀ (t : String), ∀ c ∈ t.toList.flatMap Segment.escapePointer, ¬ c = '/' :=
        fun t c hc he => slash_notMem_escapePointer _ (he ▸ hc)
      obtain ⟨htext, hrest⟩ := append_inj_of_separated (hs _) (hs _) (segmentPointer_head ss)
        (segmentPointer_head ts) h
      rw [List.map_cons, List.map_cons, ih hrest,
        String.toList_inj.1 (escapePointer_inj htext)]

namespace Location

/-- The texts of the steps: what a pointer tells of a location. -/
def texts (l : Location) : List String := l.segments.map Segment.text

@[simp]
theorem texts_child (l : Location) (s : Segment) : (l.child s).texts = l.texts ++ [s.text] := by
  simp [texts, child]

@[simp]
theorem texts_field (l : Location) (name : String) : (l.field name).texts = l.texts ++ [name] :=
  texts_child l _

@[simp]
theorem texts_key (l : Location) (name : String) : (l.key name).texts = l.texts ++ [name] :=
  texts_child l _

@[simp]
theorem texts_index (l : Location) (i : Nat) : (l.index i).texts = l.texts ++ [toString i] :=
  texts_child l _

theorem pointer_eq_iff {l m : Location} : l.pointer = m.pointer ↔ l.texts = m.texts := by
  constructor
  · intro h
    have h := (List.cons.inj (String.ofList_injective h)).2
    exact segmentPointers_inj h
  · intro h
    have hp : ∀ k : Location, k.pointer =
        String.ofList ('#' :: k.texts.flatMap fun t => '/' :: t.toList.flatMap Segment.escapePointer) := by
      intro k
      simp only [pointer, texts, List.flatMap_map]
      rfl
    rw [hp, hp, h]

/-! ## Prefixes -/

theorem rebased?_eq_some {l base slot m : Location} :
    l.rebased? base slot = some m ↔
      ∃ rest, l.segments = base.segments ++ rest ∧ m.segments = slot.segments ++ rest := by
  unfold rebased?
  rw [Option.map_eq_some_iff]
  constructor
  · rintro ⟨rest, h, rfl⟩
    exact ⟨rest, (List.isPrefixOf?_eq_some_iff_append_eq.1 h).symm, rfl⟩
  · rintro ⟨rest, h, hm⟩
    exact ⟨rest, List.isPrefixOf?_eq_some_iff_append_eq.2 h.symm, by cases m; simp_all⟩

end Location

/-! ## Paths -/

/-- A field name in which no other step can be taken to begin. -/
def Segment.isPlain : Segment → Bool
  | .field name => name.toList.all fun c => !(['.', '[', '\x27'].contains c)
  | _ => true

namespace Location

def isPlain (l : Location) : Bool := l.segments.all Segment.isPlain

theorem isPlain_iff {l : Location} : l.isPlain = true ↔ ∀ s ∈ l.segments, s.isPlain = true :=
  List.all_eq_true

end Location

/-- What a path reads from a step on. -/
def renderPath (ss : List Segment) : List Char := ss.flatMap Segment.path

@[simp]
theorem renderPath_nil : renderPath [] = [] := rfl

@[simp]
theorem renderPath_cons (s : Segment) (ss : List Segment) :
    renderPath (s :: ss) = s.path ++ renderPath ss := List.flatMap_cons

theorem renderPath_head (ss : List Segment) :
    ∀ c ∈ (renderPath ss).head?, c = '.' ∨ c = '[' := by
  cases ss with
  | nil => simp
  | cons s ss => cases s <;> simp [Segment.path]

/-- What a path reads from inside a key on: the rest of the key, its end, and more steps. -/
def renderKey (k : List Char) (rest : List Char) : List Char :=
  k.flatMap Segment.escapeQuote ++ '\x27' :: ']' :: rest

theorem renderKey_nil (rest : List Char) : renderKey [] rest = '\x27' :: ']' :: rest := rfl

theorem renderKey_quote (k rest : List Char) :
    renderKey ('\x27' :: k) rest = '\\' :: '\x27' :: renderKey k rest := rfl

theorem renderKey_cons {c : Char} (h : c ≠ '\x27') (k rest : List Char) :
    renderKey (c :: k) rest = c :: renderKey k rest := by
  simp [renderKey, Segment.escapeQuote, h]

theorem path_key_append (name : String) (rest : List Char) :
    (Segment.key name).path ++ rest = '[' :: '\x27' :: renderKey name.toList rest := by
  simp [Segment.path, renderKey]

/-- The rest of a key that starts with a bracket goes on behind it. -/
theorem renderKey_eq_bracket {k rest u : List Char} (h : renderKey k rest = ']' :: u) :
    ∃ k', u = renderKey k' rest := by
  cases k with
  | nil => simp [renderKey_nil] at h
  | cons c k =>
    by_cases hc : c = '\x27'
    · subst hc
      simp [renderKey_quote] at h
    · rw [renderKey_cons hc] at h
      exact ⟨k, (List.cons.inj h).2.symm⟩

/-- Up to its first quote a key reads as it is; that quote ends it or stands behind a backslash. -/
theorem renderKey_quote_split (k rest : List Char) :
    ('\x27' ∉ k ∧ renderKey k rest = k ++ '\x27' :: ']' :: rest) ∨
      ∃ a u, '\x27' ∉ a ∧ renderKey k rest = (a ++ ['\\']) ++ '\x27' :: u := by
  induction k with
  | nil => exact .inl ⟨List.not_mem_nil, rfl⟩
  | cons c k ih =>
    by_cases hc : c = '\x27'
    · subst hc
      exact .inr ⟨[], renderKey k rest, List.not_mem_nil, renderKey_quote k rest⟩
    · rw [renderKey_cons hc]
      rcases ih with ⟨hk, h⟩ | ⟨a, u, ha, h⟩
      · exact .inl ⟨by simp [Ne.symm hc, hk], by rw [h, List.cons_append]⟩
      · exact .inr ⟨c :: a, u, by simp [Ne.symm hc, ha], by rw [h]; rfl⟩

/-- The first quote opens a key. -/
def OpensKey (w : List Char) : Prop :=
  ∃ a k ts, '\x27' ∉ a ∧ (∀ s ∈ ts, s.isPlain = true) ∧
    w = (a ++ ['[']) ++ '\x27' :: renderKey k (renderPath ts)

theorem renderPath_quote_split {ss : List Segment} (hp : ∀ s ∈ ss, s.isPlain = true) :
    '\x27' ∉ renderPath ss ∨ OpensKey (renderPath ss) := by
  induction ss with
  | nil => exact .inl List.not_mem_nil
  | cons s ss ih =>
    have hss : ∀ s ∈ ss, s.isPlain = true := fun t ht => hp t (.tail _ ht)
    have step : '\x27' ∉ s.path →
        '\x27' ∉ renderPath (s :: ss) ∨ OpensKey (renderPath (s :: ss)) := by
      intro hs
      rcases ih hss with h | ⟨a, k, ts, ha, hts, h⟩
      · exact .inl (by simp [hs, h])
      · exact .inr ⟨s.path ++ a, k, ts, by simp [hs, ha], hts, by rw [renderPath_cons, h]; simp⟩
    cases s with
    | field name =>
      have hn := hp _ List.mem_cons_self
      simp only [Segment.isPlain, List.all_eq_true] at hn
      refine step fun h => ?_
      rcases List.mem_cons.1 h with h | h
      · simp at h
      · simpa using hn _ h
    | key name =>
      refine .inr ⟨[], name.toList, ss, List.not_mem_nil, hss, ?_⟩
      rw [renderPath_cons, path_key_append]
      rfl
    | index i =>
      refine step fun h => ?_
      have hi : '\x27' ∈ Nat.toDigits 10 i := by simpa [Segment.path] using h
      simpa using Nat.isDigit_of_mem_toDigits (by decide) (by decide) hi

/-- No text goes on from outside the keys to plain steps, and also from inside a key. -/
theorem not_inside_of_outside : ∀ (n : Nat) {ss ts : List Segment} (k : List Char),
    (renderPath ss).length ≤ n → (∀ s ∈ ss, s.isPlain = true) → (∀ t ∈ ts, t.isPlain = true) →
    renderPath ss ≠ renderKey k (renderPath ts) := by
  intro n
  induction n with
  | zero =>
    intro ss ts k hn _ _ h
    rw [h] at hn
    simp [renderKey] at hn
  | succ n ih =>
    intro ss ts k hn hs ht h
    rcases renderPath_quote_split hs with hq | ⟨a, k', us, ha, hus, hout⟩
    · rw [h] at hq
      simp [renderKey] at hq
    have hna : ∀ {b : List Char} {c : Char}, '\x27' ∉ b → c ≠ '\x27' →
        ∀ d ∈ b ++ [c], ¬ d = '\x27' := by
      intro b c hb hc d hd he
      subst he
      rcases List.mem_append.1 hd with hd | hd
      · exact hb hd
      · exact hc (List.mem_singleton.1 hd).symm
    have hquote : ∀ {u : List Char}, ∀ c ∈ ('\x27' :: u).head?, c = '\x27' := by simp
    rcases renderKey_quote_split k (renderPath ts) with ⟨hk, hin⟩ | ⟨b, u, hb, hin⟩
    · -- the key ends where the steps open one, so the bracket of its end starts that one
      rw [h, hin] at hout
      obtain ⟨-, hrest⟩ := append_inj_of_separated (p := (· = '\x27'))
        (fun d hd he => hk (he ▸ hd)) (hna ha (by decide)) hquote hquote hout
      obtain ⟨k2, hk2⟩ := renderKey_eq_bracket (List.cons.inj hrest).2.symm
      refine ih k2 ?_ ht hus hk2
      rw [h, hin] at hn
      simp only [List.length_append, List.length_cons] at hn
      omega
    · rw [h, hin] at hout
      obtain ⟨hab, -⟩ := append_inj_of_separated (p := (· = '\x27')) (hna hb (by decide))
        (hna ha (by decide)) hquote hquote hout
      have := (List.append_inj' hab rfl).2
      simp at this

theorem renderKey_inj {ss ts : List Segment} (hs : ∀ s ∈ ss, s.isPlain = true)
    (ht : ∀ t ∈ ts, t.isPlain = true) {j k : List Char}
    (h : renderKey j (renderPath ss) = renderKey k (renderPath ts)) :
    j = k ∧ renderPath ss = renderPath ts := by
  -- an escaped quote on one side against a backslash and the end of the key on the other
  have mixed : ∀ {us vs : List Segment} (i l : List Char), (∀ s ∈ us, s.isPlain = true) →
      (∀ t ∈ vs, t.isPlain = true) → '\x27' :: renderKey i (renderPath us) ≠
        renderKey l (renderPath vs) := by
    intro us vs i l hu hv h
    cases l with
    | nil =>
      rw [renderKey_nil] at h
      obtain ⟨i', hi⟩ := renderKey_eq_bracket (List.cons.inj h).2
      exact not_inside_of_outside _ i' (Nat.le_refl _) hv hu hi
    | cons c l =>
      by_cases hc : c = '\x27'
      · subst hc
        simp [renderKey_quote] at h
      · rw [renderKey_cons hc] at h
        exact hc (List.cons.inj h).1.symm
  induction j generalizing k with
  | nil =>
    cases k with
    | nil =>
      simp only [renderKey_nil, List.cons.injEq, true_and] at h
      exact ⟨rfl, h⟩
    | cons c k =>
      by_cases hc : c = '\x27'
      · subst hc
        simp [renderKey_nil, renderKey_quote] at h
      · rw [renderKey_nil, renderKey_cons hc] at h
        exact absurd (List.cons.inj h).1.symm hc
  | cons b j ih =>
    cases k with
    | nil =>
      by_cases hb : b = '\x27'
      · subst hb
        simp [renderKey_nil, renderKey_quote] at h
      · rw [renderKey_nil, renderKey_cons hb] at h
        exact absurd (List.cons.inj h).1 hb
    | cons c k =>
      by_cases hb : b = '\x27' <;> by_cases hc : c = '\x27'
      · subst hb hc
        simp only [renderKey_quote, List.cons.injEq, true_and] at h
        obtain ⟨rfl, hrest⟩ := ih h
        exact ⟨rfl, hrest⟩
      · subst hb
        rw [renderKey_quote, renderKey_cons hc] at h
        exact absurd (List.cons.inj h).2 (mixed j k hs ht)
      · subst hc
        rw [renderKey_quote, renderKey_cons hb] at h
        exact absurd (List.cons.inj h).2.symm (mixed k j ht hs)
      · rw [renderKey_cons hb, renderKey_cons hc, List.cons.injEq] at h
        obtain ⟨rfl, h⟩ := h
        obtain ⟨rfl, hrest⟩ := ih h
        exact ⟨rfl, hrest⟩

theorem toDigits_inj {m n : Nat} (h : Nat.toDigits 10 m = Nat.toDigits 10 n) : m = n := by
  rw [← Nat.ofDigitChars_ten_toDigits (n := m), h, Nat.ofDigitChars_ten_toDigits]

theorem renderPath_inj {ss ts : List Segment} (hs : ∀ s ∈ ss, s.isPlain = true)
    (ht : ∀ t ∈ ts, t.isPlain = true) (h : renderPath ss = renderPath ts) : ss = ts := by
  induction ss generalizing ts with
  | nil =>
    cases ts with
    | nil => rfl
    | cons t ts => cases t <;> simp [Segment.path] at h
  | cons s ss ih =>
    cases ts with
    | nil => cases s <;> simp [Segment.path] at h
    | cons t ts =>
      have hss : ∀ s ∈ ss, s.isPlain = true := fun x hx => hs x (.tail _ hx)
      have hts : ∀ t ∈ ts, t.isPlain = true := fun x hx => ht x (.tail _ hx)
      have digit : ∀ i : Nat, ∀ c ∈ Nat.toDigits 10 i, c ≠ '\x27' ∧ ¬ c = ']' := by
        intro i c hc
        have := Nat.isDigit_of_mem_toDigits (by decide) (by decide) hc
        constructor <;> (rintro rfl; simp at this)
      have noIndex : ∀ (i : Nat) (name : String) (r u : List Char),
          (Segment.index i).path ++ r ≠ (Segment.key name).path ++ u := by
        intro i name r u h
        rw [path_key_append] at h
        simp only [Segment.path, List.cons_append, List.cons.injEq, true_and] at h
        rcases hd : Nat.toDigits 10 i with _ | ⟨c, cs⟩
        · exact Nat.toDigits_ne_nil hd
        · rw [hd] at h
          exact (digit i c (by rw [hd]; simp)).1 (List.cons.inj h).1
      rw [renderPath_cons, renderPath_cons] at h
      cases s with
      | field name =>
        cases t with
        | field name' =>
          have plain : ∀ {u : String}, (Segment.field u).isPlain = true →
              ∀ c ∈ u.toList, ¬ (c = '.' ∨ c = '[') := by
            intro u hu c hc he
            simp only [Segment.isPlain, List.all_eq_true] at hu
            have := hu c hc
            rcases he with rfl | rfl <;> simp at this
          simp only [Segment.path, List.cons_append, List.cons.injEq, true_and] at h
          obtain ⟨hname, hrest⟩ := append_inj_of_separated (plain (hs _ List.mem_cons_self))
            (plain (ht _ List.mem_cons_self)) (renderPath_head ss) (renderPath_head ts) h
          rw [String.toList_inj.1 hname, ih hss hts hrest]
        | key name' => simp [Segment.path] at h
        | index i => simp [Segment.path] at h
      | key name =>
        cases t with
        | field name' => simp [Segment.path] at h
        | key name' =>
          rw [path_key_append, path_key_append] at h
          obtain ⟨hname, hrest⟩ := renderKey_inj hss hts (List.cons.inj (List.cons.inj h).2).2
          rw [String.toList_inj.1 hname, ih hss hts hrest]
        | index i => exact absurd h.symm (noIndex i name _ _)
      | index i =>
        cases t with
        | field name' => simp [Segment.path] at h
        | key name' => exact absurd h (noIndex i name' _ _)
        | index j =>
          simp only [Segment.path, List.cons_append, List.append_assoc, List.cons.injEq, true_and]
            at h
          obtain ⟨hd, hrest⟩ := append_inj_of_separated (p := (· = ']'))
            (fun c hc => (digit i c hc).2) (fun c hc => (digit j c hc).2) (by simp) (by simp) h
          simp only [List.cons.injEq, true_and, List.nil_append] at hrest
          rw [toDigits_inj hd, ih hss hts hrest]

/-- **A path determines a plain location.** -/
theorem Location.path_inj {l m : Location} (hl : l.isPlain = true) (hm : m.isPlain = true)
    (h : l.path = m.path) : l = m := by
  have h := (List.cons.inj (String.ofList_injective h)).2
  have := renderPath_inj (isPlain_iff.1 hl) (isPlain_iff.1 hm) h
  cases l; cases m
  simpa using this

end ApiLint
