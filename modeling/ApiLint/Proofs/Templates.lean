import ApiLint.Lint.Template
import ApiLint.Proofs.Memos

/-!
# Message templates and their cache

A template is cut at its slots into the texts between them (`Template.IsCut`). As slots cannot
overlap there is one such list, and cutting from left to right gives it (`Template.isCut_iff`). What
a template renders to are these texts with the arguments between them (`Template.fill_pieces`).

A cache that has met templates holds the pieces of each of them once (`TemplateCache.Holds`). Each
use keeps that up (`TemplateCache.Holds.call`), so what is rendered does not depend on what was
rendered before (`TemplateCache.render_after`).
-/

set_option autoImplicit false

namespace ApiLint

namespace Template

/-! ## Texts between slots -/

/-- A slot as it is written. -/
def slotText : List Char := ['\x7b', '\x7d']

/-- The texts between the slots of a template. -/
structure IsCut (template : List Char) (texts : List (List Char)) : Prop where
  ne_nil : texts ≠ []
  joined : slotText.intercalate texts = template
  bare : ∀ text ∈ texts, ¬slotText <:+: text

/-- Cuts a template at its slots, from left to right. -/
def cut : List Char → List (List Char)
  | '\x7b' :: '\x7d' :: rest => [] :: cut rest
  | c :: rest => (cut rest).modifyHead (c :: ·)
  | [] => [[]]

/-- The texts with the arguments between them: each but the first has the argument of its number in
front of it, if there is one. -/
def weave : List (List Char) → List String → List Char
  | [], _ => []
  | text :: texts, arguments =>
    text ++ texts.zipIdx.flatMap fun (next, i) => (arguments.getD i "").toList ++ next

variable {c : Char} {text rest : List Char} {texts : List (List Char)}

/-- Where no slot begins, a character is part of a text. -/
theorem cut_cons (h : ¬slotText <+: c :: rest) :
    cut (c :: rest) = (cut rest).modifyHead (c :: ·) := by
  rw [cut]
  rintro more rfl rfl
  exact h ⟨more, rfl⟩

theorem cut_of_bare (h : ¬slotText <:+: text) : cut text = [text] := by
  induction text with
  | nil => rfl
  | cons c rest ih =>
    rw [List.infix_cons_iff, not_or] at h
    rw [cut_cons h.1, ih h.2]
    rfl

/-- No slot begins in a text and ends in the slot behind it. -/
theorem no_slot_begins (h : ¬slotText <+: c :: text) :
    ¬slotText <+: c :: (text ++ slotText ++ rest) := by
  cases text with
  | nil => simp [slotText]
  | cons next text => simpa [slotText, List.cons_prefix_cons] using h

theorem cut_append (h : ¬slotText <:+: text) (rest : List Char) :
    cut (text ++ slotText ++ rest) = text :: cut rest := by
  induction text with
  | nil => rfl
  | cons c text ih =>
    rw [List.infix_cons_iff, not_or] at h
    rw [List.cons_append, List.cons_append, cut_cons (no_slot_begins h.1), ih h.2]
    rfl

/-- What follows the first text does not depend on it. -/
theorem exists_intercalate_cons (texts : List (List Char)) :
    ∃ tail, ∀ text, slotText.intercalate (text :: texts) = text ++ tail := by
  cases texts with
  | nil => exact ⟨[], fun text => by simp⟩
  | cons next texts =>
    refine ⟨slotText ++ slotText.intercalate (next :: texts), fun text => ?_⟩
    rw [List.intercalate_cons_cons, List.append_assoc]

namespace IsCut

theorem eq_cut {template : List Char} (h : IsCut template texts) : texts = cut template := by
  obtain ⟨hne, rfl, hbare⟩ := h
  induction texts with
  | nil => exact absurd rfl hne
  | cons text texts ih =>
    -- The first slot met is the one behind the first text, and the rest is cut in turn.
    have htext : ¬slotText <:+: text := hbare text List.mem_cons_self
    cases texts with
    | nil => rw [List.intercalate_singleton, cut_of_bare htext]
    | cons next texts =>
      rw [List.intercalate_cons_cons, cut_append htext,
        ← ih (List.cons_ne_nil _ _) fun x hx => hbare x (.tail _ hx)]

/-- A slot in front sets an empty text apart. -/
theorem slot (h : IsCut rest texts) : IsCut (slotText ++ rest) ([] :: texts) where
  ne_nil := List.cons_ne_nil _ _
  joined := by
    obtain ⟨next, texts, rfl⟩ := List.exists_cons_of_ne_nil h.ne_nil
    rw [List.intercalate_cons_cons, h.joined, List.nil_append]
  bare := by
    refine List.forall_mem_cons.2 ⟨?_, h.bare⟩
    simp [slotText]

/-- A character with which no slot begins goes to the first text. -/
theorem push (h : IsCut rest texts) (hc : ¬slotText <+: c :: rest) :
    IsCut (c :: rest) (texts.modifyHead (c :: ·)) := by
  obtain ⟨text, texts, rfl⟩ := List.exists_cons_of_ne_nil h.ne_nil
  obtain ⟨tail, htail⟩ := exists_intercalate_cons texts
  obtain ⟨htext, htexts⟩ := List.forall_mem_cons.1 h.bare
  have hrest : text ++ tail = rest := by rw [← htail, h.joined]
  refine ⟨List.cons_ne_nil _ _, ?_, List.forall_mem_cons.2 ⟨?_, htexts⟩⟩
  · rw [List.modifyHead_cons, htail, List.cons_append, hrest]
  · intro hslot
    rcases List.infix_cons_iff.1 hslot with hslot | hslot
    · have hmore : c :: text <+: c :: rest := ⟨tail, by rw [List.cons_append, hrest]⟩
      exact hc (hslot.trans hmore)
    · exact htext hslot

end IsCut

theorem isCut_cut (template : List Char) : IsCut template (cut template) := by
  fun_induction cut template with
  | case1 rest ih => exact ih.slot
  | case2 c rest hc ih =>
    refine ih.push fun ⟨more, hmore⟩ => ?_
    obtain ⟨rfl, hrest⟩ := List.cons.inj hmore
    exact hc more rfl hrest.symm
  | case3 =>
    refine ⟨List.cons_ne_nil _ _, List.intercalate_singleton, List.forall_mem_singleton.2 ?_⟩
    simp [slotText]

/-- There is one list of texts between the slots of a template. -/
theorem isCut_iff {template : List Char} : IsCut template texts ↔ texts = cut template :=
  ⟨IsCut.eq_cut, fun h => h ▸ isCut_cut template⟩

/-! ## Filling slots -/

theorem weave_modifyHead (h : texts ≠ []) (c : Char) (arguments : List String) :
    weave (texts.modifyHead (c :: ·)) arguments = c :: weave texts arguments := by
  obtain ⟨text, texts, rfl⟩ := List.exists_cons_of_ne_nil h
  rfl

/-- An empty text in front takes an argument away from the others. -/
theorem weave_nil_cons (h : texts ≠ []) (arguments : List String) :
    weave ([] :: texts) arguments =
      (arguments.getD 0 "").toList ++ weave texts arguments.tail := by
  obtain ⟨text, texts, rfl⟩ := List.exists_cons_of_ne_nil h
  have hshift : ∀ i, arguments.tail.getD i "" = arguments.getD (i + 1) "" := fun i => by
    cases arguments <;> rfl
  simp only [weave, List.zipIdx_cons, List.zipIdx_succ, List.flatMap_cons, List.flatMap_map,
    List.nil_append, List.append_assoc, hshift]

theorem fill_push (c : Char) (pieces : List TemplatePiece) (arguments : List String) :
    fill (push c pieces) arguments = c :: fill pieces arguments := by
  rcases pieces with _ | ⟨_ | _, pieces⟩ <;> rfl

/-- A template is rendered as its texts with the arguments between them. -/
theorem fill_pieces (template : List Char) (arguments : List String) :
    fill (pieces template) arguments = weave (cut template) arguments := by
  fun_induction cut template generalizing arguments with
  | case1 rest ih =>
    rw [weave_nil_cons (isCut_cut rest).ne_nil, ← ih, pieces]
    cases arguments <;> rfl
  | case2 c rest hc ih =>
    rw [weave_modifyHead (isCut_cut rest).ne_nil, ← ih, ← fill_push, pieces]
    exact hc
  | case3 => rfl

/-- The braces around a slot are text, and so is a slot that is filled in. -/
example : cut ['\x7b', '\x7b', '\x7d', '\x7d', '\x7b', '\x7d'] = [['\x7b'], ['\x7d'], []] ∧
    weave [['\x7b'], ['\x7d'], []] ["\x7b\x7d"] = ['\x7b', '\x7b', '\x7d', '\x7d'] := by
  decide +kernel

end Template

/-! ## Uses of the cache -/

inductive TemplateCall where
  | preload (templates : List String)
  | render (template : String) (arguments : List String)

/-- The templates that the cache is used for. -/
def TemplateCall.templates : TemplateCall → List String
  | preload templates => templates
  | render template _ => [template]

namespace TemplateCache

/-- The cache that a use leaves. -/
def call (cache : TemplateCache) : TemplateCall → TemplateCache
  | .preload templates => cache.preload templates
  | .render template arguments => (cache.render template arguments).2

/-- The cache after uses of an empty one. -/
def after (calls : List TemplateCall) : TemplateCache := calls.foldl call {}

/-- The cache has the pieces of the templates met, of each once. -/
def Holds (cache : TemplateCache) (met : List String) : Prop :=
  Remembers (fun template pieces => pieces = Template.pieces template.toList) met cache.parsed

namespace Holds

variable {cache : TemplateCache} {met : List String}

theorem empty : Holds {} [] := Remembers.nil

/-- The cache answers with the pieces of a template, whether it has met it or not. -/
theorem piecesOf (h : Holds cache met) (template : String) :
    (cache.piecesOf template).1 = Template.pieces template.toList ∧
      Holds (cache.piecesOf template).2 (met ++ [template]) := by
  unfold TemplateCache.piecesOf
  cases hlookup : cache.parsed.lookup template with
  | some pieces => exact ⟨h.right_of_lookup hlookup, h.hit hlookup⟩
  | none => exact ⟨rfl, h.miss hlookup rfl⟩

theorem preload (h : Holds cache met) (templates : List String) :
    Holds (cache.preload templates) (met ++ templates) := by
  induction templates generalizing cache met with
  | nil =>
    rw [List.append_nil]
    exact h
  | cons template templates ih =>
    rw [List.append_cons]
    exact ih (h.piecesOf template).2

theorem call (h : Holds cache met) (c : TemplateCall) :
    Holds (cache.call c) (met ++ c.templates) := by
  cases c with
  | preload templates => exact h.preload templates
  | render template arguments => exact (h.piecesOf template).2

theorem after (calls : List TemplateCall) :
    Holds (after calls) (calls.flatMap (·.templates)) := by
  induction calls using List.reverseRecOn with
  | nil => exact empty
  | append_singleton calls c ih =>
    rw [TemplateCache.after, List.foldl_append, List.flatMap_append, List.flatMap_singleton]
    exact ih.call c

theorem render (h : Holds cache met) (template : String) (arguments : List String) :
    (cache.render template arguments).1 = Template.render template arguments :=
  congrArg (fun pieces => String.ofList (Template.fill pieces arguments)) (h.piecesOf template).1

end Holds

/-- **The cache does not show.** Whatever templates have been preloaded and rendered with a cache,
rendering a template gives the texts between its slots with the arguments between them; slots
without an argument are empty, arguments without a slot are left out, and what is filled in is not
cut. There is one way to cut a template. The cache counts the templates that it has met, each
once. -/
theorem render_after (calls : List TemplateCall) :
    (∀ template arguments, ∃ texts,
      (∀ others, Template.IsCut template.toList others ↔ others = texts) ∧
      ((after calls).render template arguments).1 =
        String.ofList (Template.weave texts arguments)) ∧
    (after calls).size = (calls.flatMap (·.templates)).toFinset.card := by
  have hholds := Holds.after calls
  refine ⟨fun template arguments => ?_, hholds.length_eq⟩
  refine ⟨Template.cut template.toList, fun others => Template.isCut_iff, ?_⟩
  rw [hholds.render, Template.render, Template.fill_pieces]

end TemplateCache

end ApiLint
