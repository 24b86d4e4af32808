import ApiLint.Example.Validator
import Mathlib.Data.List.Infix

/-!
# Where a phrase stands in a message

Violations whose texts mention one of a few phrases are taken to sum up others (`summaries`). The
texts quote values, names and patterns between fixed words. The fixed words are fences
(`Text.IsFence`): no phrase stands in them or reaches into them from either side. So a text mentions
a phrase exactly if something that it quotes does (`Violation.isSummary_message`), and no cause of a
violation does so by itself.
-/

set_option autoImplicit false

namespace ApiLint

namespace Text

theorem occursIn_iff {needle text : List Char} :
    occursIn needle text = true ↔ needle <:+: text := by
  induction text with
  | nil => simp [occursIn]
  | cons c rest ih =>
    rw [occursIn, Bool.or_eq_true, List.isPrefixOf_iff_prefix, ih, List.infix_cons_iff]

/-- No end of the list but the empty one begins the text, or goes on where the text stops. -/
def missesEnds (text : List Char) : List Char → Bool
  | [] => true
  | c :: rest =>
    !(c :: rest).isPrefixOf text && !text.isPrefixOf (c :: rest) && missesEnds text rest

theorem missesEnds_iff {text list : List Char} : missesEnds text list = true ↔
    ∀ end', end' <:+ list → end' ≠ [] → ¬end' <+: text ∧ ¬text <+: end' := by
  induction list with
  | nil => simp [missesEnds]
  | cons c rest ih =>
    simp only [missesEnds, Bool.and_eq_true, Bool.not_eq_true', ← Bool.not_eq_true,
      List.isPrefixOf_iff_prefix, ih, List.suffix_cons_iff]
    grind

/-- The needle does not stand in the text, and it cannot reach into the text from either side. -/
def IsFence (needle text : List Char) : Prop :=
  occursIn needle text = false ∧ missesEnds text needle.tail = true ∧
    missesEnds text.reverse needle.reverse.tail = true

instance (needle text : List Char) : Decidable (IsFence needle text) :=
  inferInstanceAs (Decidable (_ ∧ _))

/-- What stands in a text with a fence stands on one side of it. -/
theorem IsFence.infix_iff {needle fence : List Char} (h : IsFence needle fence)
    (before after : List Char) :
    needle <:+: before ++ fence ++ after ↔ needle <:+: before ∨ needle <:+: after := by
  obtain ⟨hout, hends, hstarts⟩ := h
  have hout : ¬needle <:+: fence := by rwa [← occursIn_iff, Bool.not_eq_true]
  have hsplit : ∀ {u w : List Char}, needle = u ++ w → u ≠ [] → w ≠ [] →
      ¬u <:+ fence ∧ ¬w <+: fence ∧ ¬fence <+: w := by
    rintro u w rfl hu hw
    have htail : ∀ {u w : List Char}, u ≠ [] → w <:+ (u ++ w).tail := by
      rintro (_ | ⟨c, u⟩) w hu
      · exact absurd rfl hu
      · exact List.suffix_append u w
    rw [List.reverse_append] at hstarts
    obtain ⟨hnot, hnot'⟩ := missesEnds_iff.1 hends w (htail hu) hw
    obtain ⟨hnot'', -⟩ := missesEnds_iff.1 hstarts u.reverse (htail (List.reverse_ne_nil_iff.2 hw))
      (List.reverse_ne_nil_iff.2 hu)
    exact ⟨by rwa [List.reverse_prefix] at hnot'', hnot, hnot'⟩
  have hend : needle <:+: fence ++ after ↔ needle <:+: after := by
    refine ⟨fun hfound => ?_, List.infix_append_of_infix_right⟩
    obtain hfound | hfound | ⟨u, w, hneedle, hu, hw⟩ := List.infix_append_iff.1 hfound
    · exact absurd hfound hout
    · exact hfound
    · rcases eq_or_ne u [] with rfl | hune
      · exact hneedle ▸ hw.isInfix
      rcases eq_or_ne w [] with rfl | hwne
      · exact absurd ((hneedle.trans (List.append_nil u)) ▸ hu.isInfix) hout
      exact absurd hu (hsplit hneedle hune hwne).1
  rw [List.append_assoc, List.infix_append_iff, hend]
  constructor
  · rintro (hfound | hfound | ⟨u, w, hneedle, hu, hw⟩)
    · exact .inl hfound
    · exact .inr hfound
    · rcases eq_or_ne u [] with rfl | hune
      · exact .inr (hend.1 (hneedle ▸ hw.isInfix))
      rcases eq_or_ne w [] with rfl | hwne
      · exact .inl ((hneedle.trans (List.append_nil u)) ▸ hu.isInfix)
      obtain ⟨-, hnot, hnot'⟩ := hsplit hneedle hune hwne
      rcases List.prefix_or_prefix_of_prefix hw (List.prefix_append fence after) with hw | hw
      · exact absurd hw hnot
      · exact absurd hw hnot'
  · exact Or.imp_right .inl

end Text

/-! ## Summaries -/

/-- The characters of the summaries. -/
def phrases : List (List Char) := [
  ['i', 'f', '-', 't', 'h', 'e', 'n', ' ', 'f', 'a', 'i', 'l', 'e', 'd'],
  ['i', 'f', '-', 'e', 'l', 's', 'e', ' ', 'f', 'a', 'i', 'l', 'e', 'd'],
  ['a', 'l', 'l', 'O', 'f', ' ', 'f', 'a', 'i', 'l', 'e', 'd'],
  ['o', 'n', 'e', 'O', 'f', ' ', 'f', 'a', 'i', 'l', 'e', 'd']]

theorem map_toList_summaries : summaries.map String.toList = phrases := by decide +kernel

/-- No summary stands in the text or reaches into it. -/
def IsFence (text : String) : Prop := ∀ phrase ∈ phrases, Text.IsFence phrase text.toList

/-- For words that are written out, the characters are at hand. -/
theorem isFence_ofList {chars : List Char} (h : ∀ phrase ∈ phrases, Text.IsFence phrase chars) :
    IsFence (String.ofList chars) := by
  rw [IsFence, String.toList_ofList]
  exact h

theorem isSummary_iff {text : String} :
    isSummary text = true ↔ ∃ phrase ∈ phrases, phrase <:+: text.toList := by
  simp only [isSummary, List.any_eq_true, mentions, Text.occursIn_iff, ← map_toList_summaries,
    List.mem_map, exists_exists_and_eq_and]

theorem isSummary_fence {before fence after : String} (h : IsFence fence) :
    isSummary (before ++ fence ++ after) = (isSummary before || isSummary after) := by
  rw [Bool.eq_iff_iff, Bool.or_eq_true]
  simp only [isSummary_iff, String.toList_append]
  rw [← exists_or]
  refine exists_congr fun phrase => ?_
  rw [← and_or_left]
  exact and_congr_right fun hphrase => (h phrase hphrase).infix_iff _ _

/-- Each phrase has at least twelve characters. -/
theorem isSummary_of_short {text : String} (h : text.length < 12) : isSummary text = false := by
  have hlong : ∀ phrase ∈ phrases, 12 ≤ phrase.length := by decide
  rw [Bool.eq_false_iff, Ne, isSummary_iff, not_exists]
  rintro phrase ⟨hphrase, hfound⟩
  have hle := hfound.length_le
  rw [String.length_toList] at hle
  exact absurd ((hlong phrase hphrase).trans hle) (Nat.not_le.2 h)

theorem isSummary_empty : isSummary "" = false := isSummary_of_short (by decide)

theorem isSummary_append_fence {before fence : String} (h : IsFence fence) :
    isSummary (before ++ fence) = isSummary before := by
  rw [← String.append_empty (s := before ++ fence), isSummary_fence h, isSummary_empty,
    Bool.or_false]

theorem isSummary_fence_append {fence after : String} (h : IsFence fence) :
    isSummary (fence ++ after) = isSummary after := by
  rw [← String.empty_append (s := fence), isSummary_fence h, isSummary_empty, Bool.false_or]

theorem isSummary_of_isFence {fence : String} (h : IsFence fence) : isSummary fence = false := by
  rw [← String.empty_append (s := fence), isSummary_append_fence h, isSummary_empty]

/-- Texts in a row, with a fence between them. -/
theorem isSummary_intercalate {fence : String} (h : IsFence fence) (texts : List String) :
    isSummary (fence.intercalate texts) = texts.any isSummary := by
  induction texts with
  | nil => exact isSummary_empty
  | cons text rest ih =>
    cases rest with
    | nil => simp
    | cons next rest =>
      rw [String.intercalate_cons_cons, isSummary_fence h, ih]
      rfl

/-- No phrase stands in a number. -/
theorem isSummary_number (n : Nat) : isSummary (toString n) = false := by
  have hletter : ∀ phrase ∈ phrases, 'f' ∈ phrase := by decide
  rw [Bool.eq_false_iff, Ne, isSummary_iff, not_exists]
  rintro phrase ⟨hphrase, hfound⟩
  have hdigit : 'f'.isDigit = true := by
    refine Nat.isDigit_of_mem_toDigits (b := 10) (n := n) (by decide) (by decide) ?_
    simpa only [Nat.toString_eq_repr, Nat.toList_repr] using hfound.subset (hletter phrase hphrase)
  exact absurd hdigit (by decide)

namespace Violation

/-- The options that a message writes out. -/
def choicesShown : List Json → List Json
  | [a, b, c] => [a, b, c]
  | options => options.take 2

/-- The texts that a message quotes: values and names, and what the schema demands of them. -/
def quoted (v : Violation) : List String :=
  match v.cause with
  | .unknownType => []
  | .missing property => [Json.quote property]
  | .belowMinimum limit | .aboveMaximum limit | .notAbove limit | .notBelow limit =>
    [v.value.compact, limit.compact]
  | .notMultiple factor => [v.value.compact, factor.compact]
  | .unmatched pattern => [v.value.compact, pattern]
  | .malformed format => [v.value.compact, format]
  | .unlisted options => v.value.compact :: (choicesShown options).map Json.compact
  | .unexpected constant => [constant.compact]
  | .extraProperties names | .unevaluatedProperties names => names
  | .extraItems items | .unevaluatedItems items => items.map Json.compact
  | .forbidden schema => [schema.compact, v.value.compact]
  | _ => [v.value.compact]

theorem isSummary_counted {one many : String} (hone : IsFence (" " ++ one))
    (hmany : IsFence (" " ++ many)) (n : Nat) : isSummary (counted n one many) = false := by
  rw [counted, String.append_assoc]
  split
  · rw [isSummary_append_fence hone, isSummary_number]
  · rw [isSummary_append_fence hmany, isSummary_number]

theorem isSummary_kind (kind : JsonKind) : isSummary kind.name = false :=
  isSummary_of_short (by cases kind <;> decide)

theorem isSummary_kinds (kinds : List JsonKind) :
    isSummary (", ".intercalate (kinds.map fun k => "\"" ++ k.name ++ "\"")) = false := by
  have hcomma : IsFence ", " := isFence_ofList (by decide)
  have hquote : IsFence "\"" := isFence_ofList (by decide)
  rw [isSummary_intercalate hcomma, List.any_map]
  simp [isSummary_append_fence hquote, isSummary_fence_append hquote, isSummary_kind]

theorem isSummary_listed (texts : List String) :
    isSummary (listed texts) = texts.any isSummary := by
  have hcomma : IsFence ", " := isFence_ofList (by decide)
  have hopen : IsFence "(" := isFence_ofList (by decide)
  have hclose : IsFence " unexpected)" := isFence_ofList (by decide)
  have hwas : IsFence " was" := isFence_ofList (by decide)
  have hwere : IsFence " were" := isFence_ofList (by decide)
  rw [listed, isSummary_append_fence hclose]
  split
  · rw [isSummary_append_fence hwas, isSummary_fence_append hopen, isSummary_intercalate hcomma]
  · rw [isSummary_append_fence hwere, isSummary_fence_append hopen, isSummary_intercalate hcomma]

theorem isSummary_inQuotes (text : String) : isSummary (inQuotes text) = isSummary text := by
  have hquote : IsFence "\x27" := isFence_ofList (by decide)
  rw [inQuotes, isSummary_append_fence hquote, isSummary_fence_append hquote]

theorem isSummary_choices (options : List Json) :
    isSummary (choices options) = (choicesShown options).any (isSummary ·.compact) := by
  have hcomma : IsFence ", " := isFence_ofList (by decide)
  have hor : IsFence " or " := isFence_ofList (by decide)
  have hothers : IsFence " other candidates" := isFence_ofList (by decide)
  rcases options with _ | ⟨a, _ | ⟨b, _ | ⟨c, _ | ⟨e, rest⟩⟩⟩⟩
  · exact isSummary_empty
  · simp [choices, choicesShown]
  · simp [choices, choicesShown, isSummary_fence hor]
  · simp [choices, choicesShown, isSummary_fence hor, isSummary_fence hcomma, Bool.or_assoc]
  · rw [choices, isSummary_append_fence hothers, isSummary_fence hor, isSummary_fence hcomma,
      isSummary_number]
    · simp [choicesShown]
    · exact nofun
    · exact fun _ => nofun

/-- **A message mentions a phrase exactly if something that it quotes does.** -/
theorem isSummary_message (v : Violation) : isSummary v.message = v.quoted.any isSummary := by
  obtain ⟨value, cause⟩ := v
  cases cause
  case notContained =>
    -- The last letter of the message could begin a phrase, but nothing follows it.
    have hend : " are valid under the given schema" = " are valid under the given " ++ "schema" :=
      by simp
    have hword : isSummary "schema" = false := isSummary_of_short (by decide)
    simp (disch := (apply isFence_ofList; decide +kernel)) only [message, quoted, hend,
      ← String.append_assoc, isSummary_fence, isSummary_fence_append, hword, List.any_cons,
      List.any_nil, Bool.or_false]
  -- In each other message the fixed words are fences, and what is left are the texts quoted.
  all_goals
    simp (disch := ((try simp only [String.reduceAppend]); apply isFence_ofList; decide +kernel))
      only [message, quoted, isSummary_fence, isSummary_append_fence, isSummary_fence_append,
      isSummary_of_isFence, isSummary_kind, isSummary_kinds, isSummary_counted, isSummary_choices,
      isSummary_listed, isSummary_inQuotes, List.any_cons, List.any_nil, List.any_map,
      Bool.or_false, Function.comp_def]

end Violation

end ApiLint
