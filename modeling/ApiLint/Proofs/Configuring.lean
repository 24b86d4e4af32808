import ApiLint.Proofs.KeyedLists
import ApiLint.Ruleset.Apply

/-!
# Applying rulesets

An entry of a ruleset may turn its rule off. If not, it is valid (`RuleEntry.IsValid`), and then the
rule becomes what the entry sets and is otherwise as before (`RuleEntry.Sets`), or something is
wrong with it (`RuleEntry.Faulty`): first its severity, then its options in their order.
`RuleEntry.configure_cases` says that there is nothing else. A ruleset goes through rules one by one
and stops at the first entry with a fault (`Ruleset.Settles`), and the rest is read off this:
`Ruleset.apply_whole`.

An option can have the value of any scalar but null (`ConfigValue.isOption_iff`).
-/

set_option autoImplicit false

namespace ApiLint

/-! ## Values of options -/

namespace ConfigValue

/-- A value that has no parts. Null is one. -/
def isScalar : ConfigValue → Bool
  | list _ | table _ => false
  | _ => true

/-- A text, a number or a boolean. -/
def isOption : ConfigValue → Bool
  | text _ | natural _ | integer _ | float _ | bool _ => true
  | null | list _ | table _ => false

/-- The value is written as the text: a text as it is, a number in decimal, a boolean in a word. -/
inductive WrittenAs : ConfigValue → String → Prop
  | text (s : String) : WrittenAs (text s) s
  | natural (n : Nat) : WrittenAs (natural n) (toString n)
  | integer (i : Int) : WrittenAs (integer i) (toString i)
  | float (x : Float) : WrittenAs (float x) (floatText x)
  | yes : WrittenAs (bool true) "true"
  | no : WrittenAs (bool false) "false"

variable {v : ConfigValue}

/-- The values of options are all scalars but null. -/
theorem isOption_iff : v.isOption = true ↔ v.isScalar = true ∧ v ≠ null := by
  cases v <;> simp [isOption, isScalar]

theorem optionText?_eq_some_iff {s : String} : v.optionText? = some s ↔ v.WrittenAs s := by
  constructor
  · intro h
    cases v with
    | null | list _ | table _ => cases h
    | bool b => cases b <;> cases h <;> constructor
    | _ => cases h; constructor
  · intro h
    cases h <;> rfl

theorem WrittenAs.unique {s t : String} (hs : v.WrittenAs s) (ht : v.WrittenAs t) : s = t :=
  Option.some.inj ((optionText?_eq_some_iff.2 hs).symm.trans (optionText?_eq_some_iff.2 ht))

theorem isSome_optionText? (v : ConfigValue) : v.optionText?.isSome = v.isOption := by
  cases v <;> rfl

theorem optionText?_eq_none (h : v.isOption = false) : v.optionText? = none := by
  rwa [← isSome_optionText?, Option.isSome_eq_false_iff, Option.isNone_iff_eq_none] at h

/-- The value of an option is written in some way. -/
theorem exists_writtenAs (h : v.isOption = true) : ∃ s, v.WrittenAs s := by
  obtain ⟨s, hs⟩ := Option.isSome_iff_exists.1 ((isSome_optionText? v).trans h)
  exact ⟨s, optionText?_eq_some_iff.1 hs⟩

end ConfigValue

/-! ## What an entry says -/

namespace RuleEntry

/-- The entry turns its rule off. -/
def disables : RuleEntry → Bool
  | toggle enabled => !enabled
  | level name => isOff name
  | full c => !c.enabled

/-- The name of the severity that is set. -/
def severityName? : RuleEntry → Option String
  | toggle _ => none
  | level name => some name
  | full c => c.severity

/-- The message that is set. -/
def message? : RuleEntry → Option String
  | toggle _ | level _ => none
  | full c => c.message

/-- The options that are set. -/
def options : RuleEntry → List (String × ConfigValue)
  | toggle _ | level _ => []
  | full c => c.options

/-- The severity can be read, and all options are texts, numbers or booleans. -/
structure IsValid (e : RuleEntry) : Prop where
  severity : ∀ name, e.severityName? = some name → (Severity.ofName? name).isSome = true
  options : ∀ o ∈ e.options, o.2.isOption = true

/-- What is wrong with an entry: its severity, or else the first option that is no text, number or
boolean. -/
inductive Faulty (e : RuleEntry) (rule : String) : RulesetFault → Prop
  | severity {name : String} : e.severityName? = some name → Severity.ofName? name = none →
      Faulty e rule (.unknownSeverity rule name)
  | option {before after : List (String × ConfigValue)} {name : String} {value : ConfigValue} :
      (∀ name, e.severityName? = some name → (Severity.ofName? name).isSome = true) →
      e.options = before ++ (name, value) :: after → (∀ o ∈ before, o.2.isOption = true) →
      value.isOption = false → Faulty e rule (.invalidOption rule name)

/-- The rule `r'` is `r` except for what the entry sets. Of options with one name the last counts,
and what is set is how it is written. -/
structure Sets (e : RuleEntry) (r r' : Rule) : Prop where
  id : r'.id = r.id
  check : r'.check = r.check
  description : r'.description = r.description
  severity : r'.severity = (e.severityName?.bind Severity.ofName?).getD r.severity
  message : r'.message = e.message?.or r.message
  options : ∀ name s, Keyed.find? name r'.options = some s ↔
    (∃ v, Keyed.find? name e.options.reverse = some v ∧ v.WrittenAs s) ∨
      Keyed.find? name e.options.reverse = none ∧ Keyed.find? name r.options = some s
  sorted : Keyed.Sorted r'.options

theorem Faulty.not_isValid {e : RuleEntry} {rule : String} {fault : RulesetFault}
    (h : e.Faulty rule fault) : ¬e.IsValid := by
  intro hvalid
  cases h with
  | severity hname hnone =>
    have hsome := hvalid.severity _ hname
    rw [hnone] at hsome
    cases hsome
  | option _ hoptions _ hvalue =>
    have hscalar := hvalid.options _ (hoptions ▸ List.mem_append_cons_self)
    rw [hvalue] at hscalar
    cases hscalar

end RuleEntry

/-! ## Configuring a rule -/

namespace Rule

theorem withOption_of_writtenAs {v : ConfigValue} {text : String} (h : v.WrittenAs text)
    (r : Rule) (name : String) :
    r.withOption name v = .ok { r with options := Keyed.insert name text r.options } := by
  rw [withOption, ConfigValue.optionText?_eq_some_iff.2 h]

theorem withOption_of_not_option {v : ConfigValue} (h : v.isOption = false) (r : Rule)
    (name : String) : r.withOption name v = .error (.invalidOption r.id name) := by
  rw [withOption, ConfigValue.optionText?_eq_none h]

/-- Texts, numbers and booleans are all set. -/
theorem withOptions_of_options {options : List (String × ConfigValue)}
    (h : ∀ o ∈ options, o.2.isOption = true) {r : Rule} (hr : Keyed.Sorted r.options) :
    ∃ out, options.foldlM (fun r (o : String × ConfigValue) => r.withOption o.1 o.2) r =
        .ok { r with options := out } ∧ Keyed.Sorted out ∧
      ∀ name s, Keyed.find? name out = some s ↔
        (∃ v, Keyed.find? name options.reverse = some v ∧ v.WrittenAs s) ∨
          Keyed.find? name options.reverse = none ∧ Keyed.find? name r.options = some s := by
  induction options using List.reverseRecOn with
  | nil => exact ⟨r.options, rfl, hr, by simp [Keyed.find?]⟩
  | append_singleton options o ih =>
    obtain ⟨key, value⟩ := o
    obtain ⟨out, hout, hsorted, hfind⟩ := ih fun o ho => h o (List.mem_append_left _ ho)
    obtain ⟨text, htext⟩ := ConfigValue.exists_writtenAs (h (key, value) (by simp))
    refine ⟨Keyed.insert key text out, ?_, hsorted.insert key text, ?_⟩
    · rw [List.foldlM_append, hout]
      show (withOption _ key value >>= pure) = _
      rw [withOption_of_writtenAs htext]
      rfl
    · intro name s
      rw [Keyed.find?_insert, List.reverse_append, List.reverse_singleton, List.singleton_append,
        Keyed.find?]
      by_cases hname : key = name
      · simp only [hname, ↓reduceIte, Option.some.injEq, exists_eq_left', reduceCtorEq, false_and,
          or_false]
        exact ⟨fun hs => hs ▸ htext, htext.unique⟩
      · simpa only [hname, ↓reduceIte] using hfind name s

/-- The first option that is no text, number or boolean stops the rest. -/
theorem withOptions_of_not_option {before after : List (String × ConfigValue)} {name : String}
    {value : ConfigValue} (hbefore : ∀ o ∈ before, o.2.isOption = true)
    (hvalue : value.isOption = false) {r : Rule} (hr : Keyed.Sorted r.options) :
    (before ++ (name, value) :: after).foldlM
        (fun r (o : String × ConfigValue) => r.withOption o.1 o.2) r =
      .error (.invalidOption r.id name) := by
  obtain ⟨out, hout, -⟩ := withOptions_of_options hbefore hr
  rw [List.foldlM_append, hout]
  show (withOption _ name value >>= _) = _
  rw [withOption_of_not_option hvalue]
  rfl

/-- The rule with the severity of that name, if one is given. -/
def withSeverity? (r : Rule) : Option String → Except RulesetFault Rule
  | some name => r.withSeverity name
  | none => .ok r

theorem withSeverity?_cases (r : Rule) (name? : Option String) :
    ((∀ name, name? = some name → (Severity.ofName? name).isSome = true) ∧
      r.withSeverity? name? =
        .ok { r with severity := (name?.bind Severity.ofName?).getD r.severity }) ∨
    ∃ name, name? = some name ∧ Severity.ofName? name = none ∧
      r.withSeverity? name? = .error (.unknownSeverity r.id name) := by
  cases name? with
  | none => exact .inl ⟨nofun, rfl⟩
  | some name =>
    cases hname : Severity.ofName? name with
    | none => exact .inr ⟨name, rfl, hname, by rw [withSeverity?, withSeverity, hname]⟩
    | some s =>
      refine .inl ⟨?_, ?_⟩
      · intro name' h
        obtain rfl := Option.some.inj h
        rw [hname]
        rfl
      · simp [withSeverity?, withSeverity, hname]

theorem withConfig_eq (r : Rule) (c : RuleConfig) :
    r.withConfig c = r.withSeverity? c.severity >>= fun r =>
      c.options.foldlM (fun r (o : String × ConfigValue) => r.withOption o.1 o.2)
        { r with message := c.message.or r.message } := by
  unfold withConfig
  cases c.severity <;> rfl

theorem withConfig_cases {r : Rule} (hr : Keyed.Sorted r.options) (c : RuleConfig) :
    ((RuleEntry.full c).IsValid ∧ ∃ r', r.withConfig c = .ok r' ∧ (RuleEntry.full c).Sets r r') ∨
      ∃ fault, (RuleEntry.full c).Faulty r.id fault ∧ r.withConfig c = .error fault := by
  obtain ⟨hseverity, hr₀⟩ | ⟨name, hname, hnone, hfault⟩ := r.withSeverity?_cases c.severity
  · set r₀ : Rule := { r with severity := (c.severity.bind Severity.ofName?).getD r.severity }
    have hconfig : r.withConfig c =
        c.options.foldlM (fun r (o : String × ConfigValue) => r.withOption o.1 o.2)
          { r₀ with message := c.message.or r₀.message } := by
      rw [withConfig_eq, hr₀]
      rfl
    cases hfirst : c.options.find? fun o => !o.2.isOption with
    | none =>
      have hoptions : ∀ o ∈ c.options, o.2.isOption = true := by
        intro o ho
        simpa using List.find?_eq_none.1 hfirst o ho
      obtain ⟨out, hout, hsorted, hfind⟩ := withOptions_of_options hoptions
        (r := { r₀ with message := c.message.or r₀.message }) hr
      exact .inl ⟨⟨hseverity, hoptions⟩, _, hconfig.trans hout,
        ⟨rfl, rfl, rfl, rfl, rfl, hfind, hsorted⟩⟩
    | some o =>
      obtain ⟨key, value⟩ := o
      obtain ⟨hvalue, before, after, hoptions, hbefore⟩ := List.find?_eq_some_iff_append.1 hfirst
      replace hvalue : value.isOption = false := by simpa using hvalue
      replace hbefore : ∀ o ∈ before, o.2.isOption = true := by simpa using hbefore
      refine .inr ⟨_, .option hseverity hoptions hbefore hvalue, ?_⟩
      rw [hconfig, hoptions]
      exact withOptions_of_not_option hbefore hvalue hr
  · refine .inr ⟨_, .severity hname hnone, ?_⟩
    rw [withConfig_eq, hfault]
    rfl

end Rule

/-- **What becomes of a rule with an entry**: it is turned off, or configured, or there is a fault
in the entry. -/
theorem RuleEntry.configure_cases {r : Rule} (hr : Keyed.Sorted r.options) (e : RuleEntry) :
    (e.disables = true ∧ e.configure r = .ok none) ∨
    (e.disables = false ∧ e.IsValid ∧ ∃ r', e.configure r = .ok (some r') ∧ e.Sets r r') ∨
    (e.disables = false ∧ ∃ fault, e.Faulty r.id fault ∧ e.configure r = .error fault) := by
  cases e with
  | toggle enabled =>
    cases enabled with
    | false => exact .inl ⟨rfl, rfl⟩
    | true =>
      have hvalid : (toggle true).IsValid := ⟨by simp [severityName?], by simp [options]⟩
      have hsets : (toggle true).Sets r r :=
        ⟨rfl, rfl, rfl, rfl, rfl, by simp [options, Keyed.find?], hr⟩
      exact .inr (.inl ⟨rfl, hvalid, r, rfl, hsets⟩)
  | level name =>
    cases hoff : isOff name with
    | true => exact .inl ⟨hoff, by rw [configure, if_pos hoff]⟩
    | false =>
      have hlevel : (level name).configure r = (r.withSeverity name).map some := by
        rw [configure, hoff]
        rfl
      obtain ⟨hseverity, hr₀⟩ | ⟨_, hname, hnone, hfault⟩ := r.withSeverity?_cases (some name)
      · have hvalid : (level name).IsValid := ⟨hseverity, by simp [options]⟩
        refine .inr (.inl ⟨hoff, hvalid, _, hlevel.trans (congrArg _ hr₀), ?_⟩)
        exact ⟨rfl, rfl, rfl, rfl, rfl, by simp [options, Keyed.find?], hr⟩
      · obtain rfl := Option.some.inj hname
        exact .inr (.inr ⟨hoff, _, .severity rfl hnone, hlevel.trans (congrArg _ hfault)⟩)
  | full c =>
    cases henabled : c.enabled with
    | false => exact .inl ⟨by simp [disables, henabled], by simp [configure, henabled]⟩
    | true =>
      have hdisables : (full c).disables = false := by simp [disables, henabled]
      have hfull : (full c).configure r = (r.withConfig c).map some := by
        rw [configure, henabled]
        rfl
      obtain ⟨hvalid, r', hr', hsets⟩ | ⟨fault, hfaulty, hfault⟩ := r.withConfig_cases hr c
      · exact .inr (.inl ⟨hdisables, hvalid, r', hfull.trans (congrArg _ hr'), hsets⟩)
      · exact .inr (.inr ⟨hdisables, fault, hfaulty, hfull.trans (congrArg _ hfault)⟩)

/-! ## Applying a ruleset -/

namespace Ruleset

def entry? (s : Ruleset) (id : String) : Option RuleEntry := Keyed.find? id s.rules

/-- The ruleset turns the rule off. -/
def disables (s : Ruleset) (id : String) : Bool := (s.entry? id).any (·.disables)

/-- The entry for the rule, if there is one that does not turn it off, is valid. -/
def Accepts (s : Ruleset) (id : String) : Prop :=
  ∀ e, s.entry? id = some e → e.disables = false → e.IsValid

/-- What the ruleset makes of a rule that it does not turn off. -/
inductive Configures (s : Ruleset) (r : Rule) : Rule → Prop
  | asItIs : s.entry? r.id = none → Configures s r r
  | sets {e : RuleEntry} {r' : Rule} : s.entry? r.id = some e → e.Sets r r' → Configures s r r'

/-- The fault is that of the first rule that is not accepted. -/
def FirstFault (s : Ruleset) (rules : List Rule) (fault : RulesetFault) : Prop :=
  ∃ front r back e, rules = front ++ r :: back ∧ (∀ q ∈ front, s.Accepts q.id) ∧
    s.entry? r.id = some e ∧ e.disables = false ∧ e.Faulty r.id fault

variable {s : Ruleset}

theorem FirstFault.not_accepts {rules : List Rule} {fault : RulesetFault}
    (h : s.FirstFault rules fault) : ¬∀ r ∈ rules, s.Accepts r.id := by
  intro haccepts
  obtain ⟨front, r, back, e, hrules, -, hentry, hdisables, hfaulty⟩ := h
  exact hfaulty.not_isValid
    (haccepts r (hrules ▸ List.mem_append_cons_self) e hentry hdisables)

theorem configure_cases (s : Ruleset) {r : Rule} (hr : Keyed.Sorted r.options) :
    (s.Accepts r.id ∧ s.disables r.id = true ∧ s.configure r = .ok none) ∨
    (s.Accepts r.id ∧ s.disables r.id = false ∧
      ∃ r', s.configure r = .ok (some r') ∧ s.Configures r r') ∨
    ∃ e fault, s.entry? r.id = some e ∧ e.disables = false ∧ e.Faulty r.id fault ∧
      s.configure r = .error fault := by
  cases hentry : s.entry? r.id with
  | none =>
    have hconfigure : s.configure r = .ok (some r) := by
      rw [configure, show Keyed.find? r.id s.rules = none from hentry]
    refine .inr (.inl ⟨?_, by simp [disables, hentry], r, hconfigure, .asItIs hentry⟩)
    intro e he
    rw [hentry] at he
    cases he
  | some e =>
    have hconfigure : s.configure r = e.configure r := by
      rw [configure, show Keyed.find? r.id s.rules = some e from hentry]
    have hs : s.disables r.id = e.disables := by simp [disables, hentry]
    have haccepts : (e.disables = false → e.IsValid) → s.Accepts r.id := by
      intro h e' he' hdisables
      obtain rfl := Option.some.inj (hentry.symm.trans he')
      exact h hdisables
    rw [hs, hconfigure]
    obtain ⟨hdisables, hoff⟩ | ⟨hdisables, hvalid, r', hr', hsets⟩ |
      ⟨hdisables, fault, hfaulty, hfault⟩ := e.configure_cases hr
    · exact .inl ⟨haccepts fun h => absurd (hdisables.symm.trans h) nofun, hdisables, hoff⟩
    · exact .inr (.inl ⟨haccepts fun _ => hvalid, hdisables, r', hr', .sets hentry hsets⟩)
    · exact .inr (.inr ⟨e, fault, rfl, hdisables, hfaulty, hfault⟩)

/-- What comes of applying a ruleset to rules: something is made of all rules that it does not turn
off, or it stops at the first fault. -/
inductive Settles (s : Ruleset) (rules : List Rule) : Except RulesetFault (List Rule) → Prop
  | applied {out : List Rule} : (∀ r ∈ rules, s.Accepts r.id) →
      List.Forall₂ s.Configures (rules.filter fun r => !s.disables r.id) out →
      Settles s rules (.ok out)
  | stopped {fault : RulesetFault} : s.FirstFault rules fault → Settles s rules (.error fault)

theorem FirstFault.cons {rules : List Rule} {fault : RulesetFault} (h : s.FirstFault rules fault)
    {r : Rule} (haccepts : s.Accepts r.id) : s.FirstFault (r :: rules) fault := by
  obtain ⟨front, q, back, e, hrules, hfront, hfaulty⟩ := h
  refine ⟨r :: front, q, back, e, ?_, List.forall_mem_cons.2 ⟨haccepts, hfront⟩, hfaulty⟩
  rw [hrules, List.cons_append]

/-- A rule that is accepted leaves the matter to the others. -/
theorem Settles.cons {r : Rule} {rest : List Rule} {configured : Option Rule}
    (h : s.Settles rest (s.applyTo rest)) (hconfigured : s.configure r = .ok configured)
    (haccepts : s.Accepts r.id)
    (hhead : List.Forall₂ s.Configures ([r].filter fun r => !s.disables r.id) configured.toList) :
    s.Settles (r :: rest) (s.applyTo (r :: rest)) := by
  rw [applyTo, hconfigured]
  generalize s.applyTo rest = result at h ⊢
  cases h with
  | applied hall hforall =>
    apply Settles.applied
    · exact List.forall_mem_cons.2 ⟨haccepts, hall⟩
    · rw [← List.singleton_append, List.filter_append]
      exact List.rel_append hhead hforall
  | stopped hfirst =>
    apply Settles.stopped
    exact hfirst.cons haccepts

theorem applyTo_settles (s : Ruleset) {rules : List Rule}
    (hrules : ∀ r ∈ rules, Keyed.Sorted r.options) : s.Settles rules (s.applyTo rules) := by
  induction rules with
  | nil => exact .applied nofun .nil
  | cons r rest ih =>
    obtain ⟨hr, hrest⟩ := List.forall_mem_cons.1 hrules
    obtain ⟨haccepts, hdisables, hoff⟩ | ⟨haccepts, hdisables, r', hr', hconfigures⟩ |
      ⟨e, fault, hentry, hdisables, hfaulty, hfault⟩ := s.configure_cases hr
    · apply (ih hrest).cons hoff haccepts
      simp [hdisables]
    · apply (ih hrest).cons hr' haccepts
      simp [hdisables, hconfigures]
    · rw [applyTo, hfault]
      apply Settles.stopped
      exact ⟨[], r, rest, e, rfl, nofun, hentry, hdisables, hfaulty⟩

theorem Configures.id_eq {r r' : Rule} (h : s.Configures r r') : r'.id = r.id := by
  cases h with
  | asItIs => rfl
  | sets _ hsets => exact hsets.id

theorem map_id_of_configures {rules out : List Rule} (h : List.Forall₂ s.Configures rules out) :
    out.map (·.id) = rules.map (·.id) := by
  induction h with
  | nil => rfl
  | cons hr _ ih => rw [List.map_cons, List.map_cons, hr.id_eq, ih]

theorem configure_congr {s' : Ruleset} {r : Rule} (h : s'.entry? r.id = s.entry? r.id) :
    s'.configure r = s.configure r := by
  rw [configure, configure, show Keyed.find? r.id s'.rules = Keyed.find? r.id s.rules from h]

theorem applyTo_congr {s' : Ruleset} {rules : List Rule}
    (h : ∀ r ∈ rules, s'.entry? r.id = s.entry? r.id) : s'.applyTo rules = s.applyTo rules := by
  induction rules with
  | nil => rfl
  | cons r rest ih =>
    obtain ⟨hr, hrest⟩ := List.forall_mem_cons.1 h
    rw [applyTo, applyTo, configure_congr hr, ih hrest]

end Ruleset

namespace Catalog

theorem sorted_options : ∀ r ∈ rules, Keyed.Sorted r.options := by
  intro r hr
  obtain ⟨e, -, rfl⟩ := List.mem_map.1 hr
  exact .nil

theorem nodup_ids : (rules.map (·.id)).Nodup := by decide

theorem isSome_find? {r : Rule} (hr : r ∈ rules) : (find? r.id).isSome = true := by
  obtain ⟨e, he, rfl⟩ := List.mem_map.1 hr
  exact List.find?_isSome.2 ⟨e, he, beq_self_eq_true _⟩

end Catalog

/-- **A ruleset is applied as a whole or not at all.** It can be applied exactly if every built-in
rule whose entry does not turn it off has a severity that can be read, if any, and options that are
texts, numbers or booleans. If so, the result are the built-in rules that are not turned off, in the
order of the catalog and each once; those without an entry are as they were, the others are so but
for what their entries set. If not, the fault is the first one of the first rule that has one. What
the ruleset says of other rules has no part in this. -/
theorem Ruleset.apply_whole (s : Ruleset) :
    ((∃ rules, s.apply = .ok rules) ↔ ∀ r ∈ Catalog.rules, s.Accepts r.id) ∧
    (∀ rules, s.apply = .ok rules →
      List.Forall₂ s.Configures (Catalog.rules.filter fun r => !s.disables r.id) rules ∧
        (rules.map (·.id)).Nodup) ∧
    (∀ fault, s.apply = .error fault → s.FirstFault Catalog.rules fault) ∧
    ∀ s' : Ruleset, (∀ id, (Catalog.find? id).isSome = true → s'.entry? id = s.entry? id) →
      s'.apply = s.apply := by
  have hcongr : ∀ s' : Ruleset,
      (∀ id, (Catalog.find? id).isSome = true → s'.entry? id = s.entry? id) →
        s'.apply = s.apply :=
    fun s' h => applyTo_congr fun r hr => h r.id (Catalog.isSome_find? hr)
  have hsettles : s.Settles Catalog.rules s.apply := s.applyTo_settles Catalog.sorted_options
  refine ⟨⟨?_, ?_⟩, ?_, ?_, hcongr⟩
  · intro h
    obtain ⟨rules, hrules⟩ := h
    rw [hrules] at hsettles
    cases hsettles with
    | applied haccepts _ => exact haccepts
  · intro haccepts
    cases hresult : s.apply with
    | ok rules => exact ⟨rules, rfl⟩
    | error fault =>
      rw [hresult] at hsettles
      cases hsettles with
      | stopped hfirst => exact absurd haccepts hfirst.not_accepts
  · intro rules hrules
    rw [hrules] at hsettles
    cases hsettles with
    | applied _ hforall =>
      refine ⟨hforall, ?_⟩
      rw [map_id_of_configures hforall]
      exact Catalog.nodup_ids.sublist (List.filter_sublist.map _)
  · intro fault hfault
    rw [hfault] at hsettles
    cases hsettles with
    | stopped hfirst => exact hfirst

/-- A ruleset with an option that is null. -/
def Ruleset.blank : String :=
  "rules:\n  oasComponentDescriptions:\n    options:\n      minWords: null\n"

/-- Options that are scalars do not make a ruleset applicable, as null is refused. -/
theorem Ruleset.exists_scalar_refused : ∃ s, ofText blank = .ok s ∧
    (∀ r ∈ Catalog.rules, ∀ e ∈ s.entry? r.id, e.disables = false ∧ e.severityName? = none ∧
      ∀ o ∈ e.options, o.2.isScalar = true) ∧
    s.apply = .error (.invalidOption "oasComponentDescriptions" "minWords") := by
  have hrun : (ofText blank).toOption.any (fun s => decide (
      (∀ r ∈ Catalog.rules, ∀ e ∈ s.entry? r.id, e.disables = false ∧ e.severityName? = none ∧
        ∀ o ∈ e.options, o.2.isScalar = true) ∧
      s.apply = .error (.invalidOption "oasComponentDescriptions" "minWords"))) = true := by
    decide +kernel
  cases hs : ofText blank with
  | error fault =>
    rw [hs] at hrun
    cases hrun
  | ok s =>
    rw [hs] at hrun
    exact ⟨s, rfl, of_decide_eq_true hrun⟩

end ApiLint
