import ApiLint.Proofs.FindingSpots
import ApiLint.Proofs.RepeatedKeys
import ApiLint.Proofs.Spans

/-!
# From where to where findings reach

A finding reaches from one mark to another, and the two may come from different nodes: that of a key
and the end of its value, or that of a keyword and the end of an example.

* **What the loader reads off an ordered tree** is ordered (`Place.Ordered`): every place that is read
  (`ReadAfter.ordered`), so every origin and every example of the document (`Document.Ordered`).
* **At each spot** the two marks then are in order, with two exceptions (`Document.Spot.spans`). A
  value that was copied keeps its own marks, while its key stands where the anchor is used. And of
  several examples of a schema the first is its example, but the last is where its keyword stands.

`finding_spans` says the same of the findings of all checks. What it supposes of the events of a text
is `Yaml.inOrder`.
-/

set_option autoImplicit false

namespace ApiLint

open Yaml (Node Mark Event Copied EndsBehind inOrder documentEvents)

/-! ## Nodes read off ordered nodes -/

namespace Yaml.Node.Ordered

variable {events : List Event} {n key value : Node} {text : String}

theorem of_mem_entries {entries : List (Node × Node)} {span : Span}
    (h : Node.Ordered events (.mapping entries span)) (he : (key, value) ∈ entries) :
    value.Ordered events ∧ EndsBehind events key value := by
  cases h with
  | mapping _ hvalues hkeys => exact ⟨hvalues _ he, hkeys _ he⟩

theorem of_entry (h : n.Ordered events) (he : n.entry? text = some (key, value)) :
    value.Ordered events ∧ EndsBehind events key value := by
  obtain ⟨entries, span, rfl, hmem⟩ := mem_of_entry he
  exact h.of_mem_entries hmem

theorem of_get (h : n.Ordered events) (hv : n.get? text = some value) : value.Ordered events := by
  obtain ⟨key, he⟩ := entry_of_get hv
  exact (h.of_entry he).1

theorem of_mem_fields (h : n.Ordered events) (hf : (text, key, value) ∈ n.fields) :
    value.Ordered events ∧ EndsBehind events key value := by
  obtain ⟨⟨key', value'⟩, he, hfield⟩ := List.mem_map.1 hf
  cases hfield
  cases n with
  | scalar _ _ => cases he
  | sequence _ _ => cases he
  | mapping entries span => exact h.of_mem_entries he

theorem of_mem_itemsAt (h : n.Ordered events) (hv : value ∈ (n.itemsAt? text).getD []) :
    value.Ordered events := by
  unfold itemsAt? at hv
  cases hget : n.get? text with
  | none => simp [hget] at hv
  | some m =>
    have hm := h.of_get hget
    rw [hget, Option.bind_some] at hv
    cases hm with
    | scalar _ => cases hv
    | sequence _ hitems => exact hitems value hv
    | mapping _ _ _ => cases hv

end Yaml.Node.Ordered

/-! ## Places -/

/-- The two marks are in order, or those of a key and of the end of what was copied under it. -/
def Spans (events : List Event) (start stop : Mark) : Prop :=
  start.le stop = true ∨
    ∃ key value, Copied events key value ∧ start = key.mark ∧ stop = value.stop

theorem Yaml.EndsBehind.spans {events : List Event} {key value : Node}
    (h : EndsBehind events key value) : Spans events key.mark value.stop :=
  h.imp_right fun hcopied => ⟨key, value, hcopied, rfl, rfl⟩

/-- The node is ordered, and reaches from its key to its end. -/
structure Place.Ordered (events : List Event) (p : Place) : Prop where
  node : p.node.Ordered events
  origin : Spans events p.origin.keyMark p.origin.stop

section
variable {events : List Event}

theorem Member.ordered_of_mem_places {m : Member} {node : Node} {l : Location} {q : Place}
    (hnode : node.Ordered events) (h : q ∈ m.places node l) : q.Ordered events := by
  cases holds_of_mem_places h with
  | value he =>
    obtain ⟨hvalue, hkey⟩ := hnode.of_entry he
    exact ⟨hvalue, hkey.spans⟩
  | entry hmap he =>
    obtain ⟨hvalue, hkey⟩ := (hnode.of_get hmap).of_mem_fields he
    exact ⟨hvalue, hkey.spans⟩
  | item he =>
    have hvalue := hnode.of_mem_itemsAt (List.fst_mem_of_mem_zipIdx he)
    exact ⟨hvalue, .inl hvalue.mark_le_stop⟩

namespace Place.Ordered

theorem of_mem_parts {v : SpecVersion} {p q : Place} (hp : p.Ordered events)
    (h : q ∈ p.parts v) : q.Ordered events := by
  rcases (mem_parts h).2 with ⟨m, -, hq⟩ | ⟨-, hq⟩
  · exact Member.ordered_of_mem_places hp.node hq
  · obtain ⟨method, key, value, hfield, -, rfl⟩ := mem_operations hq
    obtain ⟨hvalue, hkey⟩ := hp.node.of_mem_fields hfield
    exact ⟨hvalue, hkey.spans⟩

end Place.Ordered

section
variable {v : SpecVersion} {root : Node} (hroot : root.Ordered events)
include hroot

theorem ordered_of_mem_componentPlaces {e : Place} (h : e ∈ componentPlaces v root) :
    e.Ordered events := by
  rcases exists_of_mem_componentPlaces h with ⟨x, -, he⟩ | ⟨node, kind, hg, he⟩
  · exact Member.ordered_of_mem_places hroot he
  · exact Member.ordered_of_mem_places (hroot.of_get hg) he

/-- **Every place of an ordered document is ordered.** -/
theorem ReadAfter.ordered {h : List Place} {p : Place} (hp : ReadAfter v root h p) :
    p.Ordered events := by
  induction hp with
  | @entry ps qs e hcut =>
    have he : e.Ordered events :=
      ordered_of_mem_componentPlaces hroot (hcut ▸ List.mem_append_cons_self)
    exact ⟨by rw [Place.node_held]; exact he.node, by rw [Place.origin_held]; exact he.origin⟩
  | component hcut =>
    exact ordered_of_mem_componentPlaces hroot (hcut ▸ List.mem_append_cons_self)
  | @path ps qs e hcut =>
    have he : e ∈ pathPlaces root := hcut ▸ List.mem_append_cons_self
    exact Member.ordered_of_mem_places hroot (List.mem_filter.1 he).1
  | own _ _ ih => exact ⟨ih.node, ih.origin⟩
  | part _ hcut ih => exact ih.of_mem_parts (hcut ▸ List.mem_append_cons_self)

end

end

/-! ## What a document holds -/

/-- The schema has several examples: `value` is that of the first, `key` the key of the last. -/
def Schema.RepeatsExample (s : Schema) (value key : Node) : Prop :=
  ∃ before first between last rest span,
    s.node = .mapping (before ++ first :: (between ++ last :: rest)) span ∧
      first.1.str? = some "example" ∧ first.2 = value ∧ last.1.keyText = "example" ∧ last.1 = key

theorem Schema.RepeatsExample.isSome_get? {s : Schema} {value key : Node}
    (h : s.RepeatsExample value key) : (s.node.get? "example").isSome = true := by
  obtain ⟨before, first, between, last, rest, span, hnode, hfirst, -⟩ := h
  have hmem : first ∈ before ++ first :: (between ++ last :: rest) := List.mem_append_cons_self
  rw [hnode, Node.get?, Option.isSome_map]
  exact List.find?_isSome.2 ⟨first, hmem, by simp [hfirst]⟩

namespace Document

variable {events : List Event} {d : Document}

/-- What is read off the nodes of a document for the spans of findings: all of it is in order but
for copies and repeated examples. -/
structure Ordered (events : List Event) (d : Document) : Prop where
  origins : ∀ o, d.HasOrigin o → Spans events o.keyMark o.stop
  schemaExample : ∀ s ∈ d.schemas, ∀ value, s.exampleValue = some value →
    Spans events (s.keywordMark "example") value.stop ∨
      ∃ key, s.RepeatsExample value key ∧ s.keywordMark "example" = key.mark
  schemaExamples : ∀ s ∈ d.schemas, ∀ value ∈ s.exampleValues.getD [], value.Ordered events
  holderExample : ∀ x holder value, Container.holder? d x = some holder →
    holder.exampleValue = some value → value.Ordered events
  namedValue : ∀ id e value, d.namedExample? id = some e → e.value = some value →
    value.Ordered events

/-- An object is read off an ordered node. -/
theorem Loaded.exists_ordered {draft : Draft} (hd : d.Loaded draft)
    (hroot : d.root.Ordered events) {s : Store} (hs : s ≠ .components) {x : s.Object}
    (hx : x ∈ d.arena s) : ∃ p : Place, p.node.Ordered events ∧ p.ReadOff s x := by
  rw [hd.arena_eq hs] at hx
  obtain ⟨i, hi⟩ := Array.mem_iff_getElem?.1 hx
  obtain ⟨h, p, hp, -, -, -, -, hread⟩ := hd.place_of_arena_readOff hi
  exact ⟨p, (hp.ordered hroot).node, hread⟩

/-- The keyword of an example is the key of its value, or that of another example. -/
theorem spans_of_example {root : Node} (h : ofNode root = .ok d) {s : Schema} (hs : s ∈ d.schemas)
    (hnode : s.node.Ordered events) {value : Node} (hvalue : s.node.get? "example" = some value) :
    Spans events (s.keywordMark "example") value.stop ∨
      ∃ key, s.RepeatsExample value key ∧ s.keywordMark "example" = key.mark := by
  obtain ⟨key, hentry⟩ := Node.entry_of_get hvalue
  obtain ⟨-, hkey⟩ := hnode.of_entry hentry
  obtain ⟨entries, span, hmapping, -⟩ := Node.mem_of_entry hentry
  rw [hmapping] at hentry
  obtain ⟨hfirst, before, after, rfl, -⟩ := List.find?_eq_some_iff_append.1 hentry
  have hfirst : key.str? = some "example" := by simpa using hfirst
  obtain ⟨between, last, rest, hcut, hlast, hrest⟩ :=
    exists_last_of_mem (p := fun e : Node × Node => e.1.keyText = "example")
      (List.mem_cons_self (a := (key, value)) (l := after)) (Node.keyText_of_str? hfirst)
  have hmark : s.keywordMark "example" = last.1.mark := by
    rw [hcut, ← List.append_assoc] at hmapping
    exact Node.keywordMark_of_last hlast hrest h hs hmapping
  rw [hmark]
  obtain ⟨rfl, hsame⟩ | ⟨between, rfl, hafter⟩ := List.cons_eq_append_iff.1 hcut
  · obtain ⟨rfl, -⟩ := List.cons.inj hsame
    exact .inl hkey.spans
  · refine .inr ⟨last.1, ⟨before, (key, value), between, last, rest, span, ?_, hfirst, rfl, hlast,
      rfl⟩, rfl⟩
    rw [hmapping, hafter]

theorem ordered_of_ofNode {root : Node} (hroot : root.Ordered events) (h : ofNode root = .ok d) :
    d.Ordered events := by
  obtain ⟨rfl, draft, hd⟩ := loaded_of_ofNode h
  have hexample : ∀ x holder value, Container.holder? d x = some holder →
      holder.exampleValue = some value → value.Ordered events := by
    intro x holder value hx hvalue
    cases x with
    | parameter id =>
      obtain ⟨object, hobject, rfl⟩ := Option.map_eq_some_iff.1 hx
      obtain ⟨p, hp, -, -, -, -, hread⟩ :=
        hd.exists_ordered hroot (s := .parameters) nofun (Array.mem_of_getElem? hobject)
      exact hp.of_get (hread.symm.trans hvalue)
    | header id =>
      obtain ⟨object, hobject, rfl⟩ := Option.map_eq_some_iff.1 hx
      obtain ⟨p, hp, -, hread⟩ :=
        hd.exists_ordered hroot (s := .headers) nofun (Array.mem_of_getElem? hobject)
      exact hp.of_get (hread.symm.trans hvalue)
    | mediaType id =>
      obtain ⟨object, hobject, rfl⟩ := Option.map_eq_some_iff.1 hx
      obtain ⟨p, hp, hread⟩ :=
        hd.exists_ordered hroot (s := .mediaTypes) nofun (Array.mem_of_getElem? hobject)
      exact hp.of_get (Eq.trans (Eq.symm hread) hvalue)
  have hschema : ∀ s ∈ d.schemas, s.node.Ordered events ∧
      s.exampleValue = s.node.get? "example" ∧ s.exampleValues = s.node.itemsAt? "examples" := by
    intro s hs
    obtain ⟨p, hp, hread⟩ := hd.exists_ordered hroot (s := .schemas) nofun hs
    rw [hread]
    exact ⟨hp, rfl, rfl⟩
  refine ⟨fun o ho => ?_, fun s hs value hvalue => ?_, fun s hs value hvalue => ?_, hexample,
    fun id e value he hvalue => ?_⟩
  · obtain ⟨_, p, hp, rfl⟩ := hd.exists_place_of_origin ho
    exact (hp.ordered hroot).origin
  · obtain ⟨hnode, hread, -⟩ := hschema s hs
    exact spans_of_example h hs hnode (hread.symm.trans hvalue)
  · obtain ⟨hnode, -, hread⟩ := hschema s hs
    exact hnode.of_mem_itemsAt (hread ▸ hvalue)
  · obtain ⟨p, hp, -, -, hread, -⟩ :=
      hd.exists_ordered hroot (s := .namedExamples) nofun (Array.mem_of_getElem? he)
    exact hp.of_get (hread.symm.trans hvalue)

end Document

/-! ## Findings -/

/-- A spot reaches from a mark to a later one, from a key to the end of what was copied under it, or
from the last example of a schema to the end of the first. -/
theorem Document.Spot.spans {events : List Event} {d : Document} (hd : d.Ordered events)
    {l : Location} {start stop : Mark} (h : d.Spot l start stop) :
    Spans events start stop ∨ ∃ s ∈ d.schemas, ∃ value key, s.RepeatsExample value key ∧
      start = key.mark ∧ stop = value.stop := by
  cases h with
  | options => exact .inl (.inl (Mark.le_refl _))
  | whole ho => exact .inl (hd.origins _ ho)
  | key ho => exact .inl (.inl (Mark.le_refl _))
  | keyword hs _ | keywordItem i hs _ | keywordEntry name hs _ =>
    exact .inl (.inl (Mark.le_refl _))
  | @schemaExample s value hs hvalue =>
    obtain hspans | ⟨key, hrepeats, hmark⟩ := hd.schemaExample s hs value hvalue
    · exact .inl hspans
    · exact .inr ⟨s, hs, value, key, hrepeats, hmark, rfl⟩
  | schemaExamples i hs hvalue =>
    exact .inl (.inl (hd.schemaExamples _ hs _ hvalue).mark_le_stop)
  | holderExample hx hvalue =>
    exact .inl (.inl (hd.holderExample _ _ _ hx hvalue).mark_le_stop)
  | holderNamed name _ he => exact .inl (hd.origins _ (hasOrigin_namedExample he))
  | namedValue he hvalue => exact .inl (.inl (hd.namedValue _ _ _ he hvalue).mark_le_stop)

/-- The document of a text is that of the tree that its events give. -/
theorem Document.exists_root_of_ofSource {source : String} {events : List Event} {d : Document}
    (hevents : documentEvents source = .ok events) (hd : Document.ofSource source = .ok d) :
    ∃ root, Node.ofEvents events = .ok root ∧ Document.ofNode root = .ok d := by
  rw [Document.ofSource, Node.ofSource_of_documentEvents hevents] at hd
  cases hroot : Node.ofEvents events with
  | error fault =>
    rw [hroot] at hd
    cases hd
  | ok root =>
    rw [hroot] at hd
    exact ⟨root, rfl, hd⟩

/-- **Which findings end before they start.** Suppose that of the events of a text no collection ends
before its start, and no value starts before its key. A finding of any check ends before it starts
exactly if it reaches from a key to the end of a node that the use of an anchor has put under it, or
from the last of several examples of a schema to the end of the first, and that is the wrong order
there. -/
theorem finding_spans {source : String} {events : List Event} {d : Document} {c : RuleContext}
    {check : Check} {f : Finding} (hevents : documentEvents source = .ok events)
    (horder : inOrder events = true) (hd : Document.ofSource source = .ok d)
    (hdoc : c.document = some d) (hcheck : check ∈ Catalog.checks) (hf : f ∈ check.evaluate c) :
    f.start.le f.stop = false ↔
      (∃ key value, Copied events key value ∧ f.start = key.mark ∧ f.stop = value.stop ∧
        key.mark.le value.stop = false) ∨
      ∃ s ∈ d.schemas, ∃ value key, s.RepeatsExample value key ∧ f.start = key.mark ∧
        f.stop = value.stop ∧ key.mark.le value.stop = false := by
  obtain ⟨root, hroot, hload⟩ := Document.exists_root_of_ofSource hevents hd
  have hordered := Document.ordered_of_ofNode (Node.ordered_of_ofEvents horder hroot) hload
  obtain ⟨l, hspot, -⟩ := RuleContext.standsIn_evaluate hdoc hcheck f hf
  constructor
  · intro hout
    obtain (hin | ⟨key, value, hcopied, hstart, hstop⟩) | ⟨s, hs, value, key, hrepeats, hstart, hstop⟩ :=
      hspot.spans hordered
    · rw [hin] at hout
      cases hout
    · rw [hstart, hstop] at hout
      exact .inl ⟨key, value, hcopied, hstart, hstop, hout⟩
    · rw [hstart, hstop] at hout
      exact .inr ⟨s, hs, value, key, hrepeats, hstart, hstop, hout⟩
  · rintro (⟨key, value, -, hstart, hstop, hout⟩ | ⟨s, -, value, key, -, hstart, hstop, hout⟩)
    · rw [hstart, hstop]
      exact hout
    · rw [hstart, hstop]
      exact hout

/-- A document with a schema that is copied under the key of another. -/
def shared : String :=
  "openapi: 3.0.0\ncomponents:\n  schemas:\n    A: &a \x7btype: object\x7d\n    B: *a\n"

/-- The second component is reported from its key back to the end of the first. -/
theorem shared_inverts : ∃ events d f, documentEvents shared = .ok events ∧
    inOrder events = true ∧ Document.ofSource shared = .ok d ∧
    (∀ s ∈ d.schemas, s.node.get? "example" = none) ∧
    f ∈ Check.ComponentDescription.check.evaluate (Check.ComponentDescription.check.contextOf d) ∧
    f.start.le f.stop = false := by
  have hrun : ((documentEvents shared).toOption.bind fun events =>
      (Document.ofSource shared).toOption.bind fun d =>
        ((Check.ComponentDescription.check.evaluate
          (Check.ComponentDescription.check.contextOf d))[1]?).map fun f =>
            (inOrder events, d.schemas.all fun s => (s.node.get? "example").isNone,
              f.start.le f.stop)) = some (true, true, false) := by
    decide +kernel
  obtain ⟨events, hevents, he⟩ := Option.bind_eq_some_iff.1 hrun
  obtain ⟨d, hd, he⟩ := Option.bind_eq_some_iff.1 he
  obtain ⟨f, hf, he⟩ := Option.map_eq_some_iff.1 he
  obtain ⟨horder, he⟩ := Prod.mk.inj he
  obtain ⟨hexamples, hout⟩ := Prod.mk.inj he
  refine ⟨events, d, f, eq_ok_of_toOption hevents, horder, eq_ok_of_toOption hd, fun s hs => ?_,
    List.mem_of_getElem? hf, hout⟩
  obtain ⟨i, hi, rfl⟩ := Array.mem_iff_getElem.1 hs
  exact Option.isNone_iff_eq_none.1 (Array.all_eq_true.1 hexamples i hi)

theorem finding_spans_shared : ∃ events d f, documentEvents shared = .ok events ∧
    inOrder events = true ∧ Document.ofSource shared = .ok d ∧
    f ∈ Check.ComponentDescription.check.evaluate (Check.ComponentDescription.check.contextOf d) ∧
    ∃ key value, Copied events key value ∧ f.start = key.mark ∧ f.stop = value.stop ∧
      key.mark.le value.stop = false := by
  obtain ⟨events, d, f, hevents, horder, hd, hexamples, hf, hout⟩ := shared_inverts
  have hcheck : Check.ComponentDescription.check ∈ Catalog.checks := by
    simp [Catalog.checks, Catalog.all]
  refine ⟨events, d, f, hevents, horder, hd, hf, ?_⟩
  obtain hcopied | ⟨s, hs, value, key, hrepeats, -⟩ :=
    (finding_spans hevents horder hd rfl hcheck hf).1 hout
  · exact hcopied
  · have hsome := hrepeats.isSome_get?
    rw [hexamples s hs] at hsome
    cases hsome

/-- A finding can end before it starts. -/
theorem exists_finding_inverted : ∃ source events d f, documentEvents source = .ok events ∧
    inOrder events = true ∧ Document.ofSource source = .ok d ∧
    f ∈ Check.ComponentDescription.check.evaluate (Check.ComponentDescription.check.contextOf d) ∧
    f.start.le f.stop = false := by
  obtain ⟨events, d, f, hevents, horder, hd, -, hf, hout⟩ := shared_inverts
  exact ⟨shared, events, d, f, hevents, horder, hd, hf, hout⟩

end ApiLint
