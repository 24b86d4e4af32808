import ApiLint.Proofs.CopyBudget

/-!
# Trees and their events

A tree is written out as a sequence of events: each collection between its two ends, and in place of
a node that stands elsewhere too the use of its anchor. `Serial` is such a tree, `Serial.events` its
events, and `Serial.compose` the document tree that it stands for, told by recursion: the nodes
completed so far are remembered under their anchors, and a use of an anchor is the node that it
stands for then.

The builder, which gets one event after the other and keeps the open collections on a stack, arrives
at the same tree (`Serial.composes`), as long as the copies keep to the budget.
-/

set_option autoImplicit false

namespace ApiLint.Yaml

/-- A tree as it is written out, with the numbers of its anchors; zero stands for none. -/
inductive Serial where
  | scalar (text : String) (style : ScalarStyle) (anchor : Nat) (tag : Option Tag) (mark : Mark)
  | anchorUse (anchor : Nat) (mark : Mark)
  | sequence (items : List Serial) (anchor : Nat) (tag : Option Tag) (span : Span)
  | mapping (entries : List (Serial × Serial)) (anchor : Nat) (tag : Option Tag) (span : Span)

/-- What is known of the nodes completed so far. -/
structure Memory where
  /-- The node completed last under an anchor. -/
  node? : Nat → Option Node := fun _ => none
  /-- How many nodes have been copied. -/
  copied : Nat := 0

def Memory.remember (m : Memory) (anchor : Nat) (n : Node) : Memory :=
  if anchor > 0 then { m with node? := fun a => if a = anchor then some n else m.node? a } else m

@[simp]
theorem Memory.copied_remember (m : Memory) (anchor : Nat) (n : Node) :
    (m.remember anchor n).copied = m.copied := by
  unfold remember; split <;> rfl

namespace Serial

/-! ## Events -/

mutual

def events : Serial → List Event
  | scalar text style anchor tag mark => [⟨.scalar text style anchor tag, mark⟩]
  | anchorUse anchor mark => [⟨.anchorUse anchor, mark⟩]
  | sequence items anchor tag span =>
    ⟨.sequenceStart anchor tag, span.start⟩ :: itemEvents items ++ [⟨.sequenceEnd, span.stop⟩]
  | mapping entries anchor tag span =>
    ⟨.mappingStart anchor tag, span.start⟩ :: entryEvents entries ++ [⟨.mappingEnd, span.stop⟩]

def itemEvents : List Serial → List Event
  | [] => []
  | item :: rest => events item ++ itemEvents rest

def entryEvents : List (Serial × Serial) → List Event
  | [] => []
  | (key, value) :: rest => events key ++ (events value ++ entryEvents rest)

end

/-! ## Composition -/

mutual

/-- The tree that is meant, and what is known afterwards. -/
def compose : Serial → Memory → Node × Memory
  | scalar text style anchor tag mark, m =>
    let n := Builder.scalarNode text style tag mark
    (n, m.remember anchor n)
  | anchorUse anchor mark, m =>
    match m.node? anchor with
    | some n => (n, { m with copied := m.copied + n.size })
    | none => (.scalar .null ⟨mark, mark⟩, m)
  | sequence items anchor _ span, m =>
    let inner := composeItems items m
    let n := Node.sequence inner.1 span
    (n, inner.2.remember anchor n)
  | mapping entries anchor _ span, m =>
    let inner := composeEntries entries m
    let n := Node.mapping inner.1 span
    (n, inner.2.remember anchor n)

def composeItems : List Serial → Memory → List Node × Memory
  | [], m => ([], m)
  | item :: rest, m =>
    let first := compose item m
    let others := composeItems rest first.2
    (first.1 :: others.1, others.2)

def composeEntries : List (Serial × Serial) → Memory → List (Node × Node) × Memory
  | [], m => ([], m)
  | (key, value) :: rest, m =>
    let first := compose key m
    let second := compose value first.2
    let others := composeEntries rest second.2
    ((first.1, second.1) :: others.1, others.2)

end

/-- A property of all trees, from one case for each sort. -/
@[elab_as_elim, induction_eliminator]
theorem induction {motive : Serial → Prop}
    (scalar : ∀ text style anchor tag mark, motive (.scalar text style anchor tag mark))
    (anchorUse : ∀ anchor mark, motive (.anchorUse anchor mark))
    (sequence : ∀ items anchor tag span, (∀ t ∈ items, motive t) →
      motive (.sequence items anchor tag span))
    (mapping : ∀ entries anchor tag span, (∀ e ∈ entries, motive e.1 ∧ motive e.2) →
      motive (.mapping entries anchor tag span)) (t : Serial) : motive t := by
  refine @Serial.rec motive (fun items => ∀ t ∈ items, motive t)
    (fun entries => ∀ e ∈ entries, motive e.1 ∧ motive e.2) (fun e => motive e.1 ∧ motive e.2)
    scalar anchorUse sequence mapping ?_ ?_ ?_ ?_ ?_ t
  · simp
  · intro t ts ht hts u hu
    rcases List.mem_cons.1 hu with rfl | hu
    · exact ht
    · exact hts u hu
  · simp
  · intro e es he hes u hu
    rcases List.mem_cons.1 hu with rfl | hu
    · exact he
    · exact hes u hu
  · exact fun _ _ hkey hvalue => ⟨hkey, hvalue⟩

end Serial

/-! ## What the builder does with events -/

namespace Builder

variable {b b' : Builder} {m : Memory}

/-- Nodes that are completed one after the other. -/
def addAll (b : Builder) (ns : List Node) : Builder := ns.foldl add b

theorem addAll_append (b : Builder) (ns ns' : List Node) :
    b.addAll (ns ++ ns') = (b.addAll ns).addAll ns' :=
  List.foldl_append

/-- Where a node is added depends on the open collections and the root alone. -/
theorem add_congr (b b' : Builder) (hstack : b'.stack = b.stack) (hroot : b'.root = b.root)
    (n : Node) :
    (b'.add n).stack = (b.add n).stack ∧ (b'.add n).root = (b.add n).root := by
  unfold add
  rw [hstack, hroot]
  split <;> exact ⟨rfl, rfl⟩

theorem addAll_congr (hstack : b'.stack = b.stack) (hroot : b'.root = b.root) (ns : List Node) :
    (b'.addAll ns).stack = (b.addAll ns).stack ∧ (b'.addAll ns).root = (b.addAll ns).root := by
  induction ns generalizing b b' with
  | nil => exact ⟨hstack, hroot⟩
  | cons n ns ih =>
    obtain ⟨hstack, hroot⟩ := add_congr b b' hstack hroot n
    exact ih hstack hroot

theorem addAll_sequence {done : List Node} {start : Mark} {anchor : Nat} {outer : List Frame}
    (hstack : b.stack = .sequence done start anchor :: outer) (ns : List Node) :
    (b.addAll ns).stack = .sequence (ns.reverse ++ done) start anchor :: outer ∧
      (b.addAll ns).root = b.root := by
  induction ns generalizing b done with
  | nil => exact ⟨hstack, rfl⟩
  | cons n ns ih =>
    have hadd : b.add n = { b with stack := .sequence (n :: done) start anchor :: outer } := by
      rw [add, hstack]
    obtain ⟨hstack, hroot⟩ := ih (b := b.add n) (by rw [hadd])
    refine ⟨?_, hroot.trans (by rw [hadd])⟩
    rw [List.reverse_cons, List.append_assoc]
    exact hstack

/-- The nodes of entries in the order in which they are read. -/
def entryNodes (entries : List (Node × Node)) : List Node := entries.flatMap fun e => [e.1, e.2]

theorem addAll_mapping {done : List (Node × Node)} {start : Mark} {anchor : Nat}
    {outer : List Frame} (hstack : b.stack = .mapping done none start anchor :: outer)
    (entries : List (Node × Node)) :
    (b.addAll (entryNodes entries)).stack =
        .mapping (entries.reverse ++ done) none start anchor :: outer ∧
      (b.addAll (entryNodes entries)).root = b.root := by
  induction entries generalizing b done with
  | nil => exact ⟨hstack, rfl⟩
  | cons e entries ih =>
    obtain ⟨key, value⟩ := e
    have hadd : (b.add key).add value =
        { b with stack := .mapping ((key, value) :: done) none start anchor :: outer } := by
      simp only [add, hstack]
    obtain ⟨hstack, hroot⟩ := ih (b := (b.add key).add value) (by rw [hadd])
    refine ⟨?_, hroot.trans (by rw [hadd])⟩
    rw [List.reverse_cons, List.append_assoc]
    exact hstack

/-- The builder knows what is in memory, and has kept to its budget. -/
structure Holds (b : Builder) (m : Memory) : Prop where
  anchors : ∀ anchor, b.anchors.lookup anchor = (m.node? anchor).map fun n => (n, n.size)
  copied : b.copied = m.copied
  copied_le : m.copied ≤ copyBudget
  exhausted : b.exhausted = none

namespace Holds

theorem start : Holds {} {} := ⟨fun _ => rfl, rfl, Nat.zero_le _, rfl⟩

theorem remember (h : b.Holds m) (anchor : Nat) (n : Node) :
    (b.remember anchor n).Holds (m.remember anchor n) := by
  unfold Builder.remember Memory.remember
  split
  · refine ⟨fun a => ?_, h.copied, h.copied_le, h.exhausted⟩
    rw [List.lookup_cons]
    by_cases ha : a = anchor
    · simp [ha]
    · simpa [ha, beq_eq_false_iff_ne.2 ha] using h.anchors a
  · exact h

theorem add (h : b.Holds m) (n : Node) : (b.add n).Holds m :=
  ⟨by simpa using h.anchors, by simpa using h.copied, h.copied_le, by simpa using h.exhausted⟩

theorem withStack (h : b.Holds m) (stack : List Frame) : Holds { b with stack := stack } m :=
  ⟨h.anchors, h.copied, h.copied_le, h.exhausted⟩

end Holds

/-- The builder has completed nodes in turn, and knows what is in memory. -/
structure Adds (b b' : Builder) (ns : List Node) (m : Memory) : Prop where
  holds : b'.Holds m
  stack : b'.stack = (b.addAll ns).stack
  root : b'.root = (b.addAll ns).root

/-- From events the builder gets the nodes and the memory told, or that takes more copies than the
budget allows and the builder is exhausted. -/
structure Completes (b b' : Builder) (ns : List Node) (m : Memory) : Prop where
  within : m.copied ≤ copyBudget → Adds b b' ns m
  beyond : copyBudget < m.copied → b'.exhausted ≠ none

/-- Whatever is in memory, events complete the nodes told, and make as many copies. -/
structure Composes (events : List Event) (told : Memory → List Node × Memory) : Prop where
  copied_le : ∀ m, m.copied ≤ (told m).2.copied
  completes : ∀ b m, b.Holds m → Completes b (b.feedAll events) (told m).1 (told m).2

namespace Composes

variable {events events' : List Event} {told told' : Memory → List Node × Memory}

theorem nil : Composes [] fun m => ([], m) where
  copied_le _ := Nat.le_refl _
  completes _ _ h := ⟨fun _ => ⟨h, rfl, rfl⟩, fun hlt => absurd h.copied_le (Nat.not_le_of_lt hlt)⟩

theorem append (h : Composes events told) (h' : Composes events' told') :
    Composes (events ++ events') fun m =>
      ((told m).1 ++ (told' (told m).2).1, (told' (told m).2).2) where
  copied_le m := (h.copied_le m).trans (h'.copied_le _)
  completes b m hm := by
    have hfirst := h.completes b m hm
    rw [feedAll_append]
    by_cases hle : (told m).2.copied ≤ copyBudget
    · have hadds := hfirst.within hle
      have hsecond := h'.completes _ _ hadds.holds
      refine ⟨fun hle' => ?_, hsecond.beyond⟩
      have hadds' := hsecond.within hle'
      obtain ⟨hstack, hroot⟩ := addAll_congr hadds.stack hadds.root (told' (told m).2).1
      rw [← addAll_append] at hstack hroot
      exact ⟨hadds'.holds, hadds'.stack.trans hstack, hadds'.root.trans hroot⟩
    · have hlt := Nat.lt_of_not_le hle
      obtain ⟨mark, hmark⟩ := Option.ne_none_iff_exists'.1 (hfirst.beyond hlt)
      refine ⟨fun hle' => absurd ((h'.copied_le _).trans hle') hle, fun _ => ?_⟩
      rw [exhausted_feedAll hmark events']
      exact nofun

theorem scalar {e : Event} {anchor : Nat} {n : Node}
    (h : ∀ b, feed b e = (b.remember anchor n).add n) :
    Composes [e] fun m => ([n], m.remember anchor n) where
  copied_le m := (Memory.copied_remember ..).ge
  completes b m hm := by
    obtain ⟨hstack, hroot⟩ := add_congr b (b.remember anchor n) (by simp) (by simp) n
    rw [show b.feedAll [e] = b.feed e from rfl, h]
    refine ⟨fun _ => ⟨(hm.remember anchor n).add n, hstack, hroot⟩, fun hlt => ?_⟩
    rw [Memory.copied_remember] at hlt
    exact absurd hm.copied_le (Nat.not_le_of_lt hlt)

/-- A use of an anchor. -/
theorem anchorUse (anchor : Nat) (mark : Mark) :
    Composes (Serial.anchorUse anchor mark).events fun m =>
      ([((Serial.anchorUse anchor mark).compose m).1],
        ((Serial.anchorUse anchor mark).compose m).2) where
  copied_le m := by
    rw [Serial.compose]
    split
    · exact Nat.le_add_right _ _
    · exact Nat.le_refl _
  completes b m hm := by
    have hfeed : b.feedAll (Serial.anchorUse anchor mark).events =
        (b.copy anchor mark).2.add (b.copy anchor mark).1 := rfl
    rw [hfeed, Serial.compose]
    obtain ⟨hcopy, hknown⟩ | ⟨n, size, -, hlook, hcopy⟩ := copy_cases b anchor mark
    · have hnone : m.node? anchor = none := by
        have hlook := hknown.resolve_left (not_not_intro hm.exhausted)
        rwa [hm.anchors, Option.map_eq_none_iff] at hlook
      rw [hcopy, hnone]
      exact ⟨fun _ => ⟨hm.add _, rfl, rfl⟩,
        fun hlt => absurd hm.copied_le (Nat.not_le_of_lt hlt)⟩
    · rw [hm.anchors] at hlook
      obtain ⟨n', hsome, heq⟩ := Option.map_eq_some_iff.1 hlook
      obtain ⟨rfl, rfl⟩ := Prod.mk.inj heq
      rw [hsome]
      rw [hm.copied] at hcopy
      obtain ⟨hlt, hcopy⟩ | ⟨hle, hcopy⟩ := hcopy
      · rw [hcopy]
        refine ⟨fun hle => absurd hle (Nat.not_le_of_lt hlt), fun _ => ?_⟩
        rw [exhausted_add]
        exact nofun
      · have hholds : Holds { b with copied := m.copied + n'.size }
            { m with copied := m.copied + n'.size } :=
          ⟨hm.anchors, rfl, hle, hm.exhausted⟩
        obtain ⟨hstack, hroot⟩ := add_congr b
          { b with copied := m.copied + n'.size } rfl rfl n'
        rw [hcopy]
        exact ⟨fun _ => ⟨hholds.add _, hstack, hroot⟩,
          fun hlt => absurd hle (Nat.not_le_of_lt hlt)⟩

/-- A collection between its two ends: the first opens a frame, which the second closes to a node
once the events between have filled it. -/
theorem collection {first last : Event} (frame : Frame) {anchor : Nat} {node : Memory → Node}
    (hfirst : ∀ b, feed b first = { b with stack := frame :: b.stack })
    (h : Composes events told)
    (hfill : ∀ b : Builder, ∀ m, ∃ filled,
      ((b.feed first).addAll (told m).1).stack = filled :: b.stack ∧
      ((b.feed first).addAll (told m).1).root = b.root ∧
      closeFrame last.mark filled = (node m, anchor))
    (hlast : last.kind = .sequenceEnd ∨ last.kind = .mappingEnd) :
    Composes (first :: events ++ [last]) fun m =>
      ([node m], (told m).2.remember anchor (node m)) where
  copied_le m := (h.copied_le m).trans_eq (Memory.copied_remember ..).symm
  completes b m hm := by
    obtain ⟨filled, hstack, hroot, hclose⟩ := hfill b m
    have hinner := h.completes (b.feed first) m (hfirst b ▸ hm.withStack _)
    rw [feedAll_concat, show b.feedAll (first :: events) = (b.feed first).feedAll events from rfl]
    generalize (b.feed first).feedAll events = b' at hinner
    refine ⟨fun hle => ?_, fun hlt => ?_⟩
    · rw [Memory.copied_remember] at hle
      have hadds := hinner.within hle
      have hfeed : b'.feed last =
          ({ b' with stack := b.stack }.remember anchor (node m)).add (node m) := by
        have hstack' := hadds.stack.trans hstack
        rcases hlast with hlast | hlast <;> simp only [feed, hlast, hstack', hclose]
      obtain ⟨hstack', hroot'⟩ := add_congr b
        ({ b' with stack := b.stack }.remember anchor (node m)) (by simp)
        (by simpa using hadds.root.trans hroot) (node m)
      rw [hfeed]
      exact ⟨((hadds.holds.withStack _).remember _ _).add _, hstack', hroot'⟩
    · rw [Memory.copied_remember] at hlt
      obtain ⟨mark, hmark⟩ := Option.ne_none_iff_exists'.1 (hinner.beyond hlt)
      rw [show b'.feed last = b'.feedAll [last] from rfl, exhausted_feedAll hmark]
      exact Option.some_ne_none mark

end Composes

end Builder

namespace Serial

open Builder (Composes)

theorem composes_items {items : List Serial}
    (h : ∀ t ∈ items, Composes t.events fun m => ([(t.compose m).1], (t.compose m).2)) :
    Composes (itemEvents items) (composeItems items) := by
  induction items with
  | nil => exact .nil
  | cons t items ih =>
    exact (h t List.mem_cons_self).append (ih fun u hu => h u (.tail _ hu))

theorem composes_entries {entries : List (Serial × Serial)}
    (h : ∀ e ∈ entries, Composes e.1.events (fun m => ([(e.1.compose m).1], (e.1.compose m).2)) ∧
      Composes e.2.events fun m => ([(e.2.compose m).1], (e.2.compose m).2)) :
    Composes (entryEvents entries) fun m =>
      (Builder.entryNodes (composeEntries entries m).1, (composeEntries entries m).2) := by
  induction entries with
  | nil => exact .nil
  | cons e entries ih =>
    obtain ⟨hkey, hvalue⟩ := h e List.mem_cons_self
    exact hkey.append (hvalue.append (ih fun u hu => h u (.tail _ hu)))

/-- **The builder composes every tree from its events**, one node for each. -/
theorem composes (t : Serial) :
    Composes t.events fun m => ([(t.compose m).1], (t.compose m).2) := by
  induction t with
  | scalar text style anchor tag mark => exact .scalar fun _ => rfl
  | anchorUse anchor mark => exact .anchorUse anchor mark
  | sequence items anchor tag span ih =>
    refine Composes.collection (.sequence [] span.start anchor) (fun _ => rfl)
      (composes_items ih) (fun b m => ?_) (.inl rfl)
    obtain ⟨hstack, hroot⟩ := Builder.addAll_sequence
      (b := b.feed ⟨.sequenceStart anchor tag, span.start⟩) rfl (composeItems items m).1
    exact ⟨_, hstack, hroot, by simp [Builder.closeFrame, compose]⟩
  | mapping entries anchor tag span ih =>
    refine Composes.collection (.mapping [] none span.start anchor) (fun _ => rfl)
      (composes_entries ih) (fun b m => ?_) (.inr rfl)
    obtain ⟨hstack, hroot⟩ := Builder.addAll_mapping
      (b := b.feed ⟨.mappingStart anchor tag, span.start⟩) rfl (composeEntries entries m).1
    exact ⟨_, hstack, hroot, by simp [Builder.closeFrame, compose]⟩

/-! ## Anchors that are open -/

/-- The anchor of a node, if it has one. -/
def bearing (anchor : Nat) : List Nat := if anchor > 0 then [anchor] else []

mutual

/-- The anchors of the nodes, in the order in which these are completed. -/
def anchors : Serial → List Nat
  | scalar _ _ anchor _ _ => bearing anchor
  | anchorUse _ _ => []
  | sequence items anchor _ _ => itemAnchors items ++ bearing anchor
  | mapping entries anchor _ _ => entryAnchors entries ++ bearing anchor

def itemAnchors : List Serial → List Nat
  | [] => []
  | item :: rest => anchors item ++ itemAnchors rest

def entryAnchors : List (Serial × Serial) → List Nat
  | [] => []
  | (key, value) :: rest => anchors key ++ (anchors value ++ entryAnchors rest)

end

/-- Nothing is written in this place. -/
def unwritten (mark : Mark) : Serial := scalar "" .plain 0 none mark

mutual

/-- The tree with nothing in place of each use of an anchor whose node is open there, as those of
`opened` are. -/
def cut (opened : List Nat) : Serial → Serial
  | scalar text style anchor tag mark => scalar text style anchor tag mark
  | anchorUse anchor mark => if anchor ∈ opened then unwritten mark else anchorUse anchor mark
  | sequence items anchor tag span =>
    sequence (cutItems (bearing anchor ++ opened) items) anchor tag span
  | mapping entries anchor tag span =>
    mapping (cutEntries (bearing anchor ++ opened) entries) anchor tag span

def cutItems (opened : List Nat) : List Serial → List Serial
  | [] => []
  | item :: rest => cut opened item :: cutItems opened rest

def cutEntries (opened : List Nat) : List (Serial × Serial) → List (Serial × Serial)
  | [] => []
  | (key, value) :: rest => (cut opened key, cut opened value) :: cutEntries opened rest

end

theorem node?_remember {m : Memory} {a anchor : Nat} {n : Node} (ha : a ∉ bearing anchor) :
    (m.remember anchor n).node? a = m.node? a := by
  unfold bearing at ha
  unfold Memory.remember
  split
  · rename_i hpos
    have hne : a ≠ anchor := by simpa [hpos] using ha
    exact if_neg hne
  · rfl

/-- What is known under an anchor stays unless a node with that anchor is completed. -/
theorem node?_compose {t : Serial} {m : Memory} {a : Nat} (ha : a ∉ t.anchors) :
    (t.compose m).2.node? a = m.node? a := by
  induction t generalizing m with
  | scalar text style anchor tag mark => exact node?_remember ha
  | anchorUse anchor mark => rw [compose]; split <;> rfl
  | sequence items anchor tag span ih =>
    rw [anchors, List.mem_append, not_or] at ha
    obtain ⟨hitems, ha⟩ := ha
    refine (node?_remember ha).trans ?_
    induction items generalizing m with
    | nil => rfl
    | cons t items ihs =>
      rw [itemAnchors, List.mem_append, not_or] at hitems
      exact (ihs (fun u hu => ih u (.tail _ hu)) hitems.2).trans (ih t List.mem_cons_self hitems.1)
  | mapping entries anchor tag span ih =>
    rw [anchors, List.mem_append, not_or] at ha
    obtain ⟨hentries, ha⟩ := ha
    refine (node?_remember ha).trans ?_
    induction entries generalizing m with
    | nil => rfl
    | cons e entries ihs =>
      obtain ⟨hkey, hvalue⟩ := ih e List.mem_cons_self
      rw [entryAnchors, List.mem_append, List.mem_append, not_or, not_or] at hentries
      exact (ihs (fun u hu => ih u (.tail _ hu)) hentries.2.2).trans
        ((hvalue hentries.2.1).trans (hkey hentries.1))

/-- Where all anchors are different and none is known yet, uses of the open ones stand for null:
what an anchor is known to stand for comes from a node that is completed before, and the only node
with that anchor is still open. -/
def CutsToNull (opened : List Nat) (t : Serial) : Prop :=
  ∀ m : Memory, (t.anchors ++ opened).Nodup → (∀ a ∈ t.anchors ++ opened, m.node? a = none) →
    (t.cut opened).compose m = t.compose m

theorem compose_cutItems {items : List Serial} {opened : List Nat} {m : Memory}
    (hpart : ∀ t ∈ items, t.CutsToNull opened) (hnodup : (itemAnchors items ++ opened).Nodup)
    (hnew : ∀ a ∈ itemAnchors items ++ opened, m.node? a = none) :
    composeItems (cutItems opened items) m = composeItems items m := by
  induction items generalizing m with
  | nil => rfl
  | cons t items ih =>
    rw [itemAnchors, List.append_assoc] at hnodup hnew
    obtain ⟨-, hrest, hapart⟩ := List.nodup_append.1 hnodup
    have hfirst : (t.cut opened).compose m = t.compose m :=
      hpart t List.mem_cons_self m
        (hnodup.sublist ((List.sublist_append_right ..).append_left _))
        fun a ha => hnew a (by simp only [List.mem_append] at ha ⊢; tauto)
    rw [cutItems, composeItems, composeItems, hfirst]
    rw [ih (fun u hu => hpart u (.tail _ hu)) hrest fun a ha => ?_]
    rw [node?_compose fun hmem => hapart a hmem a ha rfl]
    exact hnew a (List.mem_append_right _ ha)

theorem compose_cutEntries {entries : List (Serial × Serial)} {opened : List Nat} {m : Memory}
    (hpart : ∀ e ∈ entries, e.1.CutsToNull opened ∧ e.2.CutsToNull opened)
    (hnodup : (entryAnchors entries ++ opened).Nodup)
    (hnew : ∀ a ∈ entryAnchors entries ++ opened, m.node? a = none) :
    composeEntries (cutEntries opened entries) m = composeEntries entries m := by
  induction entries generalizing m with
  | nil => rfl
  | cons e entries ih =>
    obtain ⟨key, value⟩ := e
    rw [entryAnchors, List.append_assoc, List.append_assoc] at hnodup hnew
    obtain ⟨-, hothers, hapart⟩ := List.nodup_append.1 hnodup
    obtain ⟨-, hrest, hapart'⟩ := List.nodup_append.1 hothers
    obtain ⟨hcutKey, hcutValue⟩ := hpart _ List.mem_cons_self
    have hkey : (key.cut opened).compose m = key.compose m :=
      hcutKey m
        (hnodup.sublist
          (((List.sublist_append_right ..).trans (List.sublist_append_right ..)).append_left _))
        fun a ha => hnew a (by simp only [List.mem_append] at ha ⊢; tauto)
    have hnew' : ∀ a ∈ value.anchors ++ (entryAnchors entries ++ opened),
        (key.compose m).2.node? a = none := fun a ha => by
      rw [node?_compose fun hmem => hapart a hmem a ha rfl]
      exact hnew a (List.mem_append_right _ ha)
    have hvalue : (value.cut opened).compose (key.compose m).2 =
        value.compose (key.compose m).2 :=
      hcutValue _ (hothers.sublist ((List.sublist_append_right ..).append_left _))
        fun a ha => hnew' a (by simp only [List.mem_append] at ha ⊢; tauto)
    rw [cutEntries, composeEntries, composeEntries, hkey, hvalue]
    rw [ih (fun u hu => hpart u (.tail _ hu)) hrest fun a ha => ?_]
    rw [node?_compose fun hmem => hapart' a hmem a ha rfl]
    exact hnew' a (List.mem_append_right _ ha)

theorem compose_cut (t : Serial) (opened : List Nat) : t.CutsToNull opened := by
  induction t generalizing opened with
  | scalar text style anchor tag mark => exact fun _ _ _ => rfl
  | anchorUse anchor mark =>
    intro m _ hnew
    rw [cut]
    split
    · rename_i hmem
      rw [compose, hnew anchor (by simpa [anchors] using hmem)]
      rfl
    · rfl
  | sequence items anchor tag span ih =>
    intro m hnodup hnew
    rw [anchors, List.append_assoc] at hnodup hnew
    rw [cut, compose, compose, compose_cutItems (fun t ht => ih t ht _) hnodup hnew]
  | mapping entries anchor tag span ih =>
    intro m hnodup hnew
    rw [anchors, List.append_assoc] at hnodup hnew
    rw [cut, compose, compose,
      compose_cutEntries (fun e he => ⟨(ih e he).1 _, (ih e he).2 _⟩) hnodup hnew]

/-- **The builder computes the document tree.** Fed the events of a tree while nothing is open, it
keeps to its budget exactly if the copies told do; then the root is the tree told unless there is
one already, nothing is open and the builder knows what is told to be in memory. If the anchors of
the tree are all different and new, it is the tree with nothing in place of each use of an anchor
inside the node that bears it. -/
theorem feedAll_events {t : Serial} {b : Builder} {m : Memory} (hm : b.Holds m)
    (hstack : b.stack = []) :
    ((b.feedAll t.events).exhausted = none ↔ (t.compose m).2.copied ≤ Builder.copyBudget) ∧
    ((t.compose m).2.copied ≤ Builder.copyBudget →
      (b.feedAll t.events).root = some (b.root.getD (t.compose m).1) ∧
      (b.feedAll t.events).stack = [] ∧
      (b.feedAll t.events).Holds (t.compose m).2) ∧
    (t.anchors.Nodup → (∀ a ∈ t.anchors, m.node? a = none) →
      (t.cut []).compose m = t.compose m) := by
  have hcompletes := t.composes.completes b m hm
  refine ⟨⟨fun hex => ?_, fun hle => (hcompletes.within hle).holds.exhausted⟩, fun hle => ?_,
    fun hnodup hnew => ?_⟩
  · by_contra hlt
    exact hcompletes.beyond (Nat.lt_of_not_le hlt) hex
  · have hadds := hcompletes.within hle
    have hadd : b.addAll [(t.compose m).1] =
        { b with root := some (b.root.getD (t.compose m).1) } := by
      cases hroot : b.root <;> simp [Builder.addAll, Builder.add, hstack, hroot]
    exact ⟨hadds.root.trans (by rw [hadd]), hadds.stack.trans (by rw [hadd, hstack]), hadds.holds⟩
  · exact compose_cut t [] m (by simpa using hnodup) (by simpa using hnew)

/-- `&1 {&2 'k': [*2, *1]}`. -/
def nested : Serial :=
  .mapping
    [(.scalar "k" .singleQuoted 2 none ⟨1, 8⟩,
      .sequence [.anchorUse 2 ⟨1, 14⟩, .anchorUse 1 ⟨1, 18⟩] 0 none ⟨⟨1, 13⟩, ⟨1, 20⟩⟩)]
    1 none ⟨⟨1, 4⟩, ⟨1, 21⟩⟩

/-- The key is copied with its marks, and the mapping is null inside itself. -/
theorem feedAll_events_nested :
    (Builder.feedAll {} nested.events).exhausted = none ∧
    (Builder.feedAll {} nested.events).root = some (.mapping
      [(.scalar (.text "k") ⟨⟨1, 8⟩, ⟨1, 9⟩⟩,
        .sequence
          [.scalar (.text "k") ⟨⟨1, 8⟩, ⟨1, 9⟩⟩, .scalar .null ⟨⟨1, 18⟩, ⟨1, 18⟩⟩]
          ⟨⟨1, 13⟩, ⟨1, 20⟩⟩)]
      ⟨⟨1, 4⟩, ⟨1, 21⟩⟩) ∧
    (nested.cut []).compose {} = nested.compose {} := by
  obtain ⟨hexhausted, hroot, hcut⟩ :=
    feedAll_events (t := nested) (b := {}) (m := {}) .start rfl
  have hcopied : (nested.compose {}).2.copied ≤ Builder.copyBudget := by decide
  exact ⟨hexhausted.2 hcopied, (hroot hcopied).1, hcut (by decide) fun _ _ => rfl⟩

end Serial

end ApiLint.Yaml
