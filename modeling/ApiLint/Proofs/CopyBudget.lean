import ApiLint.Proofs.Memos
import ApiLint.Yaml.Tree
import Mathlib.Algebra.GroupWithZero.Nat
import Mathlib.Data.List.Induction
import Mathlib.Data.List.Infix

/-!
# The budget of copies

Nodes under anchors hold the copies made before them, so the size of what is copied can double with
every use of an anchor. The builder keeps the tree small all the same, whatever events it is fed:

* **Sizes**: the root and the open collections together have at most as many nodes as events open
  nodes, and the copies on top of them (`Builder.Measured`). One event keeps that
  (`Builder.Measured.feed`), so all events do (`Builder.measured_feedAll`).
* **The first use that is not covered** ends the copying: the total is what the uses before it stand
  for (`Builder.copied_eq`), and the builder is exhausted there and nowhere else
  (`Builder.exhausted_eq_some_iff`).
-/

set_option autoImplicit false

namespace ApiLint.Yaml

/-! ## Sizes -/

namespace Node

theorem sizeItems_eq_sum (items : List Node) : sizeItems items = (items.map size).sum := by
  induction items with
  | nil => rfl
  | cons item items ih => rw [sizeItems, ih, List.map_cons, List.sum_cons]

theorem sizeEntries_eq_sum (entries : List (Node × Node)) :
    sizeEntries entries = (entries.map fun e => e.1.size + e.2.size).sum := by
  induction entries with
  | nil => rfl
  | cons e entries ih =>
    obtain ⟨key, value⟩ := e
    rw [sizeEntries, ih, List.map_cons, List.sum_cons]

@[simp]
theorem sizeItems_reverse (items : List Node) : sizeItems items.reverse = sizeItems items := by
  rw [sizeItems_eq_sum, sizeItems_eq_sum]
  exact (items.reverse_perm.map size).sum_nat

@[simp]
theorem sizeEntries_reverse (entries : List (Node × Node)) :
    sizeEntries entries.reverse = sizeEntries entries := by
  rw [sizeEntries_eq_sum, sizeEntries_eq_sum]
  exact (entries.reverse_perm.map _).sum_nat

end Node

/-- The event stands for a node or for the start of one. -/
def Event.opensNode (e : Event) : Bool :=
  match e.kind with
  | .scalar .. | .anchorUse _ | .sequenceStart .. | .mappingStart .. => true
  | .sequenceEnd | .mappingEnd => false

/-- The nodes of an open collection, itself included. -/
def Frame.size : Frame → Nat
  | .sequence items _ _ => Node.sizeItems items + 1
  | .mapping entries key _ _ => Node.sizeEntries entries + (key.map Node.size).getD 0 + 1

namespace Builder

variable {b : Builder}

/-- The nodes of the root and of the open collections. -/
def size (b : Builder) : Nat := (b.root.map Node.size).getD 0 + (b.stack.map Frame.size).sum

theorem feedAll_append (b : Builder) (events events' : List Event) :
    b.feedAll (events ++ events') = (b.feedAll events).feedAll events' :=
  List.foldl_append

theorem feedAll_concat (b : Builder) (events : List Event) (e : Event) :
    b.feedAll (events ++ [e]) = (b.feedAll events).feed e :=
  b.feedAll_append events [e]

/-! ## What the parts of a step change -/

section
variable (b) (n : Node) (anchor : Nat) (mark : Mark)

@[simp]
theorem anchors_add : (b.add n).anchors = b.anchors := by
  unfold add; split <;> rfl

@[simp]
theorem copied_add : (b.add n).copied = b.copied := by
  unfold add; split <;> rfl

@[simp]
theorem exhausted_add : (b.add n).exhausted = b.exhausted := by
  unfold add; split <;> rfl

@[simp]
theorem stack_remember : (b.remember anchor n).stack = b.stack := by
  unfold remember; split <;> rfl

@[simp]
theorem root_remember : (b.remember anchor n).root = b.root := by
  unfold remember; split <;> rfl

@[simp]
theorem copied_remember : (b.remember anchor n).copied = b.copied := by
  unfold remember; split <;> rfl

@[simp]
theorem exhausted_remember : (b.remember anchor n).exhausted = b.exhausted := by
  unfold remember; split <;> rfl

@[simp]
theorem size_remember : (b.remember anchor n).size = b.size := by
  simp [size]

theorem mem_anchors_remember {x : Nat × Node × Nat} (hx : x ∈ (b.remember anchor n).anchors) :
    x = (anchor, n, n.size) ∨ x ∈ b.anchors := by
  unfold remember at hx
  split at hx
  · exact List.mem_cons.1 hx
  · exact .inr hx

/-- A completed node adds its nodes, or none if there is a root already. -/
theorem size_add_le : (b.add n).size ≤ b.size + n.size := by
  unfold add size
  cases hstack : b.stack with
  | nil => cases hroot : b.root <;> simp
  | cons frame outer =>
    cases frame with
    | sequence items start anchor =>
      simp only [List.map_cons, List.sum_cons, Frame.size, Node.sizeItems]
      omega
    | mapping entries key start anchor =>
      cases key <;>
        simp only [List.map_cons, List.sum_cons, Frame.size, Node.sizeEntries, Option.map_none,
          Option.map_some, Option.getD_none, Option.getD_some] <;>
        omega

/-- All that the use of an anchor can do. -/
theorem copy_cases :
    (b.copy anchor mark = (.scalar .null ⟨mark, mark⟩, b) ∧
        (b.exhausted ≠ none ∨ b.anchors.lookup anchor = none)) ∨
      ∃ m size, b.exhausted = none ∧ b.anchors.lookup anchor = some (m, size) ∧
        ((copyBudget < b.copied + size ∧
            b.copy anchor mark = (.scalar .null ⟨mark, mark⟩, { b with exhausted := some mark })) ∨
          (b.copied + size ≤ copyBudget ∧
            b.copy anchor mark = (m, { b with copied := b.copied + size }))) := by
  unfold copy
  cases hex : b.exhausted with
  | some mark => exact .inl ⟨rfl, .inl nofun⟩
  | none =>
    cases hlook : b.anchors.lookup anchor with
    | none => exact .inl ⟨rfl, .inr rfl⟩
    | some x =>
      refine .inr ⟨x.1, x.2, rfl, rfl, ?_⟩
      by_cases hle : copyBudget < b.copied + x.2
      · exact .inl ⟨hle, by simp [hle]⟩
      · exact .inr ⟨Nat.le_of_not_lt hle, by simp [hle]⟩

end

theorem size_closeFrame_le (stop : Mark) (frame : Frame) :
    (closeFrame stop frame).1.size ≤ frame.size := by
  cases frame with
  | sequence items start anchor => simp [closeFrame, Node.size, Frame.size]
  | mapping entries key start anchor =>
    simp only [closeFrame, Node.size, Frame.size, Node.sizeEntries_reverse]
    omega

/-! ## The builder stays small -/

/-- Where events have opened so many nodes: sizes under anchors are exact, the copies keep to the
budget, and the trees in the making consist of the nodes opened and of copies. -/
structure Measured (b : Builder) (opened : Nat) : Prop where
  sizes : ∀ x ∈ b.anchors, x.2.2 = x.2.1.size
  copied_le : b.copied ≤ copyBudget
  size_le : b.size ≤ opened + b.copied

namespace Measured

variable {opened k : Nat}

theorem start : Measured {} 0 where
  sizes := by simp
  copied_le := Nat.zero_le _
  size_le := Nat.le_refl _

/-- A completed node with an anchor, of which `k` nodes are new. -/
theorem complete (h : b.Measured opened) (anchor : Nat) {n : Node}
    (hsize : b.size + n.size ≤ k + b.copied) : ((b.remember anchor n).add n).Measured k where
  sizes x hx := by
    rw [anchors_add] at hx
    rcases mem_anchors_remember b n anchor hx with rfl | hx
    · rfl
    · exact h.sizes x hx
  copied_le := by simpa using h.copied_le
  size_le := by
    have hadd := size_add_le (b.remember anchor n) n
    rw [size_remember] at hadd
    simpa using hadd.trans hsize

theorem copy (h : b.Measured opened) (anchor : Nat) (mark : Mark) :
    ((b.copy anchor mark).2.add (b.copy anchor mark).1).Measured (opened + 1) := by
  have hsize := h.size_le
  obtain ⟨hcopy, -⟩ | ⟨m, size, -, hlook, ⟨-, hcopy⟩ | ⟨hle, hcopy⟩⟩ := copy_cases b anchor mark
  · rw [hcopy]
    exact h.complete 0 (by rw [Node.size]; omega)
  · rw [hcopy]
    have h' : Measured { b with exhausted := some mark } opened := ⟨h.sizes, h.copied_le, hsize⟩
    exact h'.complete 0 (show b.size + 1 ≤ opened + 1 + b.copied by omega)
  · have hm : size = m.size := h.sizes (anchor, m, size) (mem_of_lookup hlook)
    rw [hcopy]
    have h' : Measured { b with copied := b.copied + size } opened :=
      ⟨h.sizes, hle, hsize.trans (by dsimp only; omega)⟩
    exact h'.complete 0 (show b.size + m.size ≤ opened + 1 + (b.copied + size) by omega)

theorem close (h : b.Measured opened) {frame : Frame} {outer : List Frame}
    (hstack : b.stack = frame :: outer) (stop : Mark) :
    (({ b with stack := outer }.remember (closeFrame stop frame).2 (closeFrame stop frame).1).add
      (closeFrame stop frame).1).Measured opened := by
  have hframe := size_closeFrame_le stop frame
  have houter : Builder.size { b with stack := outer } + frame.size = b.size := by
    simp only [Builder.size, hstack, List.map_cons, List.sum_cons]
    omega
  have hsize := h.size_le
  have h' : Measured { b with stack := outer } opened :=
    ⟨h.sizes, h.copied_le, show _ ≤ opened + b.copied by omega⟩
  exact h'.complete _ (show _ ≤ opened + b.copied by omega)

/-- **One event opens one node at most**, copies apart. -/
theorem feed (h : b.Measured opened) (e : Event) :
    (b.feed e).Measured (opened + if e.opensNode then 1 else 0) := by
  have hsize := h.size_le
  unfold Builder.feed Event.opensNode
  cases e.kind with
  | scalar text style anchor tag =>
    exact h.complete anchor (by simp only [scalarNode, Node.size, if_true]; omega)
  | anchorUse anchor => exact h.copy anchor e.mark
  | sequenceStart anchor tag =>
    refine ⟨h.sizes, h.copied_le, ?_⟩
    simp [Builder.size, Frame.size, Node.sizeItems] at hsize ⊢
    omega
  | mappingStart anchor tag =>
    refine ⟨h.sizes, h.copied_le, ?_⟩
    simp [Builder.size, Frame.size, Node.sizeEntries] at hsize ⊢
    omega
  | sequenceEnd | mappingEnd =>
    cases hstack : b.stack with
    | nil => exact h
    | cons frame outer => exact h.close hstack e.mark

end Measured

theorem measured_feedAll (events : List Event) :
    (feedAll {} events).Measured (events.countP Event.opensNode) := by
  induction events using List.reverseRecOn with
  | nil => exact .start
  | append_singleton events e ih =>
    rw [feedAll_concat, List.countP_append, List.countP_singleton]
    exact ih.feed e

/-! ## The first use that is not covered -/

/-- The node that an event copies which is read after others: the one that was completed last under
the anchor that it uses. -/
def copyOf? (before : List Event) (e : Event) : Option Node :=
  match e.kind with
  | .anchorUse anchor => ((feedAll {} before).anchors.lookup anchor).map (·.1)
  | _ => none

/-- How many nodes are copied in reading events after others. -/
def copiesAfter (before : List Event) : List Event → Nat
  | [] => 0
  | e :: rest => ((copyOf? before e).map Node.size).getD 0 + copiesAfter (before ++ [e]) rest

/-- The running total of copied nodes. -/
def copies (events : List Event) : Nat := copiesAfter [] events

theorem copiesAfter_concat (before events : List Event) (e : Event) :
    copiesAfter before (events ++ [e]) =
      copiesAfter before events + ((copyOf? (before ++ events) e).map Node.size).getD 0 := by
  induction events generalizing before with
  | nil => simp [copiesAfter]
  | cons e' events ih =>
    rw [List.cons_append, copiesAfter, copiesAfter, ih]
    simp [Nat.add_assoc]

theorem copies_concat (events : List Event) (e : Event) :
    copies (events ++ [e]) = copies events + ((copyOf? events e).map Node.size).getD 0 :=
  copiesAfter_concat [] events e

/-- The event copies a node that is known and would take the total over the budget. -/
def Overdraws (before : List Event) (e : Event) : Prop :=
  ∃ n, copyOf? before e = some n ∧ copyBudget < copies before + n.size

/-- No event takes the total over the budget. -/
def Covers (events : List Event) : Prop :=
  ∀ before e, before ++ [e] <+: events → ¬ Overdraws before e

/-- The event with that mark is the first to take the total over the budget. -/
def OverdrawnAt (events : List Event) (mark : Mark) : Prop :=
  ∃ before e after, events = before ++ e :: after ∧ e.mark = mark ∧ Covers before ∧
    Overdraws before e

theorem covers_concat {events : List Event} {e : Event} :
    Covers (events ++ [e]) ↔ Covers events ∧ ¬ Overdraws events e := by
  constructor
  · intro h
    exact ⟨fun before e' hp => h before e' (hp.trans (List.prefix_append _ _)),
      h events e List.prefix_rfl⟩
  · rintro ⟨hevents, he⟩ before e' hp
    rcases List.prefix_concat_iff.1 hp with heq | hp
    · obtain ⟨rfl, rfl⟩ := List.append_singleton_inj.1 heq
      exact he
    · exact hevents before e' hp

theorem exhausted_feedAll {mark : Mark} (h : b.exhausted = some mark) (events : List Event) :
    (b.feedAll events).exhausted = some mark := by
  induction events generalizing b with
  | nil => exact h
  | cons e events ih =>
    refine ih ?_
    unfold feed
    cases e.kind with
    | anchorUse anchor =>
      obtain ⟨hcopy, -⟩ | ⟨_, _, hex, -⟩ := copy_cases b anchor e.mark
      · simp [hcopy, h]
      · simp [h] at hex
    | sequenceEnd | mappingEnd => cases b.stack <;> simp [h]
    | _ => simp [h]

/-- An event that uses no anchor copies nothing. -/
theorem feed_of_not_use (b : Builder) {e : Event} (h : ∀ anchor, e.kind ≠ .anchorUse anchor) :
    (b.feed e).exhausted = b.exhausted ∧ (b.feed e).copied = b.copied := by
  unfold feed
  cases hkind : e.kind with
  | anchorUse anchor => exact absurd hkind (h anchor)
  | sequenceEnd | mappingEnd => cases b.stack <;> simp
  | _ => simp

/-- A builder that keeps the total takes one more copy, or is exhausted by it. -/
theorem feed_next {events : List Event} (hex : (feedAll {} events).exhausted = none)
    (hcopied : (feedAll {} events).copied = copies events) (e : Event) :
    (Overdraws events e ∧ ((feedAll {} events).feed e).exhausted = some e.mark) ∨
      (¬ Overdraws events e ∧ ((feedAll {} events).feed e).exhausted = none ∧
        ((feedAll {} events).feed e).copied = copies (events ++ [e])) := by
  have hsizes := (measured_feedAll events).sizes
  rw [copies_concat]
  by_cases huse : ∃ anchor, e.kind = .anchorUse anchor
  · obtain ⟨anchor, hkind⟩ := huse
    have hof : copyOf? events e = ((feedAll {} events).anchors.lookup anchor).map (·.1) := by
      rw [copyOf?, hkind]
    have hfeed : (feedAll {} events).feed e =
        ((feedAll {} events).copy anchor e.mark).2.add
          ((feedAll {} events).copy anchor e.mark).1 := by
      rw [feed, hkind]
    obtain ⟨hcopy, hknown⟩ | ⟨m, size, -, hlook, hcopy⟩ :=
      copy_cases (feedAll {} events) anchor e.mark
    · have hnone : copyOf? events e = none := by
        rw [hof, hknown.resolve_left (not_not_intro hex), Option.map_none]
      refine .inr ⟨fun ⟨n, hn, _⟩ => by simp [hnone] at hn, ?_⟩
      rw [hfeed, hcopy, exhausted_add, copied_add, hnone]
      exact ⟨hex, hcopied⟩
    · have hsome : copyOf? events e = some m := by rw [hof, hlook, Option.map_some]
      obtain rfl : size = m.size := hsizes (anchor, m, size) (mem_of_lookup hlook)
      rw [hcopied] at hcopy
      obtain ⟨hlt, hcopy⟩ | ⟨hle, hcopy⟩ := hcopy
      · refine .inl ⟨⟨m, hsome, hlt⟩, ?_⟩
        rw [hfeed, hcopy, exhausted_add]
      · refine .inr ⟨fun ⟨n, hn, hlt⟩ => ?_, ?_⟩
        · obtain rfl := Option.some.inj (hsome.symm.trans hn)
          exact Nat.not_lt_of_le hle hlt
        · rw [hfeed, hcopy, exhausted_add, copied_add, hsome]
          exact ⟨hex, rfl⟩
  · have hnone : copyOf? events e = none := by
      unfold copyOf?
      split
      · rename_i anchor hkind
        exact absurd ⟨anchor, hkind⟩ huse
      · rfl
    obtain ⟨hex', hcopied'⟩ := (feedAll {} events).feed_of_not_use (not_exists.1 huse)
    refine .inr ⟨fun ⟨n, hn, _⟩ => by simp [hnone] at hn, hex'.trans hex, ?_⟩
    rw [hcopied', hcopied, hnone]
    rfl

theorem feedAll_of_covers {events : List Event} (h : Covers events) :
    (feedAll {} events).exhausted = none ∧ (feedAll {} events).copied = copies events := by
  induction events using List.reverseRecOn with
  | nil => exact ⟨rfl, rfl⟩
  | append_singleton events e ih =>
    obtain ⟨hevents, he⟩ := covers_concat.1 h
    obtain ⟨hex, hcopied⟩ := ih hevents
    rw [feedAll_concat]
    exact ((feed_next hex hcopied e).resolve_left fun hover => he hover.1).2

theorem covers_or_overdrawnAt (events : List Event) :
    Covers events ∨ ∃ mark, OverdrawnAt events mark := by
  induction events using List.reverseRecOn with
  | nil => exact .inl fun before e hp => by simp at hp
  | append_singleton events e ih =>
    obtain hcovers | ⟨mark, before, e', after, rfl, hfirst⟩ := ih
    · by_cases hover : Overdraws events e
      · exact .inr ⟨e.mark, events, e, [], rfl, rfl, hcovers, hover⟩
      · exact .inl (covers_concat.2 ⟨hcovers, hover⟩)
    · exact .inr ⟨mark, before, e', after ++ [e], by simp, hfirst⟩

/-- **The builder is exhausted at the first event that is not covered**, and only there. -/
theorem exhausted_eq_some_iff {events : List Event} {mark : Mark} :
    (feedAll {} events).exhausted = some mark ↔ OverdrawnAt events mark := by
  have hover : ∀ {mark}, OverdrawnAt events mark → (feedAll {} events).exhausted = some mark := by
    rintro mark ⟨before, e, after, rfl, rfl, hcovers, hover⟩
    obtain ⟨hex, hcopied⟩ := feedAll_of_covers hcovers
    have hmark := ((feed_next hex hcopied e).resolve_right fun hnot => hnot.1 hover).2
    rw [feedAll_append]
    exact exhausted_feedAll hmark after
  refine ⟨fun h => ?_, hover⟩
  obtain hcovers | ⟨mark', hmark'⟩ := covers_or_overdrawnAt events
  · rw [(feedAll_of_covers hcovers).1] at h
    cases h
  · obtain rfl := Option.some.inj ((hover hmark').symm.trans h)
    exact hmark'

end Builder

/-! ## Reading a text -/

namespace Node

/-- The tree that events give. -/
def ofEvents (events : List Event) : Except ReadFault Node :=
  match (Builder.feedAll {} events).exhausted, (Builder.feedAll {} events).root with
  | some mark, _ => .error (.copyLimit mark)
  | none, none => .error .empty
  | none, some root => .ok root

theorem ofSource_of_documentEvents {source : String} {events : List Event}
    (h : documentEvents source = .ok events) : ofSource source = ofEvents events := by
  rw [ofSource, h]
  rfl

theorem ofEvents_eq_copyLimit_iff {events : List Event} {mark : Mark} :
    ofEvents events = .error (.copyLimit mark) ↔ Builder.OverdrawnAt events mark := by
  rw [← Builder.exhausted_eq_some_iff]
  unfold ofEvents
  split <;> simp_all

theorem root_of_ofEvents {events : List Event} {root : Node} (h : ofEvents events = .ok root) :
    (Builder.feedAll {} events).root = some root := by
  unfold ofEvents at h
  split at h <;> simp_all

end Node

/-- **Copies are bounded.** Whatever events the builder is fed, it copies no more nodes than the
budget allows and knows the size of every node under an anchor. As long as no event takes the total
over the budget, the total is what the uses of anchors stand for; the first event that does is where
the reading of the tree fails. A tree that is read has no more nodes than events open and the budget
allows. -/
theorem copies_bounded (events : List Event) :
    (Builder.feedAll {} events).copied ≤ Builder.copyBudget ∧
    (∀ anchor n size, (anchor, n, size) ∈ (Builder.feedAll {} events).anchors → size = n.size) ∧
    (Builder.Covers events → (Builder.feedAll {} events).copied = Builder.copies events) ∧
    (∀ mark, Node.ofEvents events = .error (.copyLimit mark) ↔ Builder.OverdrawnAt events mark) ∧
    (∀ root, Node.ofEvents events = .ok root →
      root.size ≤ events.countP Event.opensNode + Builder.copyBudget) ∧
    ∀ source, documentEvents source = .ok events → Node.ofSource source = Node.ofEvents events := by
  have hmeasured := Builder.measured_feedAll events
  refine ⟨hmeasured.copied_le, fun anchor n size h => hmeasured.sizes _ h,
    fun h => (Builder.feedAll_of_covers h).2, fun mark => Node.ofEvents_eq_copyLimit_iff,
    fun root h => ?_, fun source => Node.ofSource_of_documentEvents⟩
  have hsize := hmeasured.size_le
  have hcopied := hmeasured.copied_le
  rw [Builder.size, Node.root_of_ofEvents h, Option.map_some, Option.getD_some] at hsize
  omega

end ApiLint.Yaml
