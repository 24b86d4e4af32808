import ApiLint.Proofs.CopyBudget
import Mathlib.Data.List.Chain

/-!
# What nodes cover, and in which order

Nodes remember where they start and end. Suppose that events come with marks in order
(`Yaml.inOrder`): no collection ends before its start, and no value starts before its key. Then every
node of the tree ends behind its start, and every value behind its key, unless the use of an anchor
has put it there (`Node.Ordered`, `Yaml.Copied`).

One event keeps this of the builder (`Builder.Ordered.feed`), so all events do
(`Builder.ordered_feedAll`). What makes the step go through is that an open collection starts behind
the key that waits for it in the collection around it (`Builder.Ordered.nested`).
-/

set_option autoImplicit false

namespace ApiLint.Yaml

namespace Mark

theorem le_refl (a : Mark) : a.le a = true := by simp [le]

theorem le_trans {a b c : Mark} (hab : a.le b = true) (hbc : b.le c = true) : a.le c = true := by
  simp only [le, Bool.or_eq_true, Bool.and_eq_true, decide_eq_true_eq, beq_iff_eq] at *
  omega

end Mark

namespace Frame

def start : Frame → Mark
  | .sequence _ start _ | .mapping _ _ start _ => start

/-- The key of a mapping whose value comes next. -/
def key? : Frame → Option Node
  | .sequence .. => none
  | .mapping _ key _ _ => key

end Frame

namespace Builder

/-- The key whose value comes next. -/
def pendingKey? (b : Builder) : Option Node := b.stack.head?.bind Frame.key?

/-- The event does not end a collection before its start, nor start a value before its key. -/
def admits (b : Builder) (e : Event) : Bool :=
  match e.kind with
  | .sequenceEnd | .mappingEnd => b.stack.head?.all fun frame => frame.start.le e.mark
  | _ => b.pendingKey?.all fun key => key.mark.le e.mark

def admitsAll : Builder → List Event → Bool
  | _, [] => true
  | b, e :: rest => b.admits e && (b.feed e).admitsAll rest

theorem admitsAll_concat {b : Builder} {events : List Event} {e : Event} :
    b.admitsAll (events ++ [e]) = (b.admitsAll events && (b.feedAll events).admits e) := by
  induction events generalizing b with
  | nil => simp [admitsAll, feedAll]
  | cons e' events ih =>
    rw [List.cons_append, admitsAll, admitsAll, ih, Bool.and_assoc]
    rfl

end Builder

/-- No collection ends before its start, and no value starts before its key. -/
def inOrder (events : List Event) : Bool := Builder.admitsAll {} events

/-- The use of an anchor has put the value under the key. -/
def Copied (events : List Event) (key value : Node) : Prop :=
  ∃ before e after, events = before ++ e :: after ∧
    (Builder.feedAll {} before).pendingKey? = some key ∧ Builder.copyOf? before e = some value

/-- The value ends behind the start of the key, unless it was copied. -/
def EndsBehind (events : List Event) (key value : Node) : Prop :=
  key.mark.le value.stop = true ∨ Copied events key value

/-- Every node of a tree ends behind its start, and its values end behind their keys. -/
inductive Node.Ordered (events : List Event) : Node → Prop
  | scalar {value : Scalar} {span : Span} : span.start.le span.stop = true →
      Ordered events (.scalar value span)
  | sequence {items : List Node} {span : Span} : span.start.le span.stop = true →
      (∀ item ∈ items, Ordered events item) → Ordered events (.sequence items span)
  | mapping {entries : List (Node × Node)} {span : Span} : span.start.le span.stop = true →
      (∀ e ∈ entries, Ordered events e.2) → (∀ e ∈ entries, EndsBehind events e.1 e.2) →
      Ordered events (.mapping entries span)

theorem Copied.concat {events : List Event} {key value : Node} (h : Copied events key value)
    (e : Event) : Copied (events ++ [e]) key value := by
  obtain ⟨before, use, after, rfl, hkey, hcopy⟩ := h
  exact ⟨before, use, after ++ [e], by simp, hkey, hcopy⟩

theorem EndsBehind.concat {events : List Event} {key value : Node}
    (h : EndsBehind events key value) (e : Event) : EndsBehind (events ++ [e]) key value :=
  h.imp_right (·.concat e)

namespace Node.Ordered

variable {events : List Event} {n : Node}

theorem concat (h : n.Ordered events) (e : Event) : n.Ordered (events ++ [e]) := by
  induction h with
  | scalar hspan => exact .scalar hspan
  | sequence hspan _ ih => exact .sequence hspan ih
  | mapping hspan _ hkeys ih => exact .mapping hspan ih fun x hx => (hkeys x hx).concat e

theorem mark_le_stop (h : n.Ordered events) : n.mark.le n.stop = true := by
  cases h with
  | scalar hspan => exact hspan
  | sequence hspan _ => exact hspan
  | mapping hspan _ _ => exact hspan

end Node.Ordered

/-! ## The builder -/

def Frame.Ordered (events : List Event) : Frame → Prop
  | .sequence items _ _ => ∀ item ∈ items, item.Ordered events
  | .mapping entries _ _ _ =>
    (∀ e ∈ entries, e.2.Ordered events) ∧ ∀ e ∈ entries, EndsBehind events e.1 e.2

theorem Frame.Ordered.concat {events : List Event} {frame : Frame} (h : frame.Ordered events)
    (e : Event) : frame.Ordered (events ++ [e]) := by
  cases frame with
  | sequence items start anchor => exact fun item hitem => (h item hitem).concat e
  | mapping entries key start anchor =>
    exact ⟨fun x hx => (h.1 x hx).concat e, fun x hx => (h.2 x hx).concat e⟩

namespace Builder

/-- All that is complete is ordered, and what is open starts behind the keys that wait for it. -/
structure Ordered (b : Builder) (events : List Event) : Prop where
  root : ∀ n ∈ b.root, n.Ordered events
  anchors : ∀ x ∈ b.anchors, x.2.1.Ordered events
  frames : ∀ frame ∈ b.stack, frame.Ordered events
  nested : b.stack.IsChain fun inner outer => ∀ key ∈ outer.key?, key.mark.le inner.start = true

@[simp]
theorem pendingKey?_remember (b : Builder) (anchor : Nat) (n : Node) :
    (b.remember anchor n).pendingKey? = b.pendingKey? := by
  simp [pendingKey?]

namespace Ordered

variable {b : Builder} {events : List Event} {n : Node}

theorem start : Ordered {} [] where
  root := by simp
  anchors := by simp
  frames := by simp
  nested := .nil

theorem concat (h : b.Ordered events) (e : Event) : b.Ordered (events ++ [e]) where
  root n hn := (h.root n hn).concat e
  anchors x hx := (h.anchors x hx).concat e
  frames frame hframe := (h.frames frame hframe).concat e
  nested := h.nested

theorem remember (h : b.Ordered events) (hn : n.Ordered events) (anchor : Nat) :
    (b.remember anchor n).Ordered events where
  root := by simpa using h.root
  anchors x hx := by
    rcases mem_anchors_remember b n anchor hx with rfl | hx
    · exact hn
    · exact h.anchors x hx
  frames := by simpa using h.frames
  nested := by simpa using h.nested

/-- The frame on top may change, unless it starts elsewhere. -/
theorem nested_of_start {frame frame' : Frame} {outer : List Frame}
    (h : (frame :: outer).IsChain fun inner outer => ∀ key ∈ outer.key?, key.mark.le inner.start = true)
    (hstart : frame'.start = frame.start) :
    (frame' :: outer).IsChain fun inner outer => ∀ key ∈ outer.key?, key.mark.le inner.start = true := by
  cases outer with
  | nil => exact .singleton _
  | cons next outer =>
    rw [List.isChain_cons_cons] at h ⊢
    rwa [hstart]

theorem add (h : b.Ordered events) (hn : n.Ordered events)
    (hkey : ∀ key ∈ b.pendingKey?, EndsBehind events key n) : (b.add n).Ordered events := by
  have hframes := h.frames
  have hnested := h.nested
  unfold Builder.add
  unfold pendingKey? at hkey
  split
  · refine ⟨fun m hm => ?_, h.anchors, h.frames, h.nested⟩
    cases hroot : b.root with
    | none =>
      rw [hroot] at hm
      obtain rfl := Option.some.inj hm
      exact hn
    | some root =>
      rw [hroot] at hm
      obtain rfl := Option.some.inj hm
      exact h.root _ hroot
  · rename_i items start anchor outer hstack
    rw [hstack] at hframes hnested
    obtain ⟨hframe, houter⟩ := List.forall_mem_cons.1 hframes
    exact ⟨h.root, h.anchors,
      List.forall_mem_cons.2 ⟨List.forall_mem_cons.2 ⟨hn, hframe⟩, houter⟩,
      nested_of_start hnested rfl⟩
  · rename_i entries start anchor outer hstack
    rw [hstack] at hframes hnested
    obtain ⟨hframe, houter⟩ := List.forall_mem_cons.1 hframes
    exact ⟨h.root, h.anchors, List.forall_mem_cons.2 ⟨hframe, houter⟩,
      nested_of_start hnested rfl⟩
  · rename_i entries key start anchor outer hstack
    rw [hstack] at hframes hnested hkey
    obtain ⟨hframe, houter⟩ := List.forall_mem_cons.1 hframes
    exact ⟨h.root, h.anchors, List.forall_mem_cons.2
      ⟨⟨List.forall_mem_cons.2 ⟨hn, hframe.1⟩, List.forall_mem_cons.2 ⟨hkey key rfl, hframe.2⟩⟩,
        houter⟩, nested_of_start hnested rfl⟩

theorem complete (h : b.Ordered events) (hn : n.Ordered events) (anchor : Nat)
    (hkey : ∀ key ∈ b.pendingKey?, EndsBehind events key n) :
    ((b.remember anchor n).add n).Ordered events :=
  (h.remember hn anchor).add hn (by simpa using hkey)

theorem push (h : b.Ordered events) {frame : Frame} (hframe : frame.Ordered events)
    (hkey : ∀ key ∈ b.pendingKey?, key.mark.le frame.start = true) :
    Ordered { b with stack := frame :: b.stack } events where
  root := h.root
  anchors := h.anchors
  frames := List.forall_mem_cons.2 ⟨hframe, h.frames⟩
  nested := by
    have hnested := h.nested
    unfold pendingKey? at hkey
    cases hstack : b.stack with
    | nil => exact .singleton _
    | cons outer rest =>
      rw [hstack] at hnested hkey
      exact .cons_cons hkey hnested

theorem close (h : b.Ordered events) {frame : Frame} {outer : List Frame}
    (hstack : b.stack = frame :: outer) {stop : Mark} (hstop : frame.start.le stop = true) :
    (({ b with stack := outer }.remember (closeFrame stop frame).2 (closeFrame stop frame).1).add
      (closeFrame stop frame).1).Ordered events := by
  have hframes := h.frames
  have hnested := h.nested
  rw [hstack] at hframes hnested
  obtain ⟨hframe, houter⟩ := List.forall_mem_cons.1 hframes
  have h' : Ordered { b with stack := outer } events :=
    ⟨h.root, h.anchors, houter, hnested.tail⟩
  have hn : (closeFrame stop frame).1.Ordered events := by
    cases frame with
    | sequence items start anchor =>
      exact .sequence hstop fun item hitem => hframe item (List.mem_reverse.1 hitem)
    | mapping entries key start anchor =>
      exact .mapping hstop (fun e he => hframe.1 e (List.mem_reverse.1 he))
        fun e he => hframe.2 e (List.mem_reverse.1 he)
  have hend : (closeFrame stop frame).1.stop = stop := by cases frame <;> rfl
  refine h'.complete hn _ fun key hkey => .inl ?_
  rw [hend]
  unfold pendingKey? at hkey
  cases outer with
  | nil => cases hkey
  | cons next outer =>
    exact Mark.le_trans ((List.isChain_cons_cons.1 hnested).1 key hkey) hstop

/-- What the use of an anchor gives is what was under it, or ends behind the key. -/
theorem copy (h : (feedAll {} events).Ordered events) {e : Event} {anchor : Nat}
    (hkind : e.kind = .anchorUse anchor)
    (hkeys : ∀ key ∈ (feedAll {} events).pendingKey?, key.mark.le e.mark = true) :
    (((feedAll {} events).copy anchor e.mark).2.add
      ((feedAll {} events).copy anchor e.mark).1).Ordered (events ++ [e]) := by
  have h' := h.concat e
  have hnull : Node.Ordered (events ++ [e]) (.scalar .null ⟨e.mark, e.mark⟩) :=
    .scalar (Mark.le_refl e.mark)
  obtain ⟨hcopy, -⟩ | ⟨m, size, -, hlook, ⟨-, hcopy⟩ | ⟨-, hcopy⟩⟩ :=
    copy_cases (feedAll {} events) anchor e.mark
  · rw [hcopy]
    exact h'.add hnull fun key hkey => .inl (hkeys key hkey)
  · rw [hcopy]
    have h'' : Ordered { feedAll {} events with exhausted := some e.mark } (events ++ [e]) :=
      ⟨h'.root, h'.anchors, h'.frames, h'.nested⟩
    exact h''.add hnull fun key hkey => .inl (hkeys key hkey)
  · have hof : copyOf? events e = some m := by
      rw [copyOf?, hkind]
      simp only [hlook, Option.map_some]
    have hm : m.Ordered (events ++ [e]) := h'.anchors (anchor, m, size) (mem_of_lookup hlook)
    rw [hcopy]
    have h'' : Ordered { feedAll {} events with copied := (feedAll {} events).copied + size }
        (events ++ [e]) := ⟨h'.root, h'.anchors, h'.frames, h'.nested⟩
    exact h''.add hm fun key hkey => .inr ⟨events, e, [], rfl, hkey, hof⟩

/-- One event keeps the order. -/
theorem feed (h : (feedAll {} events).Ordered events) {e : Event}
    (he : (feedAll {} events).admits e = true) :
    ((feedAll {} events).feed e).Ordered (events ++ [e]) := by
  have h' := h.concat e
  unfold admits at he
  unfold Builder.feed
  cases hkind : e.kind with
  | scalar text style anchor tag =>
    rw [hkind, Option.all_eq_true] at he
    have hstop : e.mark.le ⟨e.mark.line, e.mark.column + text.length⟩ = true := by simp [Mark.le]
    exact h'.complete (.scalar hstop) anchor fun key hkey =>
      .inl (Mark.le_trans (he key hkey) hstop)
  | anchorUse anchor =>
    rw [hkind, Option.all_eq_true] at he
    exact h.copy hkind he
  | sequenceStart anchor tag =>
    rw [hkind, Option.all_eq_true] at he
    exact h'.push (by simp [Frame.Ordered]) he
  | mappingStart anchor tag =>
    rw [hkind, Option.all_eq_true] at he
    exact h'.push (by simp [Frame.Ordered]) he
  | sequenceEnd | mappingEnd =>
    rw [hkind, Option.all_eq_true] at he
    cases hstack : (feedAll {} events).stack with
    | nil => exact h'
    | cons frame outer => exact h'.close hstack (he frame (by rw [hstack]; rfl))

end Ordered

theorem ordered_feedAll {events : List Event} (h : inOrder events = true) :
    (feedAll {} events).Ordered events := by
  induction events using List.reverseRecOn with
  | nil => exact .start
  | append_singleton events e ih =>
    rw [inOrder, admitsAll_concat, Bool.and_eq_true] at h
    rw [feedAll_concat]
    exact (ih h.1).feed h.2

end Builder

theorem Node.ordered_of_ofEvents {events : List Event} {root : Node} (h : inOrder events = true)
    (hroot : ofEvents events = .ok root) : root.Ordered events :=
  (Builder.ordered_feedAll h).root root (root_of_ofEvents hroot)

end ApiLint.Yaml
