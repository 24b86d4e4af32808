import ApiLint.Proofs.Documents
import ApiLint.Proofs.Memos
import ApiLint.Proofs.Reaching
import ApiLint.Proofs.Verdicts

/-!
# One validator for many values

A validator that has validated values under schemas of a document keeps what it has prepared for
them, under the id of each schema once (`ExampleValidator.Keeps`). So it is faithful
(`ExampleValidator.Keeps.faithful`), and its verdicts are those of new validators, in whatever order
values are validated and however often (`Document.validateAll_eq`).
-/

set_option autoImplicit false

namespace ApiLint

open Yaml (Node)

namespace ExampleValidator

/-- The verdicts on values, each under a schema, that are validated one after the other, and the
validator afterwards. -/
def validateAll (v : ExampleValidator) (d : Document) :
    List (Schema × Node) → List Verdict × ExampleValidator
  | [] => ([], v)
  | (s, value) :: calls =>
    let (verdict, v) := v.validate d s value
    let (verdicts, v) := v.validateAll d calls
    (verdict :: verdicts, v)

/-- The validator has prepared the schemas with these ids, each once. -/
structure Keeps (d : Document) (ids : List SchemaId) (v : ExampleValidator) : Prop where
  source : v.source = .ofDocument d
  prepared : Remembers (fun id p => ∃ s, d.schema? id = some s ∧ p = .ofSchema d (.ofDocument d) s)
    ids v.prepared

namespace Keeps

variable {d : Document} {ids : List SchemaId} {v : ExampleValidator} {s : Schema}

theorem ofDocument (d : Document) : Keeps d [] (.ofDocument d) where
  source := rfl
  prepared := .nil

theorem faithful (h : Keeps d ids v) : Faithful d v where
  source := h.source
  prepared s p hs hp := by
    obtain ⟨t, ht, rfl⟩ := h.prepared.right_of_lookup hp
    rw [hs] at ht
    rw [Option.some.inj ht]

theorem prepare (h : Keeps d ids v) (hs : d.schema? s.id = some s) :
    Keeps d (ids ++ [s.id]) (v.prepare d s).2 := by
  unfold ExampleValidator.prepare
  cases hlookup : v.prepared.lookup s.id with
  | some p => exact ⟨h.source, h.prepared.hit hlookup⟩
  | none => exact ⟨h.source, h.prepared.miss hlookup ⟨s, hs, by rw [h.source]⟩⟩

/-- Each of several verdicts is that of a new validator. -/
theorem validateAll (h : Keeps d ids v) {calls : List (Schema × Node)}
    (hcalls : ∀ call ∈ calls, d.schema? call.1.id = some call.1) :
    (v.validateAll d calls).1 = calls.map (fun call => d.verdict call.1 call.2) ∧
      Keeps d (ids ++ calls.map (·.1.id)) (v.validateAll d calls).2 := by
  induction calls generalizing v ids with
  | nil =>
    refine ⟨rfl, ?_⟩
    rw [List.map_nil, List.append_nil]
    exact h
  | cons call calls ih =>
    -- The other calls start with what the first one leaves, which is faithful again.
    obtain ⟨hcall, hcalls⟩ := List.forall_mem_cons.1 hcalls
    obtain ⟨hverdict, -⟩ := h.faithful.validate hcall call.2
    obtain ⟨hverdicts, hkeeps⟩ := ih (v := (v.validate d call.1 call.2).2) (h.prepare hcall) hcalls
    rw [List.map_cons, List.map_cons, List.append_cons, ← hverdict, ← hverdicts]
    exact ⟨rfl, hkeeps⟩

end Keeps

end ExampleValidator

namespace Document

/-- **A validator gives the verdicts of new ones.** Whatever values are validated under schemas of
the document, in whatever order and however often, each verdict is the one that a validator gives
which has validated nothing before. What is kept under an id is what is prepared for the schema with
that id, and it is kept once for each schema that has been used. -/
theorem validateAll_eq (root : Node) (d : Document) (h : ofNode root = .ok d)
    (calls : List (Schema × Node)) (hcalls : ∀ call ∈ calls, call.1 ∈ d.schemas) :
    let run := (ExampleValidator.ofDocument d).validateAll d calls
    run.1 = calls.map (fun (s, value) => ((ExampleValidator.ofDocument d).validate d s value).1) ∧
    (∀ entry ∈ run.2.prepared, ∃ s, d.schema? entry.1 = some s ∧ s.id = entry.1 ∧
      entry.2 = .ofSchema d (.ofDocument d) s) ∧
    (run.2.prepared.map (·.1)).Nodup ∧
    ∀ id, id ∈ run.2.prepared.map (·.1) ↔ ∃ call ∈ calls, call.1.id = id := by
  intro run
  obtain ⟨-, draft, hdraft⟩ := loaded_of_ofNode h
  have hd := hdraft.schemasNamed
  obtain ⟨hverdicts, hkeeps⟩ := (ExampleValidator.Keeps.ofDocument d).validateAll
    fun call hcall => hd.schema?_of_mem (hcalls call hcall)
  refine ⟨hverdicts, fun entry hentry => ?_, hkeeps.prepared.nodup, fun id => ?_⟩
  · obtain ⟨s, hs, hprepared⟩ := hkeeps.prepared.right entry hentry
    exact ⟨s, hs, hd.schema?_id hs, hprepared⟩
  · rw [hkeeps.prepared.keys, List.nil_append, List.mem_map]

/-- A document with a schema for integers, one that leads back to itself and one of an unknown
type. -/
def assorted : Node :=
  .table 1 [("openapi", .word "3.1.0" 1), ("components", .table 3 [("schemas", .table 4 [
    ("Count", .table 5 [("type", .word "integer" 5)]),
    ("Ring", .table 6 [("allOf", .sequence [.pointTo 7 "#/components/schemas/Ring"]
      ⟨⟨7, 1⟩, ⟨7, 1⟩⟩)]),
    ("Odd", .table 8 [("type", .word "amount" 8)])])])]

/-- Values validated in turn, under some schemas twice. -/
def inTurn (count ring odd : Schema) : List (Schema × Node) :=
  [(count, .word "many" 1), (ring, .word "many" 1), (odd, .word "many" 1), (count, .word "few" 1),
    (ring, .word "few" 1)]

theorem validateAll_eq_assorted : ∃ d count ring odd, ofNode assorted = .ok d ∧
    (∀ call ∈ inTurn count ring odd, call.1 ∈ d.schemas) ∧
    ((ExampleValidator.ofDocument d).validateAll d (inTurn count ring odd)).1 =
      [.invalid ["\"many\" is not of type \"integer\""], .cyclic,
        .unconvertible
          "\"amount\" is not valid under any of the schemas listed in the 'anyOf' keyword",
        .invalid ["\"few\" is not of type \"integer\""], .cyclic] := by
  have hrun : ((ofNode assorted).toOption.bind fun d => do
      let count ← d.schemas[0]?
      let ring ← d.schemas[1]?
      let odd ← d.schemas[2]?
      return decide ((inTurn count ring odd).map (fun (s, value) =>
          ((ExampleValidator.ofDocument d).validate d s value).1) =
        [.invalid ["\"many\" is not of type \"integer\""], .cyclic,
          .unconvertible
            "\"amount\" is not valid under any of the schemas listed in the 'anyOf' keyword",
          .invalid ["\"few\" is not of type \"integer\""], .cyclic])) = some true := by
    decide +kernel
  obtain ⟨d, hd, he⟩ := ofNode_of_toOption hrun
  obtain ⟨count, hcount, he⟩ := Option.bind_eq_some_iff.1 he
  obtain ⟨ring, hring, he⟩ := Option.bind_eq_some_iff.1 he
  obtain ⟨odd, hodd, he⟩ := Option.bind_eq_some_iff.1 he
  have hcalls : ∀ call ∈ inTurn count ring odd, call.1 ∈ d.schemas := by
    simp [inTurn, Array.mem_of_getElem? hcount, Array.mem_of_getElem? hring,
      Array.mem_of_getElem? hodd]
  obtain ⟨hverdicts, -⟩ := validateAll_eq assorted d hd (inTurn count ring odd) hcalls
  exact ⟨d, count, ring, odd, hd, hcalls,
    hverdicts.trans (of_decide_eq_true (Option.some.inj he))⟩

end Document

end ApiLint
