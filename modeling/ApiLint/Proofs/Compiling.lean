import ApiLint.JsonSchema.Meta

/-!
# Compiled schemas

A schema that compiles has the keywords of each of its members, whatever is beside them
(`JsonSchema.exists_keywords_of_compile`). So a value that is not of the type that a schema asks for
has a violation that says so (`JsonSchema.wrongType_mem_violations`).
-/

set_option autoImplicit false

namespace ApiLint

theorem JsonKind.ofName?_name (kind : JsonKind) : JsonKind.ofName? kind.name = some kind := by
  cases kind <;> simp [ofName?, all, name]

/-- The violation of a value that has none of the kinds. -/
def Violation.ofKinds (value : Json) : List JsonKind → Violation
  | [kind] => ⟨value, .wrongType kind⟩
  | kinds => ⟨value, .wrongTypes kinds⟩

theorem Violation.value_ofKinds (value : Json) (kinds : List JsonKind) :
    (ofKinds value kinds).value = value := by
  unfold ofKinds
  split <;> rfl

namespace JsonSchema

/-! ## Violations of single keywords -/

section
variable (draft : SchemaDraft) (library : Library) (n : Nat) (keywords : List Keyword)

/-- The violations that one of the keywords of a schema adds. -/
def violationsBy (keyword : Keyword) (value : Json) : List Violation :=
  checkKeyword (violationsAt draft library n) draft library keyword value ++
    checkUnevaluated (violationsAt draft library n) library n keywords keyword value

variable {draft library n keywords} {value : Json} {v : Violation}

theorem mem_violationsAt_object : v ∈ violationsAt draft library (n + 1) (.object keywords) value ↔
    ∃ k ∈ keywords, v ∈ violationsBy draft library n keywords k value := by
  rw [violationsAt, List.mem_flatMap]
  rfl

theorem mem_require {holds : Bool} {cause : Cause} :
    v ∈ require holds value cause ↔ holds = false ∧ v = ⟨value, cause⟩ := by
  cases holds <;> simp [require]

attribute [local simp] violationsBy checkKeyword checkAny checkNumber checkString checkArray
  checkObject checkUnevaluated mem_require

theorem mem_violationsBy_types {kinds : List JsonKind} :
    v ∈ violationsBy draft library n keywords (.types kinds) value ↔
      kinds.any (·.admits draft value) = false ∧ v = .ofKinds value kinds := by
  rcases kinds with _ | ⟨kind, _ | ⟨next, rest⟩⟩ <;> cases value <;> simp [Violation.ofKinds]

theorem mem_violationsBy_enumeration {options : List Json} :
    v ∈ violationsBy draft library n keywords (.enumeration options) value ↔
      options.any (value.same ·) = false ∧ v = ⟨value, .unlisted options⟩ := by
  cases value <;> simp

theorem mem_violationsBy_anyOf {schemas : List JsonSchema} :
    v ∈ violationsBy draft library n keywords (.anyOf schemas) value ↔
      (∀ s ∈ schemas, violationsAt draft library n s value ≠ []) ∧ v = ⟨value, .noAnyOf⟩ := by
  cases value <;> simp [conforms]

theorem mem_violationsBy_reference {pointer : String} :
    v ∈ violationsBy draft library n keywords (.reference pointer) value ↔
      ∃ s, library.lookup pointer = some s ∧ v ∈ violationsAt draft library n s value := by
  cases hlookup : library.lookup pointer <;> cases value <;> simp [hlookup]

theorem mem_violationsBy_items {start : Nat} {schema : JsonSchema} :
    v ∈ violationsBy draft library n keywords (.items start schema) value ↔
      ∃ items, value = .arr items ∧
        ∃ item ∈ items.drop start, v ∈ violationsAt draft library n schema item := by
  cases value <;> simp

theorem mem_violationsBy_minItems {least : Nat} :
    v ∈ violationsBy draft library n keywords (.minItems least) value ↔
      ∃ items, value = .arr items ∧ items.length < least ∧ v = ⟨value, .tooFewItems least⟩ := by
  cases value <;> simp

theorem mem_violationsBy_uniqueItems :
    v ∈ violationsBy draft library n keywords .uniqueItems value ↔
      ∃ items, value = .arr items ∧ Json.allDistinct items = false ∧
        v = ⟨value, .repeatedItems⟩ := by
  cases value <;> simp

theorem mem_violationsBy_properties {schemas : List (String × JsonSchema)} :
    v ∈ violationsBy draft library n keywords (.properties schemas) value ↔
      ∃ members, value = .obj members ∧ ∃ p ∈ schemas, ∃ w, Keyed.find? p.1 members = some w ∧
        v ∈ violationsAt draft library n p.2 w := by
  have hgetD : ∀ (o : Option Json) (s : JsonSchema),
      v ∈ (o.map (violationsAt draft library n s)).getD [] ↔
        ∃ w, o = some w ∧ v ∈ violationsAt draft library n s w := by
    rintro (_ | w) s <;> simp
  cases value <;> simp [hgetD]

/-- Where no properties are named or matched, all are others. -/
theorem mem_violationsBy_additionalProperties {own : List Keyword} :
    v ∈ violationsBy draft library n keywords (.additionalProperties [] [] (.object own)) value ↔
      ∃ members, value = .obj members ∧
        ∃ p ∈ members, v ∈ violationsAt draft library n (.object own) p.2 := by
  cases value <;> simp [otherMembers]

theorem mem_violationsBy_dependent {schemas : List (String × JsonSchema)} :
    v ∈ violationsBy draft library n keywords (.dependent schemas) value ↔
      ∃ members, value = .obj members ∧ ∃ p ∈ schemas, (Keyed.find? p.1 members).isSome = true ∧
        v ∈ violationsAt draft library n p.2 value := by
  cases value <;> simp

end

/-! ## Readings -/

section
variable {α β : Type}

theorem run_bind_eq_ok {m : Reading α} {f : α → Reading β} {l l'' : Library} {b : β} :
    (m >>= f).run l = .ok (b, l'') ↔
      ∃ a l', m.run l = .ok (a, l') ∧ (f a).run l' = .ok (b, l'') := by
  rw [StateT.run_bind]
  cases m.run l with
  | error e => exact ⟨nofun, fun ⟨_, _, h, _⟩ => nomatch h⟩
  | ok r => exact ⟨fun h => ⟨r.1, r.2, rfl, h⟩, fun ⟨_, _, h, h'⟩ => Except.ok.inj h ▸ h'⟩

theorem run_pure_eq_ok {a b : α} {l l' : Library} :
    (pure a : Reading α).run l = .ok (b, l') ↔ a = b ∧ l = l' := by
  rw [StateT.run_pure]
  exact ⟨fun h => Prod.mk.inj (Except.ok.inj h), fun ⟨ha, hl⟩ => ha ▸ hl ▸ rfl⟩

/-- What all readings of a list give is in the result. -/
theorem exists_of_run_mapM {f : α → Reading β} {xs : List α} {ys : List β} {l l'' : Library}
    (h : (xs.mapM f).run l = .ok (ys, l'')) {x : α} (hx : x ∈ xs) :
    ∃ y ∈ ys, ∃ l l', (f x).run l = .ok (y, l') := by
  induction xs generalizing ys l l'' with
  | nil => cases hx
  | cons first rest ih =>
    rw [List.mapM_cons] at h
    obtain ⟨y, l', hfirst, h⟩ := run_bind_eq_ok.1 h
    obtain ⟨ys', m, hrest, h⟩ := run_bind_eq_ok.1 h
    obtain ⟨rfl, -⟩ := run_pure_eq_ok.1 h
    rcases List.mem_cons.1 hx with rfl | hx
    · exact ⟨y, List.mem_cons_self, l, l', hfirst⟩
    · obtain ⟨z, hz, hrun⟩ := ih hrest hx
      exact ⟨z, List.mem_cons_of_mem _ hz, hrun⟩

end

/-! ## Keywords -/

theorem compile_of_compileChecked {draft : SchemaDraft} {value : Json} {compiled : Compiled}
    (h : compileChecked draft value = .ok compiled) : compile draft value = .ok compiled := by
  unfold compileChecked at h
  dsimp only at h
  split at h
  · cases h
  · exact h

theorem compile_eq_ok_iff {draft : SchemaDraft} {value : Json} {compiled : Compiled} :
    compile draft value = .ok compiled ↔
      (readAt ⟨draft, value⟩ ((value.size + 1) * (value.size + 1)) value).run [] =
        .ok (compiled.schema, compiled.library) := by
  unfold compile
  dsimp only
  cases (readAt ⟨draft, value⟩ ((value.size + 1) * (value.size + 1)) value).run [] with
  | error e => exact ⟨nofun, nofun⟩
  | ok r =>
    obtain ⟨schema, library⟩ := r
    obtain ⟨schema', library'⟩ := compiled
    simp [bind, Except.bind, pure, Except.pure]

/-- What a member is read as is among the keywords. -/
theorem exists_keywords_of_compile {members : List (String × Json)} {compiled : Compiled}
    (h : compile .draft202012 (.obj members) = .ok compiled) {key : String} {value : Json}
    (hmember : (key, value) ∈ members) : ∃ keywords own, compiled.schema = .object keywords ∧
      own ⊆ keywords ∧ ∃ source depth l l',
        (readKeyword source (readAt source depth) members key value).run l = .ok (own, l') := by
  rw [compile_eq_ok_iff] at h
  obtain ⟨depth, hdepth⟩ : ∃ depth, ((Json.obj members).size + 1) * ((Json.obj members).size + 1) =
      depth + 1 :=
    Nat.exists_eq_succ_of_ne_zero (Nat.mul_ne_zero (Nat.succ_ne_zero _) (Nat.succ_ne_zero _))
  rw [hdepth, readAt] at h
  obtain ⟨read, l', hread, h⟩ := run_bind_eq_ok.1 h
  obtain ⟨hschema, -⟩ := run_pure_eq_ok.1 h
  obtain ⟨own, hown, l, l', hrun⟩ := exists_of_run_mapM hread hmember
  exact ⟨_, own, hschema.symm, fun k hk => List.mem_flatten_of_mem hown hk, _, depth, l, l', hrun⟩

theorem run_readKeyword_type (source : Source) (readSchema : Json → Reading JsonSchema)
    (members : List (String × Json)) (kind : JsonKind) (l : Library) :
    (readKeyword source readSchema members "type" (.str kind.name)).run l =
      .ok ([.types [kind]], l) := by
  simp only [readKeyword, readKinds, JsonKind.ofName?_name, pure_bind]
  rfl

/-- A value of another type than the schema asks for has a violation that says so. -/
theorem wrongType_mem_violations {members : List (String × Json)} {compiled : Compiled}
    (h : compile .draft202012 (.obj members) = .ok compiled) {kind : JsonKind}
    (hkind : ("type", .str kind.name) ∈ members) {value : Json}
    (hvalue : kind.admits .draft202012 value = false) (size : Nat) :
    ⟨value, .wrongType kind⟩ ∈ compiled.violations .draft202012 size value := by
  obtain ⟨keywords, own, hschema, hown, source, depth, l, l', hrun⟩ :=
    exists_keywords_of_compile h hkind
  rw [run_readKeyword_type] at hrun
  obtain ⟨rfl, -⟩ := Prod.mk.inj (Except.ok.inj hrun)
  obtain ⟨depth, hdepth⟩ : ∃ depth, (size + 1) * (value.size + 1) = depth + 1 :=
    Nat.exists_eq_succ_of_ne_zero (Nat.mul_ne_zero (Nat.succ_ne_zero _) (Nat.succ_ne_zero _))
  rw [Compiled.violations, hschema, hdepth, mem_violationsAt_object]
  exact ⟨_, hown List.mem_cons_self, mem_violationsBy_types.2 ⟨by simpa using hvalue, rfl⟩⟩

end JsonSchema

end ApiLint
