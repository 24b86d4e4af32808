import ApiLint.Number.Reading
import ApiLint.Pattern.Basic
import ApiLint.Text.Identifier

/-!
# The syntax of patterns

Reads the regular expressions of ECMA-262, with the lenient forms that it keeps for patterns
without a Unicode flag: a brace or bracket that closes nothing stands for itself, and so does an
escaped character without a meaning. `Pattern.read?` gives no tree for what is no pattern.
-/

set_option autoImplicit false

namespace ApiLint.Pattern

open Number (digitValue? digitsValue isDigitIn)

/-! ## Named groups -/

/-- The four digits of a code unit, or a code point in braces. -/
def codePoint? : List Char → Option (Nat × List Char)
  | '\x7b' :: rest =>
    let digits := rest.takeWhile (isDigitIn 16)
    match rest.dropWhile (isDigitIn 16) with
    | '\x7d' :: after =>
      let n := digitsValue 16 digits
      if digits ≠ [] ∧ n ≤ 0x10FFFF then some (n, after) else none
    | _ => none
  | a :: b :: c :: d :: rest =>
    if [a, b, c, d].all (isDigitIn 16) then some (digitsValue 16 [a, b, c, d], rest) else none
  | _ => none

/-- The characters of a name up to the closing bracket, latest first. -/
def nameBody : Nat → List Char → List Char → Option (List Char × List Char)
  | 0, _, _ => none
  | fuel + 1, name, rest =>
    let next : Option (Char × List Char) := match rest with
      | '\\' :: 'u' :: rest => (codePoint? rest).map fun (n, after) => (Char.ofNat n, after)
      | c :: rest => some (c, rest)
      | [] => none
    match rest, next with
    | '>' :: rest, _ => if name.isEmpty then none else some (name, rest)
    | _, none => none
    | _, some (c, after) =>
      let fits := c == '$' || c == '_' ||
        (if name.isEmpty then Text.startsIdentifier c
         else Text.continuesIdentifier c || c.toNat == 0x200C || c.toNat == 0x200D)
      if fits then nameBody fuel (c :: name) after else none

/-- A name in angle brackets, and what follows it. -/
def groupName? : List Char → Option (String × List Char)
  | '<' :: rest =>
    (nameBody (rest.length + 1) [] rest).map fun (name, after) =>
      (String.ofList name.reverse, after)
  | _ => none

/-- Skips a bracketed class. -/
def afterClass : List Char → List Char
  | [] => []
  | '\\' :: _ :: rest => afterClass rest
  | ']' :: rest => rest
  | _ :: rest => afterClass rest

theorem length_afterClass (s : List Char) : (afterClass s).length ≤ s.length := by
  fun_induction afterClass s <;> simp <;> omega

/-- The names of groups with the numbers of the groups, and how many groups there are. A first
look that knows escapes and classes and nothing else. -/
def groupNames (count : Nat) : List Char → List (String × Nat) × Nat
  | [] => ([], count)
  | '\\' :: _ :: rest => groupNames count rest
  | '[' :: rest => groupNames count (afterClass rest)
  | '(' :: '?' :: rest =>
    match groupName? rest with
    | some (name, _) =>
      let (names, total) := groupNames (count + 1) rest
      ((name, count + 1) :: names, total)
    | none => groupNames count rest
  | '(' :: rest => groupNames (count + 1) rest
  | _ :: rest => groupNames count rest
termination_by s => s.length
decreasing_by
  all_goals simp_wf
  all_goals first
    | omega
    | (have h := length_afterClass rest; omega)

/-! ## Reading -/

/-- What is known of a pattern before it is read. -/
structure Outline where
  names : List (String × Nat)
  groups : Nat

/-- The switches that a group may set for its body. -/
structure Modifiers where
  ignoreCase : Bool := false
  eachLine : Bool := false
  dotAll : Bool := false

structure Cursor where
  rest : List Char
  /-- The number of groups opened. -/
  opened : Nat := 0
  /-- The names that a group which could match together with the next one has. -/
  names : List String := []

abbrev Reading := StateT Cursor Option

namespace Reading

def peek : Reading (Option Char) := do
  return (← get).rest.head?

def skip (n : Nat) : Reading Unit :=
  modify fun c => { c with rest := c.rest.drop n }

/-- Consumes a text if it comes next. -/
def accept (text : List Char) : Reading Bool := do
  if text.isPrefixOf (← get).rest then
    skip text.length
    return true
  return false

def expect (text : List Char) : Reading Unit := do
  unless ← accept text do failure

def setRest (rest : List Char) : Reading Unit :=
  modify fun c => { c with rest := rest }

end Reading

open Reading

/-- What stands for one character, or for one of a set. -/
inductive Atom where
  | char (c : Char)
  | set (ranges : List (Nat × Nat))

def Atom.ranges : Atom → List (Nat × Nat)
  | .char c => [(c.toNat, c.toNat)]
  | .set ranges => ranges

def Modifiers.pattern (m : Modifiers) (ranges : List (Nat × Nat)) (negated : Bool) : Pattern :=
  .chars ⟨if m.ignoreCase then CharSet.foldCase ranges else ranges, negated⟩

/-- The escapes of sets of characters. -/
def classEscape? : Char → Option (List (Nat × Nat))
  | 'd' => some CharSet.digits
  | 'D' => some (CharSet.gaps 0 CharSet.digits)
  | 's' => some CharSet.space
  | 'S' => some (CharSet.gaps 0 CharSet.space)
  | 'w' => some CharSet.word
  | 'W' => some (CharSet.gaps 0 CharSet.word)
  | _ => none

def controlEscape? : Char → Option Char
  | 'f' => some '\x0c'
  | 'n' => some '\n'
  | 'r' => some '\r'
  | 't' => some '\t'
  | 'v' => some '\x0b'
  | _ => none

/-- Up to three octal digits with a value below 256. -/
def octal (digits : List Char) : Nat × Nat :=
  let run := (digits.take 3).takeWhile (isDigitIn 8)
  let run := if digitsValue 8 run < 256 then run else run.take 2
  (digitsValue 8 run, run.length)

/-- The character that an escape stands for. The backslash is consumed; `\c` is not handled here.
Escapes without a meaning stand for the escaped character, save `\k` in patterns with names. -/
def characterEscape (outline : Outline) : Reading Char := do
  let rest := (← get).rest
  match rest with
  | [] => failure
  | c :: after =>
    if let some control := controlEscape? c then
      skip 1
      return control
    else if isDigitIn 8 c then
      let (value, length) := octal rest
      skip length
      return Char.ofNat value
    else if c == 'x' && ((after.take 2).length == 2 && (after.take 2).all (isDigitIn 16)) then
      skip 3
      return Char.ofNat (digitsValue 16 (after.take 2))
    else if c == 'u' && ((after.take 4).length == 4 && (after.take 4).all (isDigitIn 16)) then
      skip 5
      return Char.ofNat (digitsValue 16 (after.take 4))
    else if c == 'k' && !outline.names.isEmpty then failure
    else
      skip 1
      return c

/-! ### Classes -/

/-- The character of `\c`, in classes also from digits and the underscore. -/
def controlLetter? (inClass : Bool) : List Char → Option Char
  | c :: _ =>
    if c.isAlpha || (inClass && (c.isDigit || c == '_')) then some (Char.ofNat (c.toNat % 32))
    else none
  | [] => none

def classAtom (outline : Outline) : Reading Atom := do
  match (← get).rest with
  | [] => failure
  | '\\' :: 'c' :: after =>
    match controlLetter? true after with
    | some c =>
      skip 3
      return .char c
    | none =>
      skip 1
      return .char '\\'
  | '\\' :: 'b' :: _ =>
    skip 2
    return .char '\x08'
  | '\\' :: c :: _ =>
    match classEscape? c with
    | some ranges =>
      skip 2
      return .set ranges
    | none =>
      skip 1
      return .char (← characterEscape outline)
  | ['\\'] => failure
  | c :: _ =>
    skip 1
    return .char c

/-- The members of a class up to its closing bracket. A range needs a character at both ends,
in order; next to a set its dash stands for itself. -/
def classMembers (outline : Outline) : Nat → List (Nat × Nat) → Reading (List (Nat × Nat))
  | 0, _ => failure
  | fuel + 1, members => do
    if ← accept [']'] then
      return members
    let first ← classAtom outline
    match (← get).rest with
    | '-' :: ']' :: _ => classMembers outline fuel (members ++ first.ranges)
    | '-' :: _ =>
      skip 1
      let last ← classAtom outline
      match first, last with
      | .char low, .char high =>
        if high < low then failure
        else classMembers outline fuel (members ++ [(low.toNat, high.toNat)])
      | _, _ =>
        classMembers outline fuel (members ++ first.ranges ++ [(0x2D, 0x2D)] ++ last.ranges)
    | _ => classMembers outline fuel (members ++ first.ranges)

/-! ### Quantifiers -/

/-- Bounds in braces; nothing where the brace opens no bounds. -/
def bounds? : List Char → Option (Nat × Option Nat × List Char)
  | '\x7b' :: rest =>
    let low := rest.takeWhile (isDigitIn 10)
    if low.isEmpty then none
    else
      match rest.dropWhile (isDigitIn 10) with
      | '\x7d' :: after => some (digitsValue 10 low, some (digitsValue 10 low), after)
      | ',' :: rest =>
        let high := rest.takeWhile (isDigitIn 10)
        match rest.dropWhile (isDigitIn 10) with
        | '\x7d' :: after =>
          some (digitsValue 10 low, if high.isEmpty then none else some (digitsValue 10 high),
            after)
        | _ => none
      | _ => none
  | _ => none

def quantifier? : List Char → Option (Nat × Option Nat × List Char)
  | '*' :: rest => some (0, none, rest)
  | '+' :: rest => some (1, none, rest)
  | '?' :: rest => some (0, some 1, rest)
  | rest => bounds? rest

/-- Applies the quantifier that follows, if any. A question mark behind it changes which match is
found and not whether there is one. -/
def quantified (repeatable : Bool) (p : Pattern) : Reading Pattern := do
  match quantifier? (← get).rest with
  | none => return p
  | some (least, most, rest) =>
    unless repeatable do failure
    if most.any (· < least) then failure
    setRest rest
    let _ ← accept ['?']
    return .repeated least most p

/-! ### Terms -/

/-- The escapes outside of classes. -/
def escape (outline : Outline) (m : Modifiers) : Reading (Pattern × Bool) := do
  let literal (c : Char) : Pattern := m.pattern [(c.toNat, c.toNat)] false
  match (← get).rest with
  | [] => failure
  | 'b' :: _ =>
    skip 1
    return (.wordBoundary false, false)
  | 'B' :: _ =>
    skip 1
    return (.wordBoundary true, false)
  | 'c' :: after =>
    match controlLetter? false after with
    | some c =>
      skip 2
      return (literal c, true)
    | none => return (literal '\\', true)
  | 'k' :: after =>
    if outline.names.isEmpty then
      skip 1
      return (literal 'k', true)
    else
      let (name, rest) ← groupName? after
      let groups := (outline.names.filter (·.1 == name)).map (·.2)
      if groups.isEmpty then failure
      setRest rest
      return (.backreference groups, true)
  | c :: _ =>
    match classEscape? c with
    | some ranges =>
      skip 1
      return (m.pattern ranges false, true)
    | none =>
      let digits := (← get).rest.takeWhile (isDigitIn 10)
      let n := digitsValue 10 digits
      if c != '0' && !digits.isEmpty && n ≤ outline.groups then
        skip digits.length
        return (.backreference [n], true)
      else return (literal (← characterEscape outline), true)

/-- Letters that switch modifiers, each once. -/
def modifierLetters (s : List Char) : List Char :=
  s.takeWhile fun c => c == 'i' || c == 'm' || c == 's'

/-- Switches on, then behind a dash off; none twice and at least one; a colon ends them. -/
def modifiers? (m : Modifiers) (s : List Char) : Option (Modifiers × List Char) :=
  let on := modifierLetters s
  let rest := s.drop on.length
  let (off, rest, dashed) := match rest with
    | '-' :: rest =>
      let off := modifierLetters rest
      (off, rest.drop off.length, true)
    | rest => ([], rest, false)
  match rest with
  | ':' :: rest =>
    if !(on ++ off).Nodup || (dashed && (on ++ off).isEmpty) then none
    else
      let switch (c : Char) (now : Bool) : Bool :=
        if on.contains c then true else if off.contains c then false else now
      some (⟨switch 'i' m.ignoreCase, switch 'm' m.eachLine, switch 's' m.dotAll⟩, rest)
  | _ => none

/-- Opens a group: notes its number and its name, which no group that could match together with
it may have. -/
def openGroup (name : Option String) : Reading Nat := do
  let c ← get
  if name.any c.names.contains then failure
  set { c with opened := c.opened + 1, names := name.toList ++ c.names }
  return c.opened + 1

/-- What stands behind an opening of the given length, up to the closing parenthesis. -/
def enclosed (opening : Nat) (wrap : Pattern → Pattern) (repeatable : Bool)
    (inner : Reading Pattern) : Reading (Pattern × Bool) := do
  skip opening
  let body ← inner
  expect [')']
  return (wrap body, repeatable)

mutual

/-- Alternatives. Names of groups in different ones may agree. -/
def alternatives (outline : Outline) (m : Modifiers) : Nat → Reading Pattern
  | 0 => failure
  | fuel + 1 => do
    let before := (← get).names
    let first ← sequence outline m fuel
    if ← accept ['|'] then
      let here := (← get).names
      modify fun c => { c with names := before }
      let others ← alternatives outline m fuel
      modify fun c => { c with names := here ++ c.names }
      return .alt first others
    return first

def sequence (outline : Outline) (m : Modifiers) : Nat → Reading Pattern
  | 0 => failure
  | fuel + 1 => do
    match ← peek with
    | none | some '|' | some ')' => return .empty
    | some _ =>
      let (p, repeatable) ← term outline m fuel
      let p ← quantified repeatable p
      return .seq p (← sequence outline m fuel)

/-- One term, and whether it may be repeated. -/
def term (outline : Outline) (m : Modifiers) : Nat → Reading (Pattern × Bool)
  | 0 => failure
  | fuel + 1 => do
    match (← get).rest with
    | [] => failure
    | '^' :: _ =>
      skip 1
      return (.start m.eachLine, false)
    | '$' :: _ =>
      skip 1
      return (.stop m.eachLine, false)
    | '.' :: _ =>
      skip 1
      return (.chars ⟨if m.dotAll then [] else CharSet.lineTerminators, true⟩, true)
    | '\\' :: _ =>
      skip 1
      escape outline m
    | '[' :: '^' :: _ =>
      skip 2
      let length := (← get).rest.length
      return (m.pattern (← classMembers outline (length + 1) []) true, true)
    | '[' :: _ =>
      skip 1
      let length := (← get).rest.length
      return (m.pattern (← classMembers outline (length + 1) []) false, true)
    | '(' :: '?' :: '=' :: _ => enclosed 3 (.look true false) true (alternatives outline m fuel)
    | '(' :: '?' :: '!' :: _ => enclosed 3 (.look true true) true (alternatives outline m fuel)
    | '(' :: '?' :: '<' :: '=' :: _ =>
      enclosed 4 (.look false false) false (alternatives outline m fuel)
    | '(' :: '?' :: '<' :: '!' :: _ =>
      enclosed 4 (.look false true) false (alternatives outline m fuel)
    | '(' :: '?' :: '<' :: rest =>
      let (name, rest) ← groupName? ('<' :: rest)
      let index ← openGroup (some name)
      setRest rest
      enclosed 0 (.group index) true (alternatives outline m fuel)
    | '(' :: '?' :: rest =>
      let (m, rest) ← modifiers? m rest
      setRest rest
      enclosed 0 id true (alternatives outline m fuel)
    | '(' :: _ =>
      let index ← openGroup none
      enclosed 1 (.group index) true (alternatives outline m fuel)
    | '*' :: _ | '+' :: _ | '?' :: _ => failure
    | c :: rest =>
      if (bounds? (c :: rest)).isSome then failure
      skip 1
      return (m.pattern [(c.toNat, c.toNat)] false, true)

end

/-- The tree of a pattern; none if the text is no pattern. -/
def read? (text : String) : Option Pattern := do
  let chars := text.toList
  let (names, groups) := groupNames 0 chars
  let fuel := 3 * chars.length + 3
  let (p, cursor) ← (alternatives ⟨names, groups⟩ {} fuel).run { rest := chars }
  if cursor.rest.isEmpty then some p else none

end ApiLint.Pattern
