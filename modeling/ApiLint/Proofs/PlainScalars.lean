import ApiLint.Proofs.JsonTrees
import Mathlib.Data.List.Induction

/-!
# Plain scalars and the core schema

What a plain scalar is read as, against the grammar of the YAML 1.2 core schema. The grammar is
written down without the readers: integers digit by digit (`Number.Writes`, `Number.WritesInt`,
`Yaml.Scalar.CoreInt`), decimals by their parts (`Number.IsDecimal`), and the words with a value of
their own (`Yaml.Scalar.words`).

* **The readers of numbers** take exactly their forms (`Number.readInt64?_eq_some_iff`,
  `Number.isSome_readFloat?_iff`). The guard in front of them lets every decimal through
  (`Yaml.Scalar.looksNumeric_of_isDecimal`) and so keeps out nothing that a reader takes.
* **The reader behind a prefix** is the one for signed integers, though the core schema has no sign
  there. These texts are the only ones that the grammar does not know
  (`Yaml.Scalar.SignedInside`, `Yaml.Scalar.ofPlain_signed_inside`).

The kinds of value exclude each other, and `Yaml.Scalar.ofPlain_reads` says for each of them which
texts it is read from.
-/

set_option autoImplicit false

namespace ApiLint

namespace Number

/-! ## Signs -/

/-- The form `[-+]?`. -/
def IsSign (s : List Char) : Prop := s = [] ∨ s = ['-'] ∨ s = ['+']

def Unsigned (s : List Char) : Prop := s.head? ≠ some '-' ∧ s.head? ≠ some '+'

theorem Unsigned.splitSign {s : List Char} (h : Unsigned s) :
    Number.splitSign s = (false, s) := by
  obtain ⟨hminus, hplus⟩ := h
  unfold Number.splitSign
  split <;> simp_all

theorem exists_sign (s : List Char) : ∃ sign, IsSign sign ∧ s = sign ++ (splitSign s).2 := by
  unfold splitSign IsSign
  split <;> simp

theorem splitSign_append {sign s : List Char} (hsign : IsSign sign) (hs : Unsigned s) :
    (splitSign (sign ++ s)).2 = s := by
  rcases hsign with rfl | rfl | rfl
  · rw [List.nil_append, hs.splitSign]
  · rfl
  · rfl

/-! ## Integers -/

/-- The digits of the bases up to sixteen and their values; letters count in either case. -/
def digitTable : List (Char × Nat) :=
  ['0', '1', '2', '3', '4', '5', '6', '7', '8', '9', 'a', 'b', 'c', 'd', 'e', 'f'].zipIdx ++
    ['A', 'B', 'C', 'D', 'E', 'F'].zipIdx 10

/-- One digit or more, the most significant first. -/
inductive Writes (base : Nat) : List Char → Nat → Prop
  | digit {c : Char} {d : Nat} : (c, d) ∈ digitTable → d < base → Writes base [c] d
  | more {s : List Char} {n : Nat} {c : Char} {d : Nat} : Writes base s n → (c, d) ∈ digitTable →
      d < base → Writes base (s ++ [c]) (n * base + d)

/-- Digits with a sign in front or none. -/
inductive WritesInt (base : Nat) : List Char → Int → Prop
  | unsigned {s : List Char} {n : Nat} : Writes base s n → WritesInt base s n
  | plus {s : List Char} {n : Nat} : Writes base s n → WritesInt base ('+' :: s) n
  | minus {s : List Char} {n : Nat} : Writes base s n → WritesInt base ('-' :: s) (-n)

theorem digitValue?_eq_some_iff {c : Char} {d : Nat} :
    digitValue? c = some d ↔ (c, d) ∈ digitTable := by
  constructor
  · intro h
    have hlow : ∀ n < 103, ∀ d ∈ digitValue? (Char.ofNat n), (Char.ofNat n, d) ∈ digitTable := by
      decide
    have hle : c.toNat < 103 := by
      unfold digitValue? at h
      simp only [Char.le_def, UInt32.le_iff_toNat_le] at h
      split at h
      · rename_i hc
        exact Nat.lt_of_le_of_lt hc.2 (by decide)
      · split at h
        · rename_i hc
          exact Nat.lt_of_le_of_lt hc.2 (by decide)
        · split at h
          · rename_i hc
            exact Nat.lt_of_le_of_lt hc.2 (by decide)
          · cases h
    have hc := hlow c.toNat hle d
    rw [Char.ofNat_toNat] at hc
    exact hc h
  · intro h
    have hall : ∀ x ∈ digitTable, digitValue? x.1 = some x.2 := by decide
    exact hall (c, d) h

theorem isDigitIn_iff {base : Nat} {c : Char} :
    isDigitIn base c = true ↔ ∃ d, (c, d) ∈ digitTable ∧ d < base := by
  simp only [isDigitIn, ← digitValue?_eq_some_iff]
  cases h : digitValue? c <;> simp

theorem readNat?_eq_some_iff {base : Nat} {s : List Char} {n : Nat} :
    readNat? base s = some n ↔ Writes base s n := by
  constructor
  · intro h
    unfold readNat? at h
    split at h
    · rename_i hs
      obtain rfl := Option.some.inj h
      obtain ⟨hne, hall⟩ := hs
      clear h
      induction s using List.reverseRecOn with
      | nil => exact absurd rfl hne
      | append_singleton s c ih =>
        rw [List.all_append, Bool.and_eq_true] at hall
        obtain ⟨hs, hc⟩ := hall
        obtain ⟨d, hd, hlt⟩ := isDigitIn_iff.1 (by simpa using hc)
        have hvalue : digitsValue base (s ++ [c]) = digitsValue base s * base + d := by
          simp [digitsValue, digitValue?_eq_some_iff.2 hd]
        rw [hvalue]
        by_cases hnil : s = []
        · subst hnil
          simpa [digitsValue] using Writes.digit hd hlt
        · exact .more (ih hnil hs) hd hlt
    · cases h
  · intro h
    have hs : s ≠ [] ∧ s.all (isDigitIn base) = true ∧ digitsValue base s = n := by
      induction h with
      | digit hd hlt =>
        have hc := isDigitIn_iff.2 ⟨_, hd, hlt⟩
        simp [hc, digitsValue, digitValue?_eq_some_iff.2 hd]
      | more _ hd hlt ih =>
        obtain ⟨-, hall, hvalue⟩ := ih
        have hc := isDigitIn_iff.2 ⟨_, hd, hlt⟩
        refine ⟨by simp, by simp [hall, hc], ?_⟩
        rw [← hvalue]
        simp [digitsValue, digitValue?_eq_some_iff.2 hd]
    rw [readNat?, if_pos ⟨hs.1, hs.2.1⟩, hs.2.2]

theorem Writes.ne_nil {base : Nat} {s : List Char} {n : Nat} (h : Writes base s n) : s ≠ [] := by
  cases h <;> simp

theorem Writes.unsigned {base : Nat} {s : List Char} {n : Nat} (h : Writes base s n) :
    Unsigned s := by
  have htable : ∀ x ∈ digitTable, x.1 ≠ '-' ∧ x.1 ≠ '+' := by decide
  induction h with
  | digit hd _ => simpa [Unsigned] using htable _ hd
  | more hs _ _ ih => rwa [Unsigned, List.head?_append_of_ne_nil _ hs.ne_nil]

theorem WritesInt.of_unsigned {base : Nat} {s : List Char} {i : Int} (h : WritesInt base s i)
    (hs : Unsigned s) : ∃ n : Nat, i = n ∧ Writes base s n := by
  cases h with
  | unsigned hn => exact ⟨_, rfl, hn⟩
  | plus _ => exact absurd rfl hs.2
  | minus _ => exact absurd rfl hs.1

/-- Integers in any base are read with a sign in front. -/
theorem readInt64?_eq_some_iff {base : Nat} {s : List Char} {i : Int} :
    readInt64? base s = some i ↔ WritesInt base s i ∧ inInt64 i = true := by
  have hread : readInt64? base s = some i ↔ ∃ n, readNat? base (splitSign s).2 = some n ∧
      (if (splitSign s).1 then -(n : Int) else n) = i ∧ inInt64 i = true := by
    simp only [readInt64?, Option.bind_eq_bind, Option.bind_eq_some_iff,
      Option.ite_none_right_eq_some, Option.some.injEq]
    constructor
    · rintro ⟨n, hn, hin, rfl⟩
      exact ⟨n, hn, rfl, hin⟩
    · rintro ⟨n, hn, rfl, hin⟩
      exact ⟨n, hn, hin, rfl⟩
  rw [hread]
  simp only [readNat?_eq_some_iff]
  constructor
  · rintro ⟨n, hn, hi, hin⟩
    refine ⟨?_, hin⟩
    unfold splitSign at hn hi
    split at hn
    · simp only [if_true] at hi
      exact hi ▸ .minus hn
    · simp only [Bool.false_eq_true, if_false] at hi
      exact hi ▸ .plus hn
    · simp only [Bool.false_eq_true, if_false] at hi
      exact hi ▸ .unsigned hn
  · rintro ⟨hs, hin⟩
    cases hs with
    | unsigned hn => exact ⟨_, by rwa [hn.unsigned.splitSign], by rw [hn.unsigned.splitSign]; rfl, hin⟩
    | plus hn => exact ⟨_, hn, rfl, hin⟩
    | minus hn => exact ⟨_, hn, rfl, hin⟩

/-! ## Decimals -/

/-- The form `[0-9]*`. -/
def AllDigits (s : List Char) : Prop := ∀ c ∈ s, c.isDigit = true

/-- The form `\.[0-9]+|[0-9]+(\.[0-9]*)?`. -/
inductive IsMantissa : List Char → Prop
  | fraction {ds : List Char} : ds ≠ [] → AllDigits ds → IsMantissa ('.' :: ds)
  | whole {ds : List Char} : ds ≠ [] → AllDigits ds → IsMantissa ds
  | both {ds fs : List Char} : ds ≠ [] → AllDigits ds → AllDigits fs → IsMantissa (ds ++ '.' :: fs)

/-- The form `([eE][-+]?[0-9]+)?`. -/
inductive IsExponent : List Char → Prop
  | none : IsExponent []
  | power {e : Char} {sign ds : List Char} : e = 'e' ∨ e = 'E' → IsSign sign → ds ≠ [] →
      AllDigits ds → IsExponent (e :: sign ++ ds)

/-- The decimals of the core schema: `[-+]?(\.[0-9]+|[0-9]+(\.[0-9]*)?)([eE][-+]?[0-9]+)?`. -/
def IsDecimal (s : List Char) : Prop :=
  ∃ sign mantissa exponent, IsSign sign ∧ IsMantissa mantissa ∧ IsExponent exponent ∧
    s = sign ++ mantissa ++ exponent

theorem readNat?_ten_isSome {s : List Char} :
    (readNat? 10 s).isSome = true ↔ s ≠ [] ∧ AllDigits s := by
  simp only [Option.isSome_iff_exists, readNat?_ten]
  exact ⟨fun ⟨_, h, _⟩ => h, fun h => ⟨_, h, rfl⟩⟩

theorem AllDigits.unsigned {s : List Char} (h : AllDigits s) : Unsigned s := by
  cases s with
  | nil => simp [Unsigned]
  | cons c s =>
    have hc : c.isDigit = true := h c List.mem_cons_self
    constructor <;> (intro heq; obtain rfl := Option.some.inj heq; exact absurd hc (by decide))

theorem IsMantissa.ne_nil {m : List Char} (h : IsMantissa m) : m ≠ [] := by
  cases h <;> simp_all

theorem IsMantissa.unsigned {m : List Char} (h : IsMantissa m) : Unsigned m := by
  cases h with
  | fraction _ _ => simp [Unsigned]
  | whole _ hds => exact hds.unsigned
  | both hne hds _ =>
    rw [Unsigned, List.head?_append_of_ne_nil _ hne]
    exact hds.unsigned

/-- A mantissa starts with a digit, or with a point and a digit. -/
theorem IsMantissa.starts {m : List Char} (h : IsMantissa m) : ∃ d, d.isDigit = true ∧
    ((∃ rest, m = d :: rest) ∨ ∃ rest, m = '.' :: d :: rest) := by
  have hhead : ∀ ds : List Char, ds ≠ [] → AllDigits ds →
      ∃ d rest, d.isDigit = true ∧ ds = d :: rest := by
    intro ds hne hds
    obtain ⟨d, rest, rfl⟩ := List.exists_cons_of_ne_nil hne
    exact ⟨d, rest, hds d List.mem_cons_self, rfl⟩
  cases h with
  | fraction hne hds =>
    obtain ⟨d, rest, hd, rfl⟩ := hhead _ hne hds
    exact ⟨d, hd, .inr ⟨rest, rfl⟩⟩
  | whole hne hds =>
    obtain ⟨d, rest, hd, rfl⟩ := hhead _ hne hds
    exact ⟨d, hd, .inl ⟨rest, rfl⟩⟩
  | both hne hds _ =>
    obtain ⟨d, rest, hd, rfl⟩ := hhead _ hne hds
    exact ⟨d, hd, .inl ⟨_, rfl⟩⟩

/-- The sign is split off a decimal whatever follows it. -/
theorem isDecimal_iff {s : List Char} : IsDecimal s ↔
    ∃ mantissa exponent, IsMantissa mantissa ∧ IsExponent exponent ∧
      (splitSign s).2 = mantissa ++ exponent := by
  constructor
  · rintro ⟨sign, m, e, hsign, hm, he, rfl⟩
    refine ⟨m, e, hm, he, ?_⟩
    rw [List.append_assoc]
    refine splitSign_append hsign ?_
    rw [Unsigned, List.head?_append_of_ne_nil _ hm.ne_nil]
    exact hm.unsigned
  · rintro ⟨m, e, hm, he, hs⟩
    obtain ⟨sign, hsign, hsplit⟩ := exists_sign s
    exact ⟨sign, m, e, hsign, hm, he, by rw [hsplit, hs, List.append_assoc]⟩

theorem isDecimal_of_writesInt {s : List Char} {i : Int} (h : WritesInt 10 s i) :
    IsDecimal s := by
  have hdigits : ∀ {s n}, Writes 10 s n → IsMantissa s := fun hs =>
    have hread := readNat?_ten_isSome.1 (Option.isSome_iff_exists.2 ⟨_, readNat?_eq_some_iff.2 hs⟩)
    .whole hread.1 hread.2
  cases h with
  | unsigned hs => exact ⟨[], s, [], .inl rfl, hdigits hs, .none, by simp⟩
  | plus hs => exact ⟨['+'], _, [], .inr (.inr rfl), hdigits hs, .none, by simp⟩
  | minus hs => exact ⟨['-'], _, [], .inr (.inl rfl), hdigits hs, .none, by simp⟩

/-! ## Reading decimals -/

/-- The digits in front of what starts with none. -/
theorem span_digits {ds rest : List Char} (hds : AllDigits ds)
    (hrest : ∀ c ∈ rest.head?, c.isDigit = false) :
    (ds ++ rest).takeWhile Char.isDigit = ds ∧ (ds ++ rest).dropWhile Char.isDigit = rest := by
  induction ds with
  | nil => cases rest <;> simp_all
  | cons d ds ih =>
    obtain ⟨hd, hds⟩ := List.forall_mem_cons.1 hds
    obtain ⟨htake, hdrop⟩ := ih hds
    simp [hd, htake, hdrop]

theorem allDigits_takeWhile (s : List Char) : AllDigits (s.takeWhile Char.isDigit) :=
  List.all_eq_true.1 (List.all_takeWhile ..)

/-- The digits behind a point, and what follows them. -/
def pointRest : List Char → List Char × List Char
  | '.' :: rest => (rest.takeWhile Char.isDigit, rest.dropWhile Char.isDigit)
  | rest => ([], rest)

/-- What follows the digits is nothing, or an `e` in front of an integer. -/
def endsDecimal : List Char → Bool
  | [] => true
  | c :: rest => (c == 'e' || c == 'E') && (readNat? 10 (splitSign rest).2).isSome

theorem readFloat?_eq (s : List Char) : readFloat? s = (do
    let (negative, body) := splitSign s
    let whole := body.takeWhile Char.isDigit
    let (fraction, rest) := pointRest (body.dropWhile Char.isDigit)
    guard (whole ≠ [] ∨ fraction ≠ [])
    let exponent : Int ← match rest with
      | [] => some 0
      | c :: rest =>
        if c == 'e' || c == 'E' then do
          let (down, digits) := splitSign rest
          let n ← readNat? 10 digits
          some (if down then -(n : Int) else n)
        else none
    let magnitude := scaledFloat (digitsValue 10 (whole ++ fraction)) (exponent - fraction.length)
    some (if negative then -magnitude else magnitude)) := rfl

/-- A decimal is read if it has a digit, and what follows the digits ends it. -/
theorem isSome_readFloat? (s : List Char) :
    (readFloat? s).isSome =
      (let whole := (splitSign s).2.takeWhile Char.isDigit
       let parts := pointRest ((splitSign s).2.dropWhile Char.isDigit)
       decide (whole ≠ [] ∨ parts.1 ≠ []) && endsDecimal parts.2) := by
  rw [readFloat?_eq]
  generalize splitSign s = p
  obtain ⟨negative, body⟩ := p
  dsimp only
  generalize pointRest (body.dropWhile Char.isDigit) = parts
  obtain ⟨fraction, rest⟩ := parts
  generalize body.takeWhile Char.isDigit = whole
  by_cases hdigits : whole ≠ [] ∨ fraction ≠ []
  · have hguard : (guard (whole ≠ [] ∨ fraction ≠ []) : Option Unit) = some () := if_pos hdigits
    rw [hguard, decide_eq_true hdigits, Bool.true_and]
    cases rest with
    | nil => rfl
    | cons c rest =>
      by_cases hc : (c == 'e' || c == 'E') = true
      · simp only [hc, endsDecimal, if_true, Bool.true_and]
        cases hn : readNat? 10 (splitSign rest).2 <;> simp
      · simp [hc, endsDecimal]
  · have hguard : (guard (whole ≠ [] ∨ fraction ≠ []) : Option Unit) = none := if_neg hdigits
    rw [hguard, decide_eq_false hdigits]
    rfl

/-- What follows the digits is nothing, or an exponent. -/
theorem endsDecimal_iff {s : List Char} : endsDecimal s = true ↔ IsExponent s := by
  constructor
  · intro h
    cases s with
    | nil => exact .none
    | cons c rest =>
      simp only [endsDecimal, Bool.and_eq_true, Bool.or_eq_true, beq_iff_eq,
        readNat?_ten_isSome] at h
      obtain ⟨hc, hne, hds⟩ := h
      obtain ⟨sign, hsign, hsplit⟩ := exists_sign rest
      rw [hsplit]
      exact .power hc hsign hne hds
  · intro h
    cases h with
    | none => rfl
    | power he hsign hne hds =>
      have hread := readNat?_ten_isSome.2 ⟨hne, hds⟩
      simp [endsDecimal, he, splitSign_append hsign hds.unsigned, hread]

/-- An exponent neither goes on with the digits in front of it nor starts with a point. -/
theorem IsExponent.head {s : List Char} (h : IsExponent s) :
    ∀ c ∈ s.head?, c.isDigit = false ∧ c ≠ '.' := by
  intro c hc
  cases h with
  | none => cases hc
  | power he _ _ _ =>
    obtain rfl := Option.some.inj hc
    rcases he with rfl | rfl <;> decide

theorem pointRest_of_head {s : List Char} (h : ∀ c ∈ s.head?, c ≠ '.') : pointRest s = ([], s) := by
  unfold pointRest
  split
  · exact absurd rfl (h '.' rfl)
  · rfl

theorem pointRest_cases (s : List Char) : pointRest s = ([], s) ∨
    ∃ fraction rest, AllDigits fraction ∧ s = '.' :: (fraction ++ rest) ∧
      pointRest s = (fraction, rest) := by
  unfold pointRest
  split
  · exact .inr ⟨_, _, allDigits_takeWhile _, by rw [List.takeWhile_append_dropWhile], rfl⟩
  · exact .inl rfl

/-- A decimal is read by its digits: those in front of a point, and those behind it. -/
theorem isSome_readFloat?_iff {s : List Char} : (readFloat? s).isSome = true ↔ IsDecimal s := by
  rw [isSome_readFloat?, isDecimal_iff]
  generalize (splitSign s).2 = body
  simp only [Bool.and_eq_true, decide_eq_true_eq, endsDecimal_iff]
  constructor
  · rintro ⟨hdigits, hexp⟩
    have hbody : body.takeWhile Char.isDigit ++ body.dropWhile Char.isDigit = body :=
      List.takeWhile_append_dropWhile
    have hwhole := allDigits_takeWhile body
    generalize body.takeWhile Char.isDigit = whole at *
    generalize body.dropWhile Char.isDigit = tail at *
    obtain hrest | ⟨fraction, rest, hfraction, rfl, hrest⟩ := pointRest_cases tail
    · rw [hrest] at hdigits hexp
      exact ⟨whole, tail, .whole (by simpa using hdigits) hwhole, hexp, hbody.symm⟩
    · rw [hrest] at hdigits hexp
      by_cases hnil : whole = []
      · subst hnil
        exact ⟨'.' :: fraction, rest, .fraction (by simpa using hdigits) hfraction, hexp, hbody.symm⟩
      · exact ⟨whole ++ '.' :: fraction, rest, .both hnil hwhole hfraction, hexp, by simp [← hbody]⟩
  · rintro ⟨m, e, hm, he, rfl⟩
    have hdigit : ∀ c ∈ e.head?, c.isDigit = false := fun c hc => (he.head c hc).1
    have hpoint : ∀ c ∈ e.head?, c ≠ '.' := fun c hc => (he.head c hc).2
    cases hm with
    | fraction hne hds =>
      obtain ⟨htake, hdrop⟩ := span_digits hds hdigit
      simpa [pointRest, htake, hdrop, hne, List.takeWhile_cons, List.dropWhile_cons] using he
    | whole hne hds =>
      obtain ⟨htake, hdrop⟩ := span_digits hds hdigit
      rw [htake, hdrop, pointRest_of_head hpoint]
      exact ⟨.inl hne, he⟩
    | @both ds fs hne hds hfs =>
      have hfraction : ∀ c ∈ ('.' :: (fs ++ e)).head?, c.isDigit = false := by simp
      obtain ⟨htake, hdrop⟩ := span_digits hds hfraction
      obtain ⟨-, hexponent⟩ := span_digits hfs hdigit
      rw [List.append_assoc, List.cons_append, htake, hdrop, pointRest, hexponent]
      exact ⟨.inl hne, he⟩

end Number

namespace Yaml.Scalar

open Number

/-! ## The grammar -/

/-- The integers of the core schema and their values: `[-+]?[0-9]+`, `0o[0-7]+` and
`0x[0-9a-fA-F]+`. -/
inductive CoreInt : List Char → Int → Prop
  | decimal {s : List Char} {i : Int} : WritesInt 10 s i → CoreInt s i
  | octal {s : List Char} {n : Nat} : Writes 8 s n → CoreInt ('0' :: 'o' :: s) n
  | hexadecimal {s : List Char} {n : Nat} : Writes 16 s n → CoreInt ('0' :: 'x' :: s) n

/-- An integer with the sign behind its prefix: `0o[-+][0-7]+` and `0x[-+][0-9a-fA-F]+`. -/
inductive SignedInside : List Char → Int → Prop
  | octal {s : List Char} {i : Int} : ¬ Unsigned s → WritesInt 8 s i →
      SignedInside ('0' :: 'o' :: s) i
  | hexadecimal {s : List Char} {i : Int} : ¬ Unsigned s → WritesInt 16 s i →
      SignedInside ('0' :: 'x' :: s) i

def nullWords : List String := ["", "~", "null", "Null", "NULL"]

def boolWords : Bool → List String
  | true => ["true", "True", "TRUE"]
  | false => ["false", "False", "FALSE"]

/-- The words `\+?\.(inf|Inf|INF)`. -/
def infinityWords : List String := [".inf", ".Inf", ".INF", "+.inf", "+.Inf", "+.INF"]

/-- The words `-\.(inf|Inf|INF)`. -/
def negativeInfinityWords : List String := ["-.inf", "-.Inf", "-.INF"]

/-- The words `\.(nan|NaN|NAN)`. -/
def nanWords : List String := [".nan", ".NaN", ".NAN"]

def floatWords : List String := infinityWords ++ negativeInfinityWords ++ nanWords

def words : List String := nullWords ++ boolWords true ++ boolWords false ++ floatWords

/-! ## Integers behind a prefix -/

theorem ofRadix?_eq_some_iff {s : List Char} {i : Int} : ofRadix? s = some i ↔
    inInt64 i = true ∧ ((∃ t, s = '0' :: 'x' :: t ∧ WritesInt 16 t i) ∨
      (∃ t, s = '0' :: 'o' :: t ∧ WritesInt 8 t i)) := by
  unfold ofRadix?
  split
  · rw [readInt64?_eq_some_iff, and_comm]
    simp
  · rw [readInt64?_eq_some_iff, and_comm]
    simp
  · simp_all

/-! ## Decimals -/

theorem looksNumeric_of_isDecimal {s : List Char} (h : IsDecimal s) : looksNumeric s = true := by
  obtain ⟨m, e, hm, he, hs⟩ := isDecimal_iff.1 h
  have hmantissa : ∀ c ∈ m, c.isDigit = true ∨ c = '.' := by
    cases hm with
    | fraction _ hds => simpa using fun c hc => .inl (hds c hc)
    | whole _ hds => exact fun c hc => .inl (hds c hc)
    | both _ hds hfs =>
      intro c hc
      rcases List.mem_append.1 hc with hc | hc
      · exact .inl (hds c hc)
      · exact (List.mem_cons.1 hc).elim .inr fun hc => .inl (hfs c hc)
  have hexponent : ∀ c ∈ e, c.isDigit = true ∨ c = 'e' ∨ c = 'E' ∨ c = '-' ∨ c = '+' := by
    cases he with
    | none => simp
    | power he hsign _ hds =>
      intro c hc
      rcases List.mem_append.1 hc with hc | hc
      · rcases List.mem_cons.1 hc with rfl | hc
        · tauto
        · rcases hsign with rfl | rfl | rfl <;> simp_all
      · exact .inl (hds c hc)
  unfold looksNumeric
  rw [hs, Bool.and_eq_true]
  constructor
  · obtain ⟨d, hd, ⟨rest, rfl⟩ | ⟨rest, rfl⟩⟩ := hm.starts
    · rw [List.cons_append]
      split
      · rename_i hcons
        obtain ⟨rfl, -⟩ := List.cons.inj hcons
        exact absurd hd (by decide)
      · rename_i hcons
        exact (List.cons.inj hcons).1 ▸ hd
      · rename_i hnil
        exact absurd hnil (List.cons_ne_nil _ _)
    · exact hd
  · rw [List.all_eq_true]
    intro c hc
    rcases List.mem_append.1 hc with hc | hc
    · rcases hmantissa c hc with h | rfl <;> simp [*]
    · rcases hexponent c hc with h | rfl | rfl | rfl | rfl <;> simp [*]

/-- Only decimals pass for what the guard lets through, so it keeps none of them out. -/
theorem ofDecimal?_eq (s : List Char) : ofDecimal? s =
    ((readInt64? 10 s).map Scalar.int <|> (readFloat? s).map Scalar.float) := by
  by_cases h : IsDecimal s
  · rw [ofDecimal?, if_pos (looksNumeric_of_isDecimal h)]
  · have hint : readInt64? 10 s = none := by
      cases hread : readInt64? 10 s with
      | none => rfl
      | some i => exact absurd (isDecimal_of_writesInt (readInt64?_eq_some_iff.1 hread).1) h
    have hfloat : readFloat? s = none := by
      rw [← Option.not_isSome_iff_eq_none, isSome_readFloat?_iff]
      exact h
    simp [ofDecimal?, hint, hfloat]

/-- The integer a text is read as, with a prefix or without. -/
def ofInteger? (s : List Char) : Option Int := ofRadix? s <|> readInt64? 10 s

theorem not_isDecimal_of_signedInside {s : List Char} {i : Int} (h : SignedInside s i) :
    ¬ IsDecimal s := by
  intro hs
  have hlooks := looksNumeric_of_isDecimal hs
  cases h <;> simp [looksNumeric, splitSign] at hlooks

theorem ofRadix?_of_isDecimal {s : List Char} (h : IsDecimal s) : ofRadix? s = none := by
  have hlooks := looksNumeric_of_isDecimal h
  unfold ofRadix?
  split
  · simp [looksNumeric, splitSign] at hlooks
  · simp [looksNumeric, splitSign] at hlooks
  · rfl

theorem ofInteger?_eq_some_iff {s : List Char} {i : Int} : ofInteger? s = some i ↔
    inInt64 i = true ∧ (CoreInt s i ∨ SignedInside s i) := by
  rw [ofInteger?, Option.orElse_eq_orElse, Option.orElse_eq_or, Option.or_eq_some_iff]
  constructor
  · rintro (h | ⟨-, h⟩)
    · obtain ⟨hin, ⟨t, rfl, ht⟩ | ⟨t, rfl, ht⟩⟩ := ofRadix?_eq_some_iff.1 h
      · by_cases hsign : Unsigned t
        · obtain ⟨n, rfl, hn⟩ := ht.of_unsigned hsign
          exact ⟨hin, .inl (.hexadecimal hn)⟩
        · exact ⟨hin, .inr (.hexadecimal hsign ht)⟩
      · by_cases hsign : Unsigned t
        · obtain ⟨n, rfl, hn⟩ := ht.of_unsigned hsign
          exact ⟨hin, .inl (.octal hn)⟩
        · exact ⟨hin, .inr (.octal hsign ht)⟩
    · obtain ⟨hs, hin⟩ := readInt64?_eq_some_iff.1 h
      exact ⟨hin, .inl (.decimal hs)⟩
  · rintro ⟨hin, hs | hs⟩
    · cases hs with
      | decimal hs =>
        exact .inr ⟨ofRadix?_of_isDecimal (isDecimal_of_writesInt hs),
          readInt64?_eq_some_iff.2 ⟨hs, hin⟩⟩
      | octal hn => exact .inl (ofRadix?_eq_some_iff.2 ⟨hin, .inr ⟨_, rfl, .unsigned hn⟩⟩)
      | hexadecimal hn => exact .inl (ofRadix?_eq_some_iff.2 ⟨hin, .inl ⟨_, rfl, .unsigned hn⟩⟩)
    · cases hs with
      | octal _ ht => exact .inl (ofRadix?_eq_some_iff.2 ⟨hin, .inr ⟨_, rfl, ht⟩⟩)
      | hexadecimal _ ht => exact .inl (ofRadix?_eq_some_iff.2 ⟨hin, .inl ⟨_, rfl, ht⟩⟩)

/-! ## The whole reading -/

theorem ofPlain_eq (text : String) : ofPlain text =
    (ofWord? text <|> (ofInteger? text.toList).map Scalar.int <|>
      (readFloat? text.toList).map Scalar.float).getD (.text text) := by
  unfold ofPlain ofInteger?
  rw [ofDecimal?_eq]
  cases ofRadix? text.toList <;> rfl

/-- No word is a number. -/
theorem not_number_of_mem_words {text : String} (h : text ∈ words) :
    ofInteger? text.toList = none ∧ ¬ IsDecimal text.toList := by
  have hall : ∀ w ∈ words, ofInteger? w.toList = none ∧ looksNumeric w.toList = false := by decide
  obtain ⟨hint, hlooks⟩ := hall text h
  refine ⟨hint, fun hs => ?_⟩
  rw [looksNumeric_of_isDecimal hs] at hlooks
  cases hlooks

theorem ofWord?_cases (text : String) :
    (text ∈ nullWords ∧ ofWord? text = some .null) ∨
      (∃ b, text ∈ boolWords b ∧ ofWord? text = some (.bool b)) ∨
      (text ∈ floatWords ∧ ∃ x, ofWord? text = some (.float x)) ∨
      (text ∉ words ∧ ofWord? text = none) := by
  have hwords : text ∈ words ↔ text ∈ nullWords ∨ text ∈ boolWords true ∨ text ∈ boolWords false ∨
      text ∈ infinityWords ∨ text ∈ negativeInfinityWords ∨ text ∈ nanWords := by
    simp only [words, floatWords, List.mem_append]
    tauto
  have hfloat : text ∈ floatWords ↔
      text ∈ infinityWords ∨ text ∈ negativeInfinityWords ∨ text ∈ nanWords := by
    simp only [floatWords, List.mem_append, or_assoc]
  have hread : ofWord? text =
      if text ∈ nullWords then some .null
      else if text ∈ boolWords true then some (.bool true)
      else if text ∈ boolWords false then some (.bool false)
      else if text ∈ infinityWords then some (.float (1.0 / 0.0))
      else if text ∈ negativeInfinityWords then some (.float (-1.0 / 0.0))
      else if text ∈ nanWords then some (.float (0.0 / 0.0))
      else none := by
    simp only [ofWord?, List.contains_iff_mem]
    rfl
  rw [hread, hwords, hfloat]
  split_ifs with hnull htrue hfalse hinf hneg hnan
  · exact .inl ⟨hnull, rfl⟩
  · exact .inr (.inl ⟨true, htrue, rfl⟩)
  · exact .inr (.inl ⟨false, hfalse, rfl⟩)
  · exact .inr (.inr (.inl ⟨.inl hinf, _, rfl⟩))
  · exact .inr (.inr (.inl ⟨.inr (.inl hneg), _, rfl⟩))
  · exact .inr (.inr (.inl ⟨.inr (.inr hnan), _, rfl⟩))
  · exact .inr (.inr (.inr ⟨by tauto, rfl⟩))

/-- A word counts for one kind of value only. -/
theorem words_apart : (∀ w ∈ nullWords, w ∉ floatWords ∧ ∀ b, w ∉ boolWords b) ∧
    ∀ b, ∀ w ∈ boolWords b, w ∉ floatWords ∧ w ∉ boolWords !b := by
  decide

section
variable {text : String}

theorem ofPlain_of_mem_words (h : text ∈ words) :
    (∀ i, ofPlain text ≠ .int i) ∧ (∀ s, ofPlain text ≠ .text s) ∧
      ((∃ x, ofPlain text = .float x) ↔ text ∈ floatWords) ∧
      (ofPlain text = .null ↔ text ∈ nullWords) ∧
      ∀ b, ofPlain text = .bool b ↔ text ∈ boolWords b := by
  obtain ⟨hnull, hbool⟩ := words_apart
  rw [ofPlain_eq]
  obtain ⟨hw, hread⟩ | ⟨b, hw, hread⟩ | ⟨hw, x, hread⟩ | ⟨hw, -⟩ := ofWord?_cases text
  · obtain ⟨hfloat, hbool⟩ := hnull text hw
    simp [hread, hw, hfloat, hbool]
  · obtain ⟨hfloat, hother⟩ := hbool b text hw
    have hnull : text ∉ nullWords := fun hn => (hnull text hn).2 b hw
    have hb : ∀ b', b = b' ↔ text ∈ boolWords b' := by
      intro b'
      cases b <;> cases b' <;> simp_all
    simp [hread, hfloat, hnull, hb]
  · have hnull : text ∉ nullWords := fun hn => (hnull text hn).1 hw
    have hb : ∀ b, text ∉ boolWords b := fun b hb => (hbool b text hb).1 hw
    simp [hread, hw, hnull, hb]
  · exact absurd h hw

theorem not_mem_of_not_mem_words (h : text ∉ words) :
    text ∉ nullWords ∧ (∀ b, text ∉ boolWords b) ∧ text ∉ floatWords := by
  simp only [words, List.mem_append, not_or] at h
  refine ⟨h.1.1.1, ?_, h.2⟩
  intro b
  cases b
  · exact h.1.2
  · exact h.1.1.2

theorem ofWord?_eq_none (h : text ∉ words) : ofWord? text = none := by
  obtain ⟨hnull, hbool, hfloat⟩ := not_mem_of_not_mem_words h
  obtain ⟨hw, -⟩ | ⟨b, hw, -⟩ | ⟨hw, -⟩ | ⟨-, hread⟩ := ofWord?_cases text
  · exact absurd hw hnull
  · exact absurd hw (hbool b)
  · exact absurd hw hfloat
  · exact hread

/-- What is no word is an integer, else a decimal, else a text. -/
theorem ofPlain_of_not_mem_words (h : text ∉ words) :
    (∃ i, ofInteger? text.toList = some i ∧ ofPlain text = .int i) ∨
      (ofInteger? text.toList = none ∧ IsDecimal text.toList ∧ ∃ x, ofPlain text = .float x) ∨
      (ofInteger? text.toList = none ∧ ¬ IsDecimal text.toList ∧ ofPlain text = .text text) := by
  rw [ofPlain_eq, ofWord?_eq_none h, ← isSome_readFloat?_iff]
  cases ofInteger? text.toList with
  | some i => exact .inl ⟨i, rfl, rfl⟩
  | none =>
    cases readFloat? text.toList with
    | some x => exact .inr (.inl ⟨rfl, rfl, x, rfl⟩)
    | none => exact .inr (.inr ⟨rfl, Bool.false_ne_true, rfl⟩)

theorem ofPlain_eq_int_iff {i : Int} :
    ofPlain text = .int i ↔ ofInteger? text.toList = some i := by
  by_cases hword : text ∈ words
  · simp [(ofPlain_of_mem_words hword).1, (not_number_of_mem_words hword).1]
  · obtain ⟨j, hint, hread⟩ | ⟨hint, -, x, hread⟩ | ⟨hint, -, hread⟩ :=
      ofPlain_of_not_mem_words hword <;> simp [hread, hint]

theorem exists_ofPlain_eq_float_iff : (∃ x, ofPlain text = .float x) ↔
    text ∈ floatWords ∨ (IsDecimal text.toList ∧ ofInteger? text.toList = none) := by
  by_cases hword : text ∈ words
  · simp [(ofPlain_of_mem_words hword).2.2.1, (not_number_of_mem_words hword).2]
  · have hfloat := (not_mem_of_not_mem_words hword).2.2
    obtain ⟨j, hint, hread⟩ | ⟨hint, hdec, x, hread⟩ | ⟨hint, hdec, hread⟩ :=
      ofPlain_of_not_mem_words hword
    · simp [hread, hfloat, hint]
    · simp [hread, hdec, hint]
    · simp [hread, hfloat, hdec]

theorem ofPlain_eq_null_iff : ofPlain text = .null ↔ text ∈ nullWords := by
  by_cases hword : text ∈ words
  · exact (ofPlain_of_mem_words hword).2.2.2.1
  · have hnull := (not_mem_of_not_mem_words hword).1
    obtain ⟨j, -, hread⟩ | ⟨-, -, x, hread⟩ | ⟨-, -, hread⟩ :=
      ofPlain_of_not_mem_words hword <;> simp [hread, hnull]

theorem ofPlain_eq_bool_iff {b : Bool} : ofPlain text = .bool b ↔ text ∈ boolWords b := by
  by_cases hword : text ∈ words
  · exact (ofPlain_of_mem_words hword).2.2.2.2 b
  · have hbool := (not_mem_of_not_mem_words hword).2.1 b
    obtain ⟨j, -, hread⟩ | ⟨-, -, x, hread⟩ | ⟨-, -, hread⟩ :=
      ofPlain_of_not_mem_words hword <;> simp [hread, hbool]

theorem ofPlain_eq_text_iff {s : String} : ofPlain text = .text s ↔
    s = text ∧ text ∉ words ∧ ¬ IsDecimal text.toList ∧ ofInteger? text.toList = none := by
  by_cases hword : text ∈ words
  · simp [(ofPlain_of_mem_words hword).2.1, hword]
  · obtain ⟨j, hint, hread⟩ | ⟨-, hdec, x, hread⟩ | ⟨hint, hdec, hread⟩ :=
      ofPlain_of_not_mem_words hword
    · simp [hread, hint]
    · simp [hread, hdec]
    · simp [hread, hword, hdec, hint, eq_comm]

theorem ofInteger?_eq_none_iff {s : List Char} : ofInteger? s = none ↔
    ∀ i, CoreInt s i ∨ SignedInside s i → inInt64 i = false := by
  rw [Option.eq_none_iff_forall_ne_some]
  refine forall_congr' fun i => ?_
  rw [ne_eq, ofInteger?_eq_some_iff, ← Bool.not_eq_true]
  tauto

/-- What a plain scalar is read as. Its integers are those of the core schema in the 64-bit range,
and those of either prefix with the sign behind it. -/
theorem ofPlain_reads (text : String) :
    (∀ i, ofPlain text = .int i ↔
      inInt64 i = true ∧ (CoreInt text.toList i ∨ SignedInside text.toList i)) ∧
    ((∃ x, ofPlain text = .float x) ↔
      text ∈ floatWords ∨
        (IsDecimal text.toList ∧ ∀ i, CoreInt text.toList i → inInt64 i = false)) ∧
    (ofPlain text = .null ↔ text ∈ nullWords) ∧
    (∀ b, ofPlain text = .bool b ↔ text ∈ boolWords b) ∧
    ∀ s, ofPlain text = .text s ↔
      s = text ∧ text ∉ words ∧ ¬ IsDecimal text.toList ∧
        ∀ i, CoreInt text.toList i ∨ SignedInside text.toList i → inInt64 i = false := by
  refine ⟨fun i => ?_, ?_, ofPlain_eq_null_iff, fun b => ofPlain_eq_bool_iff, fun s => ?_⟩
  · rw [ofPlain_eq_int_iff, ofInteger?_eq_some_iff]
  · rw [exists_ofPlain_eq_float_iff, ofInteger?_eq_none_iff]
    -- A decimal has no prefix for a sign to stand behind.
    have hinside : IsDecimal text.toList → ∀ i, ¬ SignedInside text.toList i :=
      fun hs i h => not_isDecimal_of_signedInside h hs
    refine or_congr_right (and_congr_right fun hs => forall_congr' fun i => ?_)
    rw [or_iff_left (hinside hs i)]
  · rw [ofPlain_eq_text_iff, ofInteger?_eq_none_iff]

end

/-- A sign is read behind a prefix, where the core schema has none. -/
theorem ofPlain_signed_inside :
    ofPlain "0x-5" = .int (-5) ∧ ∀ i, ¬ CoreInt "0x-5".toList i := by
  constructor
  · rw [ofPlain_eq_int_iff]
    decide
  · intro i h
    have hchars : "0x-5".toList = ['0', 'x', '-', '5'] := by decide
    rw [hchars] at h
    cases h with
    | decimal hs =>
      have hlooks := looksNumeric_of_isDecimal (isDecimal_of_writesInt hs)
      exact absurd hlooks (by decide)
    | hexadecimal hs => exact hs.unsigned.1 rfl

end Yaml.Scalar

end ApiLint
