import ApiLint.JsonSchema.Basic
import ApiLint.Number.Reading
import ApiLint.Pattern.Syntax
import ApiLint.Text.Blank

/-!
# Formats of strings

What a text has to look like for each format. Dates and times follow RFC 3339, addresses the
rules of their networks, and patterns `Pattern.read?`.
-/

set_option autoImplicit false

namespace ApiLint.Format

open Number (isDigitIn digitsValue)
open Text (splitAt)

/-- The value of decimal digits, exactly so many. -/
def fixedDigits? (width : Nat) (s : List Char) : Option Nat :=
  if s.length == width && s.all (isDigitIn 10) then some (digitsValue 10 s) else none

/-! ## Dates and times -/

def isLeapYear (year : Nat) : Bool :=
  year % 4 == 0 && (year % 100 != 0 || year % 400 == 0)

def daysIn (year month : Nat) : Nat :=
  if month == 2 then (if isLeapYear year then 29 else 28)
  else if month ∈ [4, 6, 9, 11] then 30
  else 31

/-- Year, month and day, all digits written. -/
def isDate (s : List Char) : Bool :=
  match (splitAt (· == '-') s) with
  | [y, m, d] =>
    match fixedDigits? 4 y, fixedDigits? 2 m, fixedDigits? 2 d with
    | some year, some month, some day =>
      1 ≤ month && month ≤ 12 && 1 ≤ day && day ≤ daysIn year month
    | _, _, _ => false
  | _ => false

/-- Minutes since midnight. -/
def clock? (s : List Char) : Option Nat :=
  match splitAt (· == ':') s with
  | [h, m] => do
    let hours ← fixedDigits? 2 h
    let minutes ← fixedDigits? 2 m
    if hours ≤ 23 ∧ minutes ≤ 59 then some (60 * hours + minutes) else none
  | _ => none

/-- What a time is ahead of universal time, in minutes. -/
def offset? : List Char → Option Int
  | ['Z'] | ['z'] => some 0
  | '+' :: rest => (clock? rest).map fun n => (n : Int)
  | '-' :: rest => (clock? rest).map fun n => -(n : Int)
  | _ => none

/-- Hours, minutes and seconds with an offset. A sixtieth second is allowed at the end of a day
of universal time. -/
def isTime (s : List Char) : Bool :=
  match clock? (s.take 5), (s.drop 5).take 1, fixedDigits? 2 ((s.drop 6).take 2) with
  | some minutes, [':'], some seconds =>
    let rest := s.drop 8
    let (fraction, rest) := match rest with
      | '.' :: rest => (some (rest.takeWhile (isDigitIn 10)), rest.dropWhile (isDigitIn 10))
      | rest => (none, rest)
    match offset? rest with
    | some offset =>
      fraction != some [] &&
        (seconds < 60 || (seconds == 60 && ((minutes : Int) - offset) % 1440 == 1439))
    | none => false
  | _, _, _ => false

def isDateTime (s : List Char) : Bool :=
  isDate (s.take 10) &&
    match s.drop 10 with
    | 'T' :: rest | 't' :: rest => isTime rest
    | _ => false

/-! ## Hosts and addresses -/

def isHostLabel (s : List Char) : Bool :=
  !s.isEmpty && s.length ≤ 63 && s.all (fun c => c.isAlphanum || c == '-') &&
    s.head? != some '-' && s.getLast? != some '-'

def isHostname (s : List Char) : Bool :=
  s.length ≤ 253 && (splitAt (· == '.') s).all isHostLabel

/-- Four numbers below 256 without leading zeros. -/
def isIpv4 (s : List Char) : Bool :=
  let parts := splitAt (· == '.') s
  parts.length == 4 && parts.all fun part =>
    match Number.readNat? 10 part with
    | some n => part.length ≤ 3 && n < 256 && (part.length == 1 || part.head? != some '0')
    | none => false

def isIpv6Group (s : List Char) : Bool :=
  !s.isEmpty && s.length ≤ 4 && s.all (isDigitIn 16)

/-- How many groups a part without a gap has; the last may be an address of version 4. -/
def ipv6Groups? (s : List Char) : Option Nat :=
  if s.isEmpty then some 0
  else
    let parts := splitAt (· == ':') s
    let last := parts.getLast?.getD []
    if isIpv4 last && parts.dropLast.all isIpv6Group then some (parts.length + 1)
    else if parts.all isIpv6Group then some parts.length
    else none

/-- The parts before and after the first double colon. -/
def splitGap : List Char → Option (List Char × List Char)
  | ':' :: ':' :: rest => some ([], rest)
  | c :: rest => (splitGap rest).map fun (before, after) => (c :: before, after)
  | [] => none

/-- Eight groups, or fewer around one gap. -/
def isIpv6 (s : List Char) : Bool :=
  match splitGap s with
  | none => ipv6Groups? s == some 8
  | some (before, after) =>
    match ipv6Groups? before, ipv6Groups? after with
    | some m, some n => m + n ≤ 7 && !before.any (· == '.')
    | _, _ => false

def isAtomChar (c : Char) : Bool :=
  c.isAlphanum || 128 ≤ c.toNat || "!#$%&*+-/=?^_|~".toList.contains c || c == '\x27' ||
    c == '\x60' || c == '\x7b' || c == '\x7d'

def isQuoted (s : List Char) : Bool :=
  2 ≤ s.length && s.head? == some '\x22' && s.getLast? == some '\x22' &&
    !((s.drop 1).dropLast.any (· == '\x22'))

def isDomainLabel (s : List Char) : Bool :=
  let inner (c : Char) : Bool := c.isAlphanum || 128 ≤ c.toNat
  !s.isEmpty && s.length ≤ 63 && s.all (fun c => inner c || c == '-') &&
    s.head?.any inner && s.getLast?.any inner

def isDomain (s : List Char) : Bool :=
  s.length ≤ 253 && (splitAt (· == '.') s).all isDomainLabel

/-- An address in brackets. -/
def isAddressLiteral (s : List Char) : Bool :=
  match s with
  | '[' :: rest =>
    rest.getLast? == some ']' &&
      match rest.dropLast with
      | 'I' :: 'P' :: 'v' :: '6' :: ':' :: address => isIpv6 address
      | address => isIpv4 address
  | _ => false

/-- A local part of atoms or in quotes, the last at sign, and a host. -/
def isEmail (isHost : List Char → Bool) (s : List Char) : Bool :=
  match (splitAt (· == '@') s).reverse with
  | host :: rest@(_ :: _) =>
    let local_ := ['@'].intercalate rest.reverse
    !local_.isEmpty && local_.length ≤ 64 &&
      (isQuoted local_ ||
        (splitAt (· == '.') local_).all fun atom => !atom.isEmpty && atom.all isAtomChar) &&
      (isAddressLiteral host || isHost host)
  | _ => false

/-! ## Resource identifiers -/

/-- Characters of paths and queries; percent signs only before two hexadecimal digits. -/
def isUriText : List Char → Bool
  | [] => true
  | '%' :: a :: b :: rest => isDigitIn 16 a && isDigitIn 16 b && isUriText rest
  | c :: rest =>
    (c.isAlphanum || "-._~!$&()*+,;=:@/?".toList.contains c || c == '\x27') && isUriText rest

/-- An authority may hold an address in brackets. -/
def isAuthority (s : List Char) : Bool :=
  let host := (splitAt (· == '@') s).getLast?.getD []
  match host with
  | '[' :: rest =>
    isIpv6 (rest.takeWhile (· != ']')) &&
      (match rest.dropWhile (· != ']') with
        | ']' :: ':' :: port => port.all (isDigitIn 10)
        | [']'] => true
        | _ => false)
  | _ =>
    match splitAt (· == ':') host with
    | [_] => isUriText s
    | [_, port] => isUriText s && port.all (isDigitIn 10)
    | _ => false

/-- A scheme, a colon and the rest, with at most one number sign. -/
def isUri (s : List Char) : Bool :=
  let isSchemeChar (c : Char) : Bool := c.isAlphanum || c == '+' || c == '-' || c == '.'
  match splitAt (· == '#') s with
  | [] => false
  | main :: fragments =>
    let scheme := main.takeWhile isSchemeChar
    fragments.length ≤ 1 && fragments.all isUriText && scheme.head?.any Char.isAlpha &&
      match main.drop scheme.length with
      | ':' :: '/' :: '/' :: rest =>
        let authority := rest.takeWhile fun c => c != '/' && c != '?'
        isAuthority authority && isUriText (rest.drop authority.length)
      | ':' :: rest => isUriText rest
      | _ => false

/-- A text has the format. -/
def accepts (format : Format) (text : String) : Bool :=
  let s := text.toList
  match format with
  | date => isDate s
  | dateTime => isDateTime s
  | email => isEmail isHostname s
  | hostname => isHostname s
  | idnEmail => isEmail isDomain s
  | ipv4 => isIpv4 s
  | ipv6 => isIpv6 s
  | regex => (Pattern.read? text).isSome
  | time => isTime s
  | uri => isUri s

end ApiLint.Format
