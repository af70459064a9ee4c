import SystemDynamics.Json.Value
import SystemDynamics.Number.Reading

namespace SystemDynamics.Json

abbrev Text := List Char

def isBlank (c : Char) : Bool :=
  c == ' ' || c == '\n' || c == '\t' || c == '\r'

def skipBlank (text : Text) : Text :=
  text.dropWhile isBlank

def skipWord : (word text : Text) → Option Text
  | [], text => some text
  | c :: word, d :: text => if c = d then skipWord word text else none
  | _ :: _, [] => none

def hexDigit? (c : Char) : Option Nat :=
  if c.isDigit then some (c.toNat - '0'.toNat)
  else if 'a' ≤ c ∧ c ≤ 'f' then some (c.toNat - 'a'.toNat + 10)
  else if 'A' ≤ c ∧ c ≤ 'F' then some (c.toNat - 'A'.toNat + 10)
  else none

def hex4? (a b c d : Char) : Option Nat := do
  return (((← hexDigit? a) * 16 + (← hexDigit? b)) * 16 + (← hexDigit? c)) * 16 + (← hexDigit? d)

def isHighSurrogate (n : Nat) : Bool := 0xD800 ≤ n && n ≤ 0xDBFF

def isLowSurrogate (n : Nat) : Bool := 0xDC00 ≤ n && n ≤ 0xDFFF

def simpleEscape? : Char → Option Char
  | '"' => some '"'
  | '\\' => some '\\'
  | '/' => some '/'
  | 'b' => some '\x08'
  | 'f' => some '\x0c'
  | 'n' => some '\n'
  | 'r' => some '\r'
  | 't' => some '\t'
  | _ => none

/-- What `\u` and four digits stand for; a high surrogate needs a low one after it. -/
def unicodeEscape (text : Text) : Option (Char × Text) :=
  match text with
  | a :: b :: c :: d :: rest => do
    let n ← hex4? a b c d
    if isLowSurrogate n then none
    else if isHighSurrogate n then
      match rest with
      | '\\' :: 'u' :: a :: b :: c :: d :: rest => do
        let low ← hex4? a b c d
        if isLowSurrogate low then
          some (Char.ofNat (0x10000 + (n - 0xD800) * 0x400 + (low - 0xDC00)), rest)
        else none
      | _ => none
    else some (Char.ofNat n, rest)
  | _ => none

/-- The characters of a string up to its closing quote; `fuel` bounds their number. -/
def stringBody : (fuel : Nat) → Text → Option (List Char × Text)
  | 0, _ => none
  | _, [] => none
  | fuel + 1, c :: rest =>
    if c = '"' then some ([], rest)
    else if c = '\\' then
      match rest with
      | [] => none
      | e :: rest => do
        let (c, rest) ← if e = 'u' then unicodeEscape rest else (simpleEscape? e).map (·, rest)
        let (cs, rest) ← stringBody fuel rest
        return (c :: cs, rest)
    else if c.toNat < 0x20 then none
    else do
      let (cs, rest) ← stringBody fuel rest
      return (c :: cs, rest)

def readString (text : Text) : Option (String × Text) :=
  (stringBody text.length text).map fun (cs, rest) ↦ (String.ofList cs, rest)

/-- Passes over a string whose content does not matter: an escape may name any code unit. -/
def skipString : (fuel : Nat) → Text → Option Text
  | 0, _ => none
  | _, [] => none
  | fuel + 1, c :: rest =>
    if c = '"' then some rest
    else if c = '\\' then
      match rest with
      | 'u' :: a :: b :: c :: d :: rest => do
        let _ ← hex4? a b c d
        skipString fuel rest
      | e :: rest => do
        let _ ← simpleEscape? e
        skipString fuel rest
      | [] => none
    else if c.toNat < 0x20 then none
    else skipString fuel rest

structure Numeral where
  isNegative : Bool
  whole : List Char
  fraction : Option (List Char)
  exponent : Option (Bool × List Char)

def digits1 (text : Text) : Option (List Char × Text) :=
  let (digits, rest) := text.span Char.isDigit
  if digits.isEmpty then none else some (digits, rest)

/-- Digits that start with a zero only if that is all of them. -/
def wholeDigits (text : Text) : Option (List Char × Text) := do
  let (digits, rest) ← digits1 text
  if digits.head? = some '0' ∧ digits.length ≠ 1 then none else some (digits, rest)

def fractionDigits (text : Text) : Option (Option (List Char) × Text) :=
  match text with
  | '.' :: rest => (digits1 rest).map fun (digits, rest) ↦ (some digits, rest)
  | _ => some (none, text)

def exponentDigits (text : Text) : Option (Option (Bool × List Char) × Text) :=
  match text with
  | c :: rest =>
    if c = 'e' ∨ c = 'E' then
      let (isNegative, rest) :=
        match rest with
        | '-' :: rest => (true, rest)
        | '+' :: rest => (false, rest)
        | _ => (false, rest)
      (digits1 rest).map fun (digits, rest) ↦ (some (isNegative, digits), rest)
    else some (none, text)
  | [] => some (none, text)

def readNumeral (text : Text) : Option (Numeral × Text) := do
  let (isNegative, rest) :=
    match text with
    | '-' :: rest => (true, rest)
    | _ => (false, text)
  let (whole, rest) ← wholeDigits rest
  let (fraction, rest) ← fractionDigits rest
  let (exponent, rest) ← exponentDigits rest
  return (⟨isNegative, whole, fraction, exponent⟩, rest)

/-- Takes digits into a number while it stays below `2 ^ 64`; gives the digits left over too. -/
def accumulate : Nat → List Char → Nat × List Char
  | n, [] => (n, [])
  | n, c :: digits =>
    let next := 10 * n + SystemDynamics.Number.digitValue c
    if next < Nat.pow 2 64 then accumulate next digits else (n, c :: digits)

/-- `x · 10 ^ e` by one multiplication or division of doubles by a power of ten, after as many
divisions by `10 ^ 308` as bring the exponent into range. No value if it is too large. -/
def scale : (fuel : Nat) → Float → Int → Option Float
  | 0, x, _ => some x
  | fuel + 1, x, e =>
    if e.natAbs ≤ 308 then
      let power := SystemDynamics.Number.ofDecimal 1 e.natAbs
      if 0 ≤ e then
        let product := x * power
        if product.isInf then none else some product
      else some (x / power)
    else if x == 0 then some x
    else if 0 ≤ e then none
    else scale fuel (x / 1e308) (e + 308)

/-- Whole numbers that fit in sixty-four bits are kept; all else is scaled as a double, from the
digits that fit in sixty-four bits. -/
def Numeral.value (n : Numeral) : Option Number :=
  let (whole, excess) := accumulate 0 n.whole
  match n.fraction, n.exponent, excess with
  | none, none, [] =>
    if !n.isNegative then some (.natural whole)
    else if 0 < whole ∧ whole ≤ Nat.pow 2 63 then some (.negative whole)
    else some (.float (-Float.ofNat whole))
  | fraction, exponent, excess =>
    let fraction := fraction.getD []
    let (significand, unread) := accumulate whole fraction
    let taken : Nat := fraction.length - unread.length
    let written : Int :=
      match exponent with
      | none => 0
      | some (isNegative, digits) =>
        let e := SystemDynamics.Number.ofDigits digits
        if isNegative then -e else e
    let e : Int := excess.length - taken + written
    (scale (e.natAbs + 1) (Float.ofNat significand) e).map fun x ↦
      .float (if n.isNegative then -x else x)

def readNumber (text : Text) : Option (Number × Text) := do
  let (numeral, rest) ← readNumeral text
  return (← numeral.value, rest)

end SystemDynamics.Json
