namespace SystemDynamics.Number

def digitValue (c : Char) : Nat :=
  c.toNat - '0'.toNat

def ofDigits (digits : List Char) : Nat :=
  digits.foldl (fun n c ↦ 10 * n + digitValue c) 0

def ofDecimal (m : Nat) (e : Int) : Float :=
  Float.ofScientific m (e < 0) e.natAbs

def ofDigits? (text : List Char) : Option Nat :=
  if text.isEmpty || !text.all Char.isDigit then none else some (ofDigits text)

/-- A text of digits with an optional minus or plus, as in an exponent. -/
def integer? : List Char → Option Int
  | '-' :: digits => (ofDigits? digits).map (-·)
  | '+' :: digits => (ofDigits? digits).map (·)
  | digits => (ofDigits? digits).map (·)

/-- A whole number of sixty-four bits, with an optional plus. -/
def natural? (text : String) : Option Nat :=
  let digits := match text.toList with
    | '+' :: rest => rest
    | rest => rest
  (ofDigits? digits).filter (· < Nat.pow 2 64)

/-- A text without a sign: digits, a point among them, an exponent. -/
def unsigned? (text : List Char) : Option Float :=
  let (whole, rest) := text.span Char.isDigit
  let (fraction, rest) :=
    match rest with
    | '.' :: rest => rest.span Char.isDigit
    | _ => ([], rest)
  if whole.isEmpty && fraction.isEmpty then none
  else
    let value := fun e : Int ↦ ofDecimal (ofDigits (whole ++ fraction)) (e - fraction.length)
    match rest with
    | [] => some (value 0)
    | c :: exponent => if c = 'e' ∨ c = 'E' then (integer? exponent).map value else none

def magnitude? (text : List Char) : Option Float :=
  let word := String.ofList (text.map Char.toLower)
  if word = "inf" ∨ word = "infinity" then some (1.0 / 0.0)
  else if word = "nan" then some (0.0 / 0.0)
  else unsigned? text

def ofText? (text : String) : Option Float :=
  match text.toList with
  | '-' :: rest => (magnitude? rest).map (-·)
  | '+' :: rest => magnitude? rest
  | rest => magnitude? rest

end SystemDynamics.Number
