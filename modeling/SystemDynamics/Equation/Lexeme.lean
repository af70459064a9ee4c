import SystemDynamics.Equation.Fault
import SystemDynamics.Number.Reading

namespace SystemDynamics.Equation

def isSpace (c : Char) : Bool :=
  c == ' ' || c == '\t' || c == '\n' || c == '\x0c' || c == '\r'

def startsName (c : Char) : Bool :=
  c.isAlpha || c == '_'

def continuesName (c : Char) : Bool :=
  c.isAlphanum || c == '_'

def startsNumber (c : Char) (next : Option Char) : Bool :=
  c.isDigit || c == '.' && next.any Char.isDigit

/-- `.digits`, the digits being optional. -/
def fraction : List Char → List Char
  | '.' :: rest => '.' :: rest.takeWhile Char.isDigit
  | _ => []

/-- An `e` with an optional sign counts only before a digit. -/
def exponent : List Char → List Char
  | [] => []
  | c :: rest =>
    if c == 'e' || c == 'E' then
      let sign := rest.take 1 |>.filter fun s ↦ s == '+' || s == '-'
      let digits := (rest.drop sign.length).takeWhile Char.isDigit
      if digits.isEmpty then [] else c :: sign ++ digits
    else []

def numeral (text : List Char) : List Char :=
  let whole := text.takeWhile Char.isDigit
  let fraction := fraction (text.drop whole.length)
  whole ++ fraction ++ exponent (text.drop (whole ++ fraction).length)

def readNumber (text : List Char) : Except Malformed (Token × Nat) :=
  let digits := numeral text
  if (text.drop digits.length).head?.any fun c ↦ startsName c || c == '.' then
    .error .invalidNumber
  else
    match Number.unsigned? digits with
    | none => .error .invalidNumber
    | some x =>
      if x.isFinite then .ok (.number x, digits.length)
      else .error (.numberOutOfRange (String.ofList digits))

def operator? : Char → Option Char → Option (Token × Nat)
  | '*', some '*' => some (.starStar, 2)
  | '<', some '=' => some (.le, 2)
  | '>', some '=' => some (.ge, 2)
  | '=', some '=' => some (.eqEq, 2)
  | '!', some '=' => some (.bangEq, 2)
  | '+', _ => some (.plus, 1)
  | '-', _ => some (.minus, 1)
  | '*', _ => some (.star, 1)
  | '/', _ => some (.slash, 1)
  | '<', _ => some (.lt, 1)
  | '>', _ => some (.gt, 1)
  | '(', _ => some (.leftParen, 1)
  | ')', _ => some (.rightParen, 1)
  | ',', _ => some (.comma, 1)
  | _, _ => none

def readToken (c : Char) (rest : List Char) : Except Malformed (Token × Nat) :=
  if startsNumber c rest.head? then readNumber (c :: rest)
  else if startsName c then
    let name := c :: rest.takeWhile continuesName
    .ok (.name (String.ofList name), name.length)
  else
    match operator? c rest.head? with
    | some token => .ok token
    | none => .error (.unexpectedCharacter c)

/-- The lexemes of a text whose first `covered` characters belong to the lexeme before it. -/
def lexemes : (covered offset : Nat) → List Char → Except Fault (List Lexeme)
  | _, _, [] => .ok []
  | covered + 1, offset, c :: rest => lexemes covered (offset + c.utf8Size) rest
  | 0, offset, c :: rest =>
    if isSpace c then lexemes 0 (offset + c.utf8Size) rest
    else
      match readToken c rest with
      | .error cause => .error (.malformed offset cause)
      | .ok (token, length) => do
        let later ← lexemes (length - 1) (offset + c.utf8Size) rest
        return ⟨token, (c :: rest).take length, offset⟩ :: later

def tokenize (source : String) : Except Fault (List Lexeme) :=
  lexemes 0 0 source.toList

def Token.name? : Token → Option String
  | name s => some s
  | _ => none

def identifiers (source : String) : Except Fault (List String) := do
  return (← tokenize source).filterMap (·.token.name?)

end SystemDynamics.Equation
