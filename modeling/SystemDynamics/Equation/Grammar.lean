import SystemDynamics.Equation.Lexeme

namespace SystemDynamics.Equation

/-- How tightly an operator binds, and how tightly its right operand must. -/
structure Binding where
  op : Operator
  strength : Nat
  operand : Nat

def comparison (op : Operator) : Binding := ⟨op, 10, 11⟩

def Token.binding? : Token → Option Binding
  | lt => some (comparison .lt)
  | le => some (comparison .le)
  | gt => some (comparison .gt)
  | ge => some (comparison .ge)
  | eqEq => some (comparison .eq)
  | bangEq => some (comparison .ne)
  | plus => some ⟨.add, 20, 21⟩
  | minus => some ⟨.sub, 20, 21⟩
  | star => some ⟨.mul, 30, 31⟩
  | slash => some ⟨.div, 30, 31⟩
  | starStar => some ⟨.pow, 50, 50⟩
  | _ => none

def signStrength : Nat := 40

def Token.sign? : Token → Option Sign
  | minus => some .minus
  | plus => some .plus
  | _ => none

structure Parsed (α : Type) where
  result : α
  height : Nat
  rest : List Lexeme

/-- A parser of one level, for terms whose operators bind at least so tightly. -/
abbrev Level := Nat → List Lexeme → Except Fault (Parsed (Term String))

section

/- `stop` is the offset of the end of the text. -/
variable (stop : Nat)

def position (lexemes : List Lexeme) : Nat :=
  lexemes.head?.elim stop (·.offset)

def refuse {α : Type} (lexemes : List Lexeme) (cause : Malformed) : Except Fault α :=
  .error (.malformed (position stop lexemes) cause)

def checkHeight (height : Nat) (rest : List Lexeme) : Except Fault Nat :=
  if maxLevels < height then refuse stop rest .tooDeep else .ok height

def expect (token : Token) (context : String) (lexemes : List Lexeme) :
    Except Fault (List Lexeme) :=
  match lexemes with
  | l :: rest =>
    if l.token = token then .ok rest else refuse stop lexemes (.expected token context l.token)
  | [] => refuse stop lexemes (.expected token context none)

variable (deeper : Level)

def arguments : Nat → List Lexeme → Except Fault (Parsed (List (Term String)))
  | 0, lexemes => refuse stop lexemes .unclosedArguments
  | fuel + 1, lexemes => do
    let first ← deeper 0 lexemes
    match first.rest with
    | [] => refuse stop [] .unclosedArguments
    | l :: rest =>
      match l.token with
      | .comma =>
        let others ← arguments fuel rest
        return ⟨first.result :: others.result, max first.height others.height, others.rest⟩
      | .rightParen => return ⟨[first.result], first.height, rest⟩
      | found => refuse stop first.rest (.argumentSeparator found)

def argumentList (lexemes : List Lexeme) : Except Fault (Parsed (List (Term String))) :=
  match lexemes with
  | ⟨.rightParen, _, _⟩ :: rest => .ok ⟨[], 0, rest⟩
  | _ => arguments stop deeper (lexemes.length + 1) lexemes

def call (name : String) (offset : Nat) (lexemes : List Lexeme) :
    Except Fault (Parsed (Term String)) :=
  match Builtin.ofName? name with
  | none => .error (.unknown name)
  | some f => do
    let rest ← expect stop .leftParen "after function name" lexemes
    let arguments ← argumentList stop deeper rest
    let count := arguments.result.length
    if f.arity.accepts count then
      let height ← checkHeight stop (arguments.height + 1) arguments.rest
      return ⟨.call f arguments.result, height, arguments.rest⟩
    else .error (.malformed offset (.wrongArity f count))

def atom (lexemes : List Lexeme) : Except Fault (Parsed (Term String)) :=
  match lexemes with
  | [] => refuse stop lexemes .unexpectedEnd
  | l :: rest =>
    match l.token with
    | .number x => .ok ⟨.number x, 1, rest⟩
    | .name s =>
      match rest with
      | ⟨.leftParen, _, _⟩ :: _ => call stop deeper s l.offset rest
      | _ => .ok ⟨.var s, 1, rest⟩
    | .leftParen => do
      let inner ← deeper 0 rest
      let rest ← expect stop .rightParen "to close '('" inner.rest
      return { inner with rest }
    | token => refuse stop lexemes (.unexpected token)

def operand (lexemes : List Lexeme) : Except Fault (Parsed (Term String)) :=
  match lexemes.head?.bind (·.token.sign?) with
  | none => atom stop deeper lexemes
  | some sign => do
    let inner ← deeper signStrength (lexemes.drop 1)
    let height ← checkHeight stop (inner.height + 1) inner.rest
    return ⟨.signed sign inner.result, height, inner.rest⟩

/-- The operators after a left operand that bind at least as tightly as `least`. -/
def operators (least : Nat) :
    Nat → (compared : Bool) → Parsed (Term String) → Except Fault (Parsed (Term String))
  | 0, _, left => .ok left
  | fuel + 1, compared, left =>
    match left.rest with
    | [] => .ok left
    | l :: rest =>
      match l.token.binding? with
      | none => .ok left
      | some b =>
        if b.strength < least then .ok left
        else if b.op.isComparison && compared then refuse stop left.rest (.chained b.op)
        else do
          let right ← deeper b.operand rest
          let height ← checkHeight stop (1 + max left.height right.height) right.rest
          operators least fuel (compared || b.op.isComparison)
            ⟨.binary b.op left.result right.result, height, right.rest⟩

def level : Nat → Level
  | 0 => fun _ lexemes ↦ refuse stop lexemes .tooDeep
  | levels + 1 => fun least lexemes ↦ do
    let left ← operand stop (level levels) lexemes
    operators stop (level levels) least left.rest.length false left

end

def parseLexemes (stop : Nat) (lexemes : List Lexeme) : Except Fault (Term String) :=
  if lexemes.isEmpty then .error (.malformed 0 .empty)
  else do
    let parsed ← level stop maxLevels 0 lexemes
    match parsed.rest with
    | [] => return parsed.result
    | l :: _ => refuse stop parsed.rest (.trailing l.token)

/-- The term of an equation. A call names a function and fits its arity; variables are left as
names. -/
def parse (source : String) : Except Fault (Term String) := do
  parseLexemes source.utf8ByteSize (← tokenize source)

end SystemDynamics.Equation
