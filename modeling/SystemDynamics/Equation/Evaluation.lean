import SystemDynamics.Equation.Grammar
import SystemDynamics.Number.Whole

namespace SystemDynamics.Equation

abbrev Scope (ν : Type) := ν → Option Float

def truth (b : Bool) : Float :=
  if b then 1 else 0

/-- The value of a call whose arguments have values; it may be infinite or no number. -/
def Builtin.value (f : Builtin) (arguments : List Float) : Except Fault Float :=
  match f, arguments with
  | min, xs => .ok (xs.foldl Number.smaller (1.0 / 0.0))
  | max, xs => .ok (xs.foldl Number.larger (-1.0 / 0.0))
  | abs, x :: _ => .ok x.abs
  | sqrt, x :: _ => if x < 0 then .error (.undefined (.root x)) else .ok x.sqrt
  | exp, x :: _ => .ok x.exp
  | log, x :: _ => if x ≤ 0 then .error (.undefined (.logarithm log x)) else .ok x.log
  | log10, x :: _ => if x ≤ 0 then .error (.undefined (.logarithm log10 x)) else .ok x.log10
  | sin, x :: _ => .ok x.sin
  | cos, x :: _ => .ok x.cos
  | tan, x :: _ => .ok x.tan
  | pow, x :: y :: _ => .ok (x.pow y)
  | floor, x :: _ => .ok (Number.floor x)
  | ceil, x :: _ => .ok (Number.ceil x)
  | clip, x :: low :: high :: _ => .ok (Number.larger low (Number.smaller high x))
  | ifThenElse, condition :: x :: y :: _ => .ok (if condition != 0 then x else y)
  | step, time :: start :: height :: _ => .ok (if start ≤ time then height else 0)
  | pulse, time :: start :: duration :: height :: _ =>
    .ok (if start ≤ time ∧ time < start + duration then height else 0)
  | ramp, time :: start :: slope :: _ => .ok (slope * Number.larger (time - start) 0)
  | _, _ => .error (.missingArgument f)

def Builtin.apply (f : Builtin) (arguments : List Float) : Except Fault Float := do
  let x ← f.value arguments
  if x.isFinite then return x else .error (.undefined (.result f arguments))

def Operator.value (op : Operator) (a b : Float) : Float :=
  match op with
  | add => a + b
  | sub => a - b
  | mul => a * b
  | div => a / b
  | pow => a.pow b
  | lt => truth (a < b)
  | le => truth (a ≤ b)
  | gt => truth (b < a)
  | ge => truth (b ≤ a)
  | eq => truth (a == b)
  | ne => truth (a != b)

def Operator.apply (op : Operator) (a b : Float) : Except Fault Float :=
  if op = .div ∧ b == 0 then .error (.undefined (.quotient a))
  else
    let x := op.value a b
    if x.isFinite then .ok x else .error (.undefined (.operation a op b))

def Sign.apply : Sign → Float → Float
  | minus, x => -x
  | plus, x => x

namespace Term

variable {ν : Type} (spell : ν → String) (scope : Scope ν)

mutual

/-- Evaluates from left to right, up to the first fault; of a choice, only the branch taken. -/
def eval : Term ν → Except Fault Float
  | number x => .ok x
  | var v =>
    match scope v with
    | none => .error (.unknown (spell v))
    | some x => if x.isFinite then .ok x else .error (.undefined (.held (spell v) x))
  | signed s t => do return s.apply (← t.eval)
  | binary op l r => do
    let a ← l.eval
    let b ← r.eval
    op.apply a b
  | call .ifThenElse (condition :: t :: e :: _) => do
    let c ← condition.eval
    if c != 0 then t.eval else e.eval
  | call .ifThenElse _ => .error (.missingArgument .ifThenElse)
  | call f ts => do f.apply (← evalAll ts)

def evalAll : List (Term ν) → Except Fault (List Float)
  | [] => .ok []
  | t :: ts => do
    let x ← t.eval
    let xs ← evalAll ts
    return x :: xs

end

end Term

def evaluate (scope : Scope String) (source : String) : Except Fault Float := do
  (← parse source).eval id scope

end SystemDynamics.Equation
