namespace SystemDynamics.Equation

inductive Builtin where
  | min | max | abs | sqrt | exp | log | log10 | sin | cos | tan | pow | floor | ceil
  | clip | ifThenElse | step | pulse | ramp
  deriving DecidableEq, Repr

namespace Builtin

def all : List Builtin :=
  [min, max, abs, sqrt, exp, log, log10, sin, cos, tan, pow, floor, ceil, clip, ifThenElse,
    step, pulse, ramp]

def name : Builtin → String
  | min => "min"
  | max => "max"
  | abs => "abs"
  | sqrt => "sqrt"
  | exp => "exp"
  | log => "log"
  | log10 => "log10"
  | sin => "sin"
  | cos => "cos"
  | tan => "tan"
  | pow => "pow"
  | floor => "floor"
  | ceil => "ceil"
  | clip => "clip"
  | ifThenElse => "if_then_else"
  | step => "step"
  | pulse => "pulse"
  | ramp => "ramp"

def ofName? (name : String) : Option Builtin :=
  all.find? (·.name == name)

theorem ofName?_name (f : Builtin) : ofName? f.name = some f := by cases f <;> decide

end Builtin

def isBuiltin (name : String) : Bool :=
  (Builtin.ofName? name).isSome

inductive Arity where
  | exactly (n : Nat)
  | atLeast (n : Nat)
  deriving DecidableEq, Repr

def Arity.accepts : Arity → Nat → Bool
  | exactly n, count => count == n
  | atLeast n, count => n ≤ count

def Arity.text : Arity → String
  | exactly 1 => "exactly 1 argument"
  | exactly n => "exactly " ++ toString n ++ " arguments"
  | atLeast n => "at least " ++ toString n ++ " arguments"

def Builtin.arity : Builtin → Arity
  | min | max => .atLeast 2
  | pow => .exactly 2
  | clip | ifThenElse | step | ramp => .exactly 3
  | pulse => .exactly 4
  | _ => .exactly 1

end SystemDynamics.Equation
