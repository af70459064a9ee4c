import SystemDynamics.Equation.Builtin

namespace SystemDynamics.Equation

inductive Sign where
  | minus
  | plus
  deriving DecidableEq, Repr

inductive Operator where
  | add | sub | mul | div | pow | lt | le | gt | ge | eq | ne
  deriving DecidableEq, Repr

namespace Operator

def symbol : Operator → String
  | add => "+"
  | sub => "-"
  | mul => "*"
  | div => "/"
  | pow => "**"
  | lt => "<"
  | le => "<="
  | gt => ">"
  | ge => ">="
  | eq => "=="
  | ne => "!="

def isComparison : Operator → Bool
  | lt | le | gt | ge | eq | ne => true
  | _ => false

end Operator

/-- The tree of an equation whose variables are named by `ν`. -/
inductive Term (ν : Type) where
  | number (value : Float)
  | var (name : ν)
  | signed (sign : Sign) (operand : Term ν)
  | binary (op : Operator) (left right : Term ν)
  | call (function : Builtin) (arguments : List (Term ν))

namespace Term

variable {ν μ ε : Type}

mutual

def names : Term ν → List ν
  | number _ => []
  | var v => [v]
  | signed _ t => t.names
  | binary _ l r => l.names ++ r.names
  | call _ ts => namesAll ts

def namesAll : List (Term ν) → List ν
  | [] => []
  | t :: ts => t.names ++ namesAll ts

end

def distinctNames [BEq ν] (t : Term ν) : List ν :=
  t.names.eraseDups

mutual

/-- Renames the variables from left to right, stopping at the first that has no new name. -/
def rename (f : ν → Except ε μ) : Term ν → Except ε (Term μ)
  | number x => .ok (number x)
  | var v => do return var (← f v)
  | signed s t => do return signed s (← t.rename f)
  | binary op l r => do
    let l ← l.rename f
    let r ← r.rename f
    return binary op l r
  | call g ts => do return call g (← renameAll f ts)

def renameAll (f : ν → Except ε μ) : List (Term ν) → Except ε (List (Term μ))
  | [] => .ok []
  | t :: ts => do
    let t ← t.rename f
    let ts ← renameAll f ts
    return t :: ts

end

mutual

def height : Term ν → Nat
  | number _ | var _ => 1
  | signed _ t => t.height + 1
  | binary _ l r => max l.height r.height + 1
  | call _ ts => heightAll ts + 1

def heightAll : List (Term ν) → Nat
  | [] => 0
  | t :: ts => max t.height (heightAll ts)

end

end Term

end SystemDynamics.Equation
