namespace SystemDynamics.Number

open Float.Model (UnpackedFloat)
open Float.Model.UnpackedFloat (Sign)

def ofWhole (sign : Sign) (n : Nat) : Float :=
  Float.ofModel (.pack
    (if _ : 0 < n then Float.Model.UnpackedFloat.round .binary64 sign n 0 else .zero sign))

/-- Drops the fraction `rest / whole` of the magnitude, and adds one to it if `away` says so. -/
def toWhole (away : Sign → (rest whole : Nat) → Bool) (x : Float) : Float :=
  match x.toModel.unpack with
  | .finite sign m e _ =>
    if 0 ≤ e then x
    else
      let whole := Nat.pow 2 (-e).toNat
      ofWhole sign (if away sign (m % whole) whole then m / whole + 1 else m / whole)
  | _ => x

def floor : Float → Float :=
  toWhole fun sign rest _ ↦ sign matches .negative && rest != 0

def ceil : Float → Float :=
  toWhole fun sign rest _ ↦ sign matches .positive && rest != 0

/-- A half goes away from zero. -/
def round : Float → Float :=
  toWhole fun _ rest whole ↦ whole ≤ 2 * rest

/-- The smaller number; what is not a number is passed over. -/
def smaller (x y : Float) : Float :=
  if x.isNaN then y else if y.isNaN then x else if y < x then y else x

def larger (x y : Float) : Float :=
  if x.isNaN then y else if y.isNaN then x else if x < y then y else x

end SystemDynamics.Number
