namespace SystemDynamics.Number

/-- The number `coefficient · 10 ^ exponent`. -/
structure Decimal where
  coefficient : Nat
  exponent : Int
  deriving DecidableEq, Repr

inductive Tie where
  | even
  | up
  deriving DecidableEq, Repr

def Tie.goesUp (tie : Tie) (lower : Nat) : Bool :=
  match tie with
  | .even => lower % 2 == 1
  | .up => true

def Decimal.exact (m : Nat) (e : Int) : Decimal :=
  ⟨m * Nat.pow 2 e.toNat * Nat.pow 5 (-e).toNat, if e < 0 then e else 0⟩

/-- The double below `2 ^ 52 · 2 ^ e` is nearer than the one above, unless it is subnormal. -/
def lowerGap (m : Nat) (e : Int) : Nat :=
  if m = Nat.pow 2 52 ∧ -1074 < e then 1 else 2

/-- The multiple of `10 ^ p` nearest to `m · 2 ^ e` among those that round to it. Distances are
counted in quarters of `2 ^ e`; the ends of the interval belong to it when `m` is even. -/
def onGrid? (tie : Tie) (m : Nat) (e p : Int) : Option Nat :=
  let unit := Nat.pow 2 e.toNat * Nat.pow 10 (-p).toNat
  let step := 4 * Nat.pow 2 (-e).toNat * Nat.pow 10 p.toNat
  let lower := 4 * m * unit / step
  let below := 4 * m * unit % step
  let above := step - below
  let within := fun distance gap ↦ if m % 2 = 0 then distance ≤ gap else distance < gap
  match decide (within below (lowerGap m e * unit)), decide (within above (2 * unit)) with
  | false, false => none
  | true, false => some lower
  | false, true => some (lower + 1)
  | true, true =>
    if below < above then some lower
    else if above < below then some (lower + 1)
    else some (if tie.goesUp lower then lower + 1 else lower)

/-- The first grid with a hit, from `10 ^ p` downwards. -/
def coarsest (tie : Tie) (m : Nat) (e : Int) : Nat → Int → Decimal
  | 0, _ => .exact m e
  | grids + 1, p =>
    match onGrid? tie m e p with
    | some c => ⟨c, p⟩
    | none => coarsest tie m e grids (p - 1)

/-- The shortest decimal that reads back to the double `m · 2 ^ e`, for `0 < m`. The search starts
at a power of ten that is not below the number; seventeen digits always suffice. -/
def shortest (tie : Tie) (m : Nat) (e : Int) : Decimal :=
  coarsest tie m e 20 ((m.log2 + 1 + e) * 30103 / 100000 + 1)

/-- `m · 2 ^ e` in units of `10 ^ -places`, a half going to the even neighbour. -/
def nearest (places m : Nat) (e : Int) : Nat :=
  let numerator := m * Nat.pow 2 e.toNat * Nat.pow 10 places
  let denominator := Nat.pow 2 (-e).toNat
  let lower := numerator / denominator
  match compare (2 * (numerator % denominator)) denominator with
  | .lt => lower
  | .eq => if Tie.even.goesUp lower then lower + 1 else lower
  | .gt => lower + 1

end SystemDynamics.Number
