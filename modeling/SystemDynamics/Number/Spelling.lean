import SystemDynamics.Number.Digits

namespace SystemDynamics.Number

open Float.Model (UnpackedFloat)

structure Spelling where
  /-- Whether a number is written without an exponent, by the exponent of its leading digit. -/
  positional : Int → Bool
  /-- Whether a whole number keeps a final `.0`. -/
  keepsPoint : Bool
  /-- Whether an exponent that is not negative carries a sign. -/
  signsExponent : Bool
  tie : Tie

/-- Numbers inside a sentence: never an exponent, no final `.0`. -/
def Spelling.sentence : Spelling :=
  ⟨fun _ ↦ true, false, false, .up⟩

/-- Numbers that stand for themselves: an exponent below `10 ^ -4` and from `10 ^ 16` on. -/
def Spelling.standalone : Spelling :=
  ⟨fun e ↦ -4 ≤ e && e < 16, true, false, .up⟩

def zeros (n : Nat) : List Char :=
  List.replicate n '0'

/-- Digits with a point, the last digit having the weight `10 ^ exponent`. -/
def withPoint (keepsPoint : Bool) (digits : List Char) (exponent : Int) : List Char :=
  let point := digits.length + exponent
  if 0 ≤ exponent then digits ++ zeros exponent.toNat ++ (if keepsPoint then ['.', '0'] else [])
  else if 0 < point then digits.take point.toNat ++ '.' :: digits.drop point.toNat
  else '0' :: '.' :: zeros (-point).toNat ++ digits

def withExponent (signsExponent : Bool) (digits : List Char) (leading : Int) : List Char :=
  let fraction := digits.drop 1
  digits.take 1 ++ (if fraction.isEmpty then [] else '.' :: fraction) ++ 'e' ::
    (if leading < 0 then ['-'] else if signsExponent then ['+'] else []) ++
    Nat.toDigits 10 leading.natAbs

def Spelling.decimal (s : Spelling) (d : Decimal) : List Char :=
  let digits := Nat.toDigits 10 d.coefficient
  let leading := digits.length + d.exponent - 1
  if s.positional leading then withPoint s.keepsPoint digits d.exponent
  else withExponent s.signsExponent digits leading

def minus : Float.Model.UnpackedFloat.Sign → List Char
  | .negative => ['-']
  | .positive => []

/-- The text of a double: the fewest digits that read back to it. -/
def Spelling.write (s : Spelling) (x : Float) : String :=
  match x.toModel.unpack with
  | .notANumber => "NaN"
  | .infinity sign => String.ofList (minus sign ++ ['i', 'n', 'f'])
  | .zero sign => String.ofList (minus sign ++ withPoint s.keepsPoint ['0'] 0)
  | .finite sign m e _ => String.ofList (minus sign ++ s.decimal (shortest s.tie m e))

/-- All integer digits and `places` more, a half going to the even neighbour; the sign of zero is
kept. -/
def fixed (places : Nat) (x : Float) : String :=
  match x.toModel.unpack with
  | .notANumber => "NaN"
  | .infinity sign => String.ofList (minus sign ++ ['i', 'n', 'f'])
  | .zero sign => String.ofList (minus sign ++ '0' :: '.' :: zeros places)
  | .finite sign m e _ =>
    let units := nearest places m e
    let fraction := Nat.toDigits 10 (units % Nat.pow 10 places)
    String.ofList (minus sign ++ Nat.toDigits 10 (units / Nat.pow 10 places) ++
      '.' :: zeros (places - fraction.length) ++ fraction)

end SystemDynamics.Number
