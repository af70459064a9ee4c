namespace SystemDynamics.Text

def isBlank (c : Char) : Bool :=
  let n := c.toNat
  9 ≤ n && n ≤ 13 || n == 0x20 || n == 0x85 || n == 0xA0 || n == 0x1680 ||
    0x2000 ≤ n && n ≤ 0x200A || n == 0x2028 || n == 0x2029 || n == 0x202F || n == 0x205F ||
    n == 0x3000

def trimLeft (text : List Char) : List Char :=
  text.dropWhile isBlank

def trim (text : String) : String :=
  String.ofList (trimLeft (trimLeft text.toList).reverse).reverse

/-- Equality up to the case of ASCII letters. -/
def sameLetters (a b : String) : Bool :=
  a.map Char.toLower == b.map Char.toLower

end SystemDynamics.Text
