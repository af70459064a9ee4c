import SystemDynamics.Number.Spelling

namespace SystemDynamics.Equation

open SystemDynamics.Number (Spelling)

inductive Token where
  | number (value : Float)
  | name (text : String)
  | plus | minus | star | starStar | slash
  | lt | le | gt | ge | eqEq | bangEq
  | leftParen | rightParen | comma
  deriving DecidableEq

def Token.text : Token → String
  | number x => "number " ++ Spelling.sentence.write x
  | name s => "identifier '" ++ s ++ "'"
  | plus => "'+'"
  | minus => "'-'"
  | star => "'*'"
  | starStar => "'**'"
  | slash => "'/'"
  | lt => "'<'"
  | le => "'<='"
  | gt => "'>'"
  | ge => "'>='"
  | eqEq => "'=='"
  | bangEq => "'!='"
  | leftParen => "'('"
  | rightParen => "')'"
  | comma => "','"

/-- A token, the text it covers, and the offset in bytes at which that text starts. -/
structure Lexeme where
  token : Token
  text : List Char
  offset : Nat
  deriving DecidableEq

def width : List Char → Nat
  | [] => 0
  | c :: text => c.utf8Size + width text

end SystemDynamics.Equation
