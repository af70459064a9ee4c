import SystemDynamics.Equation.Term
import SystemDynamics.Equation.Token

namespace SystemDynamics.Equation

open SystemDynamics.Number (Spelling)

inductive Malformed where
  | unexpectedCharacter (c : Char)
  | invalidNumber
  | numberOutOfRange (text : String)
  | empty
  | unexpected (token : Token)
  | unexpectedEnd
  | trailing (token : Token)
  | expected (token : Token) (context : String) (found : Option Token)
  | argumentSeparator (found : Token)
  | unclosedArguments
  | chained (op : Operator)
  | wrongArity (function : Builtin) (count : Nat)
  | tooDeep
  deriving DecidableEq

inductive Undefined where
  | held (name : String) (value : Float)
  | quotient (dividend : Float)
  | operation (left : Float) (op : Operator) (right : Float)
  | root (x : Float)
  | logarithm (function : Builtin) (x : Float)
  | result (function : Builtin) (arguments : List Float)
  deriving DecidableEq

inductive Fault where
  | malformed (offset : Nat) (cause : Malformed)
  | unknown (name : String)
  | undefined (cause : Undefined)
  | missingArgument (function : Builtin)
  deriving DecidableEq

/-- Levels of nesting, and height of a tree, that an equation may have. -/
def maxLevels : Nat := 200

def Malformed.message : Malformed → String
  | unexpectedCharacter c => "unexpected character '" ++ c.toString ++ "'"
  | invalidNumber => "invalid numeric literal"
  | numberOutOfRange text => "numeric literal '" ++ text ++ "' is out of range"
  | empty => "empty expression"
  | unexpected token => "unexpected " ++ token.text
  | unexpectedEnd => "unexpected end of input"
  | trailing token => "unexpected " ++ token.text ++ " after end of expression"
  | expected token context found =>
    "expected " ++ token.text ++ " " ++ context ++ ", found " ++
      (found.elim "end of input" Token.text)
  | argumentSeparator found => "expected ',' or ')' in argument list, found " ++ found.text
  | unclosedArguments => "unclosed argument list"
  | chained op => "comparison '" ++ op.symbol ++ "' cannot be chained"
  | wrongArity f count =>
    f.name ++ "() takes " ++ f.arity.text ++ ", got " ++ toString count
  | tooDeep => "expression nests deeper than " ++ toString maxLevels ++ " levels"

def Undefined.operationName : Undefined → String
  | held name _ => name
  | quotient _ => "/"
  | operation _ op _ => op.symbol
  | root _ => "sqrt"
  | logarithm f _ => f.name
  | result f _ => f.name

def Undefined.message : Undefined → String
  | held _ x => "variable holds non-finite value " ++ Spelling.sentence.write x
  | quotient a => "division of " ++ Spelling.sentence.write a ++ " by zero"
  | operation a op b =>
    Spelling.sentence.write a ++ " " ++ op.symbol ++ " " ++ Spelling.sentence.write b ++
      " is not finite"
  | root x => "square root of negative value " ++ Spelling.sentence.write x
  | logarithm _ x => "logarithm of non-positive value " ++ Spelling.sentence.write x
  | result _ xs =>
    "result is not finite for arguments [" ++
      ", ".intercalate (xs.map Spelling.standalone.write) ++ "]"

def Fault.message : Fault → String
  | malformed offset cause =>
    "syntax error at offset " ++ toString offset ++ ": " ++ cause.message
  | unknown name => "unknown identifier '" ++ name ++ "'"
  | undefined cause => "math domain error in " ++ cause.operationName ++ ": " ++ cause.message
  | missingArgument f => f.name ++ "() misses an argument"

end SystemDynamics.Equation
