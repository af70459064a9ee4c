import SystemDynamics.NameMap
import SystemDynamics.Text.Word

namespace SystemDynamics.Validation

def forbiddenWords : List String :=
  ["random", "rand", "randint", "uniform", "normal", "gauss", "eval", "exec", "compile", "import",
    "__import__", "open", "read", "write", "file"]

/-- The ASCII letter in lower case that a letter is a case of. The long s and the sign for kelvin
are the only such letters outside ASCII. -/
def foldCase (c : Char) : Char :=
  if c = 'ſ' then 's' else if c = '\u212a' then 'k' else c.toLower

def isForbidden (word : List Char) : Bool :=
  forbiddenWords.contains (String.ofList (word.map foldCase))

/-- The forbidden words of a text, its ASCII letters in lower case, each once, in rising order. -/
def forbiddenIn (text : String) : List String :=
  NameMap.distinct
    (((Text.words text).filter isForbidden).map fun word ↦ String.ofList (word.map Char.toLower))

end SystemDynamics.Validation
